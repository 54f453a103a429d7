import Mavicona.Common.ChainedHash
import Mavicona.Par.Reader

/-!
# Writing a package

Reference: `par/append.c`, `par/encode.c`, `par/block.c`, `par/libtar_hash.c`.

`par_append_file` writes the header of a file and the content of a regular one. The first name of
every inode is kept, in a hash table for every device, and a second name of an inode is written as a
hard link to it. No options are set, as in all the callers, so there are no long names.
-/

namespace Mavicona.Par

open Bytes Numeral Path ChainedHash

/-! ## Headers -/

/-- `struct par_file_header`, to be written. The pointers are null without `PAR_GNU`. -/
structure FileHeader where
  name : Chars 100
  mode : Chars 8
  uid : Chars 8
  gid : Chars 8
  size : Chars 12
  mtime : Chars 12
  chksum : Chars 8
  typeflag : UInt8
  linkname : Chars 100
  magic : Chars 6
  version : Chars 2
  uname : Chars 32
  gname : Chars 32
  namePrefix : Chars 155
  padding : Chars 12
  pointers : Chars 16

namespace FileHeader

/-- The header after `memset`. -/
def zero : FileHeader :=
  ⟨.zero _, .zero _, .zero _, .zero _, .zero _, .zero _, .zero _, 0, .zero _, .zero _, .zero _,
    .zero _, .zero _, .zero _, .zero _, .zero _⟩

/-- What stands before the checksum. -/
def front (h : FileHeader) : Bytes :=
  h.name.bytes ++ (h.mode.bytes ++ (h.uid.bytes ++ (h.gid.bytes ++ (h.size.bytes ++ h.mtime.bytes))))

/-- What stands behind the checksum. -/
def back (h : FileHeader) : Bytes :=
  h.typeflag :: (h.linkname.bytes ++ (h.magic.bytes ++ (h.version.bytes ++ (h.uname.bytes ++
    (h.gname.bytes ++ (h.namePrefix.bytes ++ (h.padding.bytes ++ h.pointers.bytes)))))))

/-- The bytes of the struct. -/
def image (h : FileHeader) : Bytes := h.front ++ (h.chksum.bytes ++ h.back)

end FileHeader

/-! ## Files -/

/-- The type of a file. -/
inductive FileType
  | reg
  | dir
  | lnk
  | chr
  | blk
  | fifo
  | sock
  deriving DecidableEq

/-- The bits of a type in a mode. -/
def FileType.bits : FileType → ℕ
  | reg => ifreg
  | dir => ifdir
  | lnk => iflnk
  | chr => 0o20000
  | blk => 0o60000
  | fifo => 0o10000
  | sock => 0o140000

/-- What `lstat` says about a file. -/
structure Stat where
  type : FileType
  perm : Fin 0o10000
  uid : ℕ
  gid : ℕ
  mtime : ℤ
  size : ℕ
  dev : ℕ
  ino : ℕ

/-- `st_mode`. -/
def Stat.mode (s : Stat) : ℕ := s.type.bits + s.perm

/-- The files that are packed. -/
structure Source where
  lstat : Bytes → Option Stat
  readlink : Bytes → Option Bytes
  /-- The bytes of a file that `open` and `read` give. -/
  content : Bytes → Option Bytes
  /-- The names `readdir` gives, of a directory. -/
  readdir : Bytes → Option (List Bytes)
  /-- `getpwuid` and `getgrgid`: the name of an owner. -/
  getpwuid : ℕ → Option Bytes
  getgrgid : ℕ → Option Bytes
  /-- What the buffer of `par_append_regfile` has on the stack. -/
  stack : Bytes

/-! ## Encoding -/

/-- A number as an `int`. -/
def asInt (i : ℤ) : ℤ := toInt (i % 2 ^ 32).toNat

/-- `th_set_type`. -/
def thSetType (type : FileType) (h : FileHeader) : FileHeader :=
  match type with
  | .lnk => { h with typeflag := symtype }
  | .reg => { h with typeflag := regtype }
  | .dir => { h with typeflag := dirtype }
  | _ => h

/-- `th_set_user`. -/
def thSetUser (src : Source) (uid : ℕ) (h : FileHeader) : FileHeader :=
  { h with
    uname := ((src.getpwuid uid).map fun pw => h.uname.copy (snprintf 32 pw)).getD h.uname
    uid := h.uid.copy (intToOct uid 8) }

/-- `th_set_group`. -/
def thSetGroup (src : Source) (gid : ℕ) (h : FileHeader) : FileHeader :=
  { h with
    gname := ((src.getgrgid gid).map fun gr => h.gname.copy (snprintf 32 gr)).getD h.gname
    gid := h.gid.copy (intToOct gid 8) }

/-- `th_set_mode`. -/
def thSetMode (fmode : ℕ) (h : FileHeader) : FileHeader :=
  { h with mode := h.mode.copy (intToOct fmode 8) }

/-- `th_set_mtime`. -/
def thSetMtime (fmtime : ℤ) (h : FileHeader) : FileHeader :=
  { h with mtime := h.mtime.copy (intToOctNonull (asInt fmtime) 12) }

/-- `th_set_size`. -/
def thSetSize (fsize : ℤ) (h : FileHeader) : FileHeader :=
  { h with size := h.size.copy (intToOctNonull (asInt fsize) 12) }

/-- `th_set_from_stat`. -/
def thSetFromStat (src : Source) (s : Stat) (h : FileHeader) : Option FileHeader :=
  if s.type = .chr ∨ s.type = .blk ∨ s.type = .fifo ∨ s.type = .sock then none
  else
    let h := thSetMtime s.mtime
      (thSetMode s.mode (thSetGroup src s.gid (thSetUser src s.uid (thSetType s.type h))))
    some (if s.type = .reg then thSetSize s.size h else thSetSize 0 h)

/-- `th_set_path`. -/
def thSetPath (pathname : Bytes) (h : FileHeader) : FileHeader :=
  let suffix : Bytes := if pathname.getLast? ≠ some 47 ∧ isDir h.image then [47] else []
  if pathname.length > 100 then
    let start := pathname.length - 100 - 1
    let tmp := start + (pathname.drop start).idxOf 47
    if 47 ∉ pathname.drop start then h
    else { h with
      name := h.name.copy (snprintf 100 (pathname.drop (tmp + 1) ++ suffix))
      namePrefix := h.namePrefix.copy (snprintf (if tmp + 1 < 155 then tmp + 1 else 155) pathname) }
  else { h with name := h.name.copy (snprintf 100 (pathname ++ suffix)) }

/-- `th_set_link`. -/
def thSetLink (linkname : Bytes) (h : FileHeader) : FileHeader :=
  { h with linkname := h.linkname.copy (snprintf 100 linkname) }

/-- `th_finish`. -/
def thFinish (h : FileHeader) : FileHeader :=
  let h := { h with version := h.version.copy tversion, magic := h.magic.copy tmagic }
  { h with chksum := h.chksum.copy (intToOct (ofInt (thCrcCalc h.image)) 8) }

/-! ## Files of a package -/

/-- `tar_ino_t`. -/
structure TarIno where
  ino : ℕ
  name : Bytes

/-- `tar_dev_t`. -/
structure TarDev where
  dev : ℕ
  inodes : Table TarIno

/-- `PAR`, opened for writing: the blocks that were written, and the inodes of every device. -/
structure Packing where
  blocks : Stream
  devices : Table TarDev

/-- `dev_hash`. -/
def devHash (dev : ℕ) : ℕ := dev % 16

/-- `ino_hash`. -/
def inoHash (inode : ℕ) : ℕ := inode % 256

/-- The hash table of a device, a new one if there is none. -/
def deviceTable (dev : ℕ) (devices : Table TarDev) : Table TarDev :=
  match getkey devHash TarDev.dev dev devices with
  | some _ => devices
  | none => add devHash TarDev.dev ⟨dev, ChainedHash.empty⟩ devices

/-- The first name of an inode. -/
def firstName (dev ino : ℕ) (devices : Table TarDev) : Option Bytes := do
  let td ← getkey devHash TarDev.dev dev devices
  let ti ← getkey inoHash TarIno.ino ino td.inodes
  some ti.name

/-- Add an inode to its device. -/
def TarDev.addInode (ino : ℕ) (name : Bytes) (td : TarDev) : TarDev :=
  { td with inodes := add inoHash TarIno.ino ⟨ino, name⟩ td.inodes }

/-- Keep the first name of an inode. -/
def addName (dev ino : ℕ) (name : Bytes) (devices : Table TarDev) : Table TarDev :=
  modify devHash TarDev.dev dev (TarDev.addInode ino name) devices

/-- The loop of `par_append_regfile` on the `int` `i`, with what is left of the file and the
buffer: the blocks that are written, or a failure. The buffer keeps what a short read leaves in
it. -/
def contentBlocks : ℕ → ℤ → Bytes → Bytes → Option Stream
  | 0, _, _, _ => none
  | n + 1, i, file, block =>
    if i > blockSize then
      if file.length < blockSize then none
      else (contentBlocks n (i - blockSize) (file.drop blockSize) (file.take blockSize)).map
        (file.take blockSize :: ·)
    else if i > 0 then
      some [padTo blockSize
        ((file.take i.toNat ++ block.drop (file.take i.toNat).length).take i.toNat)]
    else some []

/-- `par_append_regfile`. -/
def parAppendRegfile (src : Source) (b realname : Bytes) : Option Stream := do
  let file ← src.content realname
  let i := asInt (thGetSize b)
  contentBlocks (i.toNat + 1) i file src.stack

/-- `par_append_file`. -/
def parAppendFile (src : Source) (t : Packing) (realname : Bytes)
    (savename : Option Bytes) : Option Packing := do
  let s ← src.lstat realname
  let h ← thSetFromStat src s .zero
  let name := savename.getD realname
  let h := thSetPath name h
  let devices := deviceTable s.dev t.devices
  let (h, devices) := match firstName s.dev s.ino devices with
    | some tiName => (thSetLink tiName { h with typeflag := lnktype }, devices)
    | none => (h, addName s.dev s.ino (name.take (4096 - 1)) devices)
  let h ←
    if isSym h.image then (src.readlink realname).map fun path => thSetLink (path.take (4096 - 1)) h
    else some h
  let b := (thFinish h).image
  let content ← if isReg b then parAppendRegfile src b realname else some []
  some ⟨t.blocks ++ b :: content, devices⟩

/-- `par_append_tree`, down to a depth of `n`. What is no directory is appended as it is. -/
def parAppendTree (src : Source) : ℕ → Packing → Bytes → Option Bytes → Option Packing
  | 0, _, _, _ => none
  | n + 1, t, realdir, savedir => do
    let t ← parAppendFile src t realdir savedir
    ((src.readdir realdir).getD []).foldlM (fun t dent =>
      if dent = [46] ∨ dent = dotDot then some t
      else do
        let realpath := (realdir ++ 47 :: dent).take (4096 - 1)
        let savepath := savedir.map fun savedir => (savedir ++ 47 :: dent).take (4096 - 1)
        let s ← src.lstat realpath
        if s.type = .dir then parAppendTree src n t realpath savepath
        else parAppendFile src t realpath savepath) t

/-- `par_append_eof`. -/
def parAppendEof (t : Packing) : Packing :=
  { t with blocks := t.blocks ++ List.replicate 2 (List.replicate blockSize 0) }

end Mavicona.Par
