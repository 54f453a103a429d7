import Mavicona.Common.Disk
import Mavicona.Par.RoundTrip

/-!
# Packages

Reference: `packer/package.c`, `par/handle.c`.

`package_create` packs the files of a list, and `package_extract` unpacks them to a directory. Both
are run here on disks: the files that are packed are those of a `Tree`, and the calls of the
extraction change a disk.
-/

namespace Mavicona.Packer

open Bytes Path Par Disk

/-! ## The functions -/

/-- A package: the magic number of its header, and the blocks behind it. -/
structure Package where
  magic : Bytes
  blocks : Stream

/-- `PACKAGE_MAGIC`. -/
def packageMagic : Bytes := ascii "$MAVJO\x7d"

/-- The size of the buffer of `package_create`, `MAXPATHLEN` as `compat.h` defines it. -/
def bufLen : ℕ := 255

/-- The name under which a file of the list is looked for. -/
def realName (rootdir : Option Bytes) (pathname : Bytes) : Bytes :=
  match rootdir with
  | some rootdir => (if pathname.head? ≠ some 47 then rootdir ++ 47 :: pathname else pathname).take
      (bufLen - 1)
  | none => pathname.take (bufLen - 1)

/-- The loop of `package_create`, over directories down to a depth of `n`. -/
def appendList (src : Source) (n : ℕ) (rootdir : Option Bytes) : List Bytes → Packing → Option Packing
  | [], t => some t
  | pathname :: list, t =>
    (parAppendTree src n t (realName rootdir pathname) (some pathname)).bind
    (appendList src n rootdir list)

/-- `package_create`. -/
def packageCreate (src : Source) (n : ℕ) (rootdir : Option Bytes)
    (list : List Bytes) : Option Package :=
  (appendList src n rootdir list parCreate).map fun t => ⟨packageMagic, (parAppendEof t).blocks⟩

/-- `package_extract`: whether it returns 0, and what it has made. -/
def packageExtract {σ : Type} (sys : System σ) (cuts : Bool) (memory : ℕ → Bytes)
    (malloc : List ℕ → ℕ → Option ℕ)
    (rootdir : Option Bytes) (p : Package) (s : σ) : Bool × σ :=
  if p.magic ≠ packageMagic then (false, s)
  else
    let (ok, u) := parExtractAll sys cuts memory malloc rootdir
      ⟨parOpen p.blocks, ChainedHash.empty, s⟩
    (ok, u.fs)

/-! ## The machine -/

/-- The machine that packs and unpacks: its users, its C library and what its memory holds. -/
structure Host where
  superuser : Bool
  getpwnam : Bytes → Option ℕ
  getgrnam : Bytes → Option ℕ
  getpwuid : ℕ → Option Bytes
  getgrgid : ℕ → Option Bytes
  stack : Bytes
  /-- `dirname` cuts the name it is given. -/
  cuts : Bool
  memory : ℕ → Bytes
  malloc : List ℕ → ℕ → Option ℕ

/-- The value of `errno` for a call that fails. -/
def errno : Fault → Errno
  | .exists => .eexist
  | .missing => .enoent

/-- A call on a disk. -/
def call (r : Option Fault × Disk) : Option Errno × Disk := (r.1.map errno, r.2)

/-- The calls on a disk, where nothing fails for want of space or of permissions. There are no
symbolic links. -/
def Host.system (host : Host) : System Disk where
  superuser := host.superuser
  getpwnam := host.getpwnam
  getgrnam := host.getgrnam
  mkdir name _ d := call (d.mkdir name)
  chown name _ _ d := call (d.touch name)
  utime name _ d := call (d.touch name)
  chmod name _ d := call (d.touch name)
  create name d := d.create name
  write i bytes d := (none, d.append i bytes)
  close _ d := (none, d)
  link target name d := call (d.link target name)
  symlink _ _ d := (some .other, d)
  unlink name d := call (d.unlink name)

/-! ## The files -/

/-- The files that are packed: a disk, and what `lstat` says about its inodes. An inode has one
content, and another number than the other inodes of its device. -/
structure Tree where
  disk : Disk
  stat : ℕ → Stat
  type_eq : ∀ i, (stat i).type = .reg
  size_eq : ∀ i, (stat i).size = (disk.data i).length
  injective : ∀ i j, (stat i).dev = (stat j).dev → (stat i).ino = (stat j).ino → i = j

/-- The inode a name leads to. -/
def Tree.inode (T : Tree) (name : Bytes) : Option ℕ :=
  match T.disk.node (place name) with
  | some (.file i) => if IsLeaf name then some i else none
  | _ => none

/-- The regular files of a tree, as they are packed. -/
def Tree.source (T : Tree) (host : Host) : Source where
  lstat name := (T.inode name).map T.stat
  readlink _ := none
  content name := (T.inode name).map T.disk.data
  readdir _ := none
  getpwuid := host.getpwuid
  getgrgid := host.getgrgid
  stack := host.stack

/-- A regular file of a tree with a name that can be listed. -/
structure Listed (T : Tree) where
  name : Bytes
  ino : ℕ
  inode_eq : T.inode name = some ino
  zero_notMem : 0 ∉ name
  length_le : name.length ≤ 98
  safe : Safe name

/-- An empty directory. -/
structure EmptyDir where
  dir : Bytes
  disk : Disk
  ne_nil : dir ≠ []
  isDir : ∀ p, p <+: place dir → disk.IsDir p
  empty : ∀ p, p ≠ [] → p.head? ≠ some [47] → disk.node (place dir ++ p) = none

end Mavicona.Packer
