import Mavicona.Par.Encoding
import Mavicona.Par.Pointers

/-!
# The blocks of a package

Reference: `par/append.c`, `par/block.c`, `par/extract.c`.

What `par_append_file` writes for one file, and that the reader takes just that: `th_read` the
header, and the loop over the content as many blocks as the writer has filled, for every size.
-/

namespace Mavicona.Par

open Bytes Path ChainedHash

/-! ## Content -/

section Content

variable {σ : Type} {write : Bytes → σ → Bool × σ} {act : σ → Bytes → σ}

theorem readContent_done (write : Bytes → σ → Bool × σ) {i : ℤ} (hi : i ≤ 0) (rest : Stream) (s : σ) :
    readContent write rest i s = (true, rest, s) := by
  cases rest with
  | nil => rw [readContent, decide_eq_true hi]
  | cons block rest => rw [readContent, if_pos hi]

/-- **The content is read from the blocks that were written, and nothing behind them.** A block
that is written to the output is appended by `act`. -/
theorem readContent_contentBlocks (hwrite : ∀ buf s, write buf s = (true, act s buf))
    (happend : ∀ s a b, act (act s a) b = act s (a ++ b)) (hnil : ∀ s, act s [] = s)
    (fuel n : ℕ) (file block : Bytes) (hfuel : n < blockSize * fuel) (hfile : n ≤ file.length) :
    ∃ blocks, contentBlocks fuel n file block = some blocks ∧
      ∀ rest s, readContent write (blocks ++ rest) n s = (true, rest, act s (file.take n)) := by
  have hsize : blockSize = 512 := rfl
  induction fuel generalizing n file block with
  | zero => exact absurd hfuel (Nat.not_lt_zero n)
  | succ fuel ih =>
    by_cases hbig : (n : ℤ) > blockSize
    · -- A full block, and the rest of the file.
      have hlong : ¬ file.length < blockSize := by omega
      obtain ⟨blocks, hblocks, hread⟩ :=
        ih (n - blockSize) (file.drop blockSize) (file.take blockSize)
        (by rw [Nat.mul_succ] at hfuel; omega) (by rw [List.length_drop]; omega)
      have hcast : (n : ℤ) - blockSize = (n - blockSize : ℕ) := by omega
      refine ⟨file.take blockSize :: blocks, ?_, fun rest s => ?_⟩
      · rw [contentBlocks, if_pos hbig, if_neg hlong, hcast, hblocks]
        rfl
      · have hlen : (file.take blockSize).length = blockSize := by
          rw [List.length_take]
          omega
        rw [List.cons_append, readContent, if_neg (by omega), if_neg fun hne => hne hlen,
          if_pos hbig, hwrite]
        dsimp only
        rw [if_pos rfl, hcast, hread, happend, List.take_of_length_le hlen.le]
        have hadd := List.take_add (l := file) (i := blockSize) (j := n - blockSize)
        rw [← hadd, Nat.add_sub_cancel' (by omega)]
    · by_cases hpos : (n : ℤ) > 0
      · -- The last block, filled up with zeros.
        have hlen : (file.take n).length = n := List.length_take_of_le hfile
        refine ⟨[padTo blockSize (file.take n)], ?_, fun rest s => ?_⟩
        · rw [contentBlocks, if_neg hbig, if_pos hpos, Int.toNat_natCast, hlen, List.take_left' hlen]
        · rw [List.singleton_append, readContent, if_neg (by omega),
            if_neg fun hne => hne (length_padTo _ _), if_neg hbig, Int.toNat_natCast, hwrite]
          dsimp only
          rw [if_pos rfl, readContent_done write (by omega), padTo, List.take_take,
            Nat.min_eq_left (by omega), List.take_left' hlen]
      · obtain rfl : n = 0 := by omega
        refine ⟨[], ?_, fun rest s => ?_⟩
        · rw [contentBlocks, if_neg hbig, if_neg hpos]
        · rw [List.nil_append, readContent_done write (by omega), List.take_zero, hnil]

/-- The blocks of the first `n` bytes of a file. -/
def dataBlocks (n : ℕ) (file block : Bytes) : Stream := (contentBlocks (n + 1) n file block).getD []

theorem contentBlocks_eq {n : ℕ} {file : Bytes} (hfile : n ≤ file.length) (block : Bytes) :
    contentBlocks (n + 1) n file block = some (dataBlocks n file block) := by
  have hskip : ∀ (buf : Bytes) (s : Unit), (fun (_ : Bytes) s => (true, s)) buf s =
      (true, (fun s (_ : Bytes) => s) s buf) := fun _ _ => rfl
  obtain ⟨blocks, hblocks, -⟩ :=
    readContent_contentBlocks hskip (fun _ _ _ => rfl) (fun _ => rfl) (n + 1) n file
    block (by rw [blockSize]; omega) hfile
  rw [dataBlocks, hblocks]
  rfl

theorem readContent_dataBlocks (hwrite : ∀ buf s, write buf s = (true, act s buf))
    (happend : ∀ s a b, act (act s a) b = act s (a ++ b)) (hnil : ∀ s, act s [] = s)
    {n : ℕ} {file : Bytes} (hfile : n ≤ file.length) (block : Bytes) (rest : Stream) (s : σ) :
    readContent write (dataBlocks n file block ++ rest) n s = (true, rest, act s (file.take n)) := by
  obtain ⟨blocks, hblocks, hread⟩ :=
    readContent_contentBlocks hwrite happend hnil (n + 1) n file block
    (by rw [blockSize]; omega) hfile
  rw [dataBlocks, hblocks]
  exact hread rest s

end Content

/-! ## The inodes that were seen -/

section Inodes

variable {dev ino d i : ℕ} {devices : Table TarDev}

theorem getkey_deviceTable (dev d : ℕ) (devices : Table TarDev) :
    getkey devHash TarDev.dev d (deviceTable dev devices) = (getkey devHash TarDev.dev d devices).or
      (if d = dev then some ⟨dev, ChainedHash.empty⟩ else none) := by
  rw [deviceTable]
  cases hfound : getkey devHash TarDev.dev dev devices with
  | some td =>
    dsimp only
    by_cases hd : d = dev
    · rw [hd, hfound]
      rfl
    · rw [if_neg hd, Option.or_none]
  | none =>
    dsimp only
    rw [getkey_add]

/-- A new device has no inodes. -/
theorem firstName_deviceTable (dev d i : ℕ) (devices : Table TarDev) :
    firstName d i (deviceTable dev devices) = firstName d i devices := by
  rw [firstName, firstName, getkey_deviceTable]
  cases getkey devHash TarDev.dev d devices with
  | some td => rfl
  | none =>
    by_cases hd : d = dev
    · rw [if_pos hd]
      rfl
    · rw [if_neg hd]
      rfl

/-- The name of a new inode is kept, and those of the others stay. -/
theorem firstName_addName (name : Bytes) (h : firstName dev ino devices = none) :
    firstName d i (addName dev ino name (deviceTable dev devices)) =
      if d = dev ∧ i = ino then some name else firstName d i devices := by
  have hnew : firstName dev ino (deviceTable dev devices) = none :=
    (firstName_deviceTable _ _ _ _).trans h
  rw [← firstName_deviceTable dev d i devices]
  rw [firstName] at hnew ⊢
  rw [addName, getkey_modify (f := TarDev.addInode ino name) (fun _ => rfl), firstName]
  by_cases hd : d = dev
  · subst hd
    rw [if_pos rfl]
    -- The device is in the table now.
    obtain ⟨td, htd⟩ : ∃ td, getkey devHash TarDev.dev d (deviceTable d devices) = some td := by
      rw [getkey_deviceTable, if_pos rfl]
      cases getkey devHash TarDev.dev d devices with
      | some td => exact ⟨td, rfl⟩
      | none => exact ⟨_, rfl⟩
    rw [htd] at hnew ⊢
    simp only [Option.map_some, Option.bind_eq_bind, Option.bind_some, true_and] at hnew ⊢
    have hnone : getkey inoHash TarIno.ino ino td.inodes = none := by
      cases hti : getkey inoHash TarIno.ino ino td.inodes with
      | none => rfl
      | some ti => rw [hti] at hnew; exact absurd hnew (Option.some_ne_none _)
    rw [TarDev.addInode, getkey_add]
    by_cases hi : i = ino
    · rw [if_pos hi, if_pos hi, hi, hnone]
      rfl
    · rw [if_neg hi, if_neg hi, Option.or_none]
  · rw [if_neg hd, if_neg fun h => hd h.1]

end Inodes

/-! ## Reading the headers -/

section Headers

variable {h : FileHeader} {text : Bytes} {m k n : ℕ} {t : PAR} (malloc : List ℕ → ℕ → Option ℕ)

/-- **`th_read` takes a header that was written.** -/
theorem thRead_thFinish (rest : Stream) (hd : Describes h text m k n) (hlink : h.typeflag ≠ 75)
    (hname : h.typeflag ≠ 76)
    (hnull : NullPointers t.thBuf) (hstream : t.stream = (thFinish h).image :: rest) :
    thRead malloc false t = some (0, some ⟨rest, (thFinish h).image, t.heap⟩) := by
  have hinternal : thReadInternal false 0 t.stream (List.replicate blockSize 0) =
      (((blockSize : ℕ) : ℤ), rest, (thFinish h).image) := by
    rw [hstream, thReadInternal, if_neg fun hne => hne (length_image _),
      if_neg hd.thFinish.head?_name, if_pos (headerOk_thFinish h)]
  have hpass : ∀ (isLong : Bytes → Bool) (setPointer : ℕ → Bytes → Bytes) (t : PAR),
      isLong t.thBuf = false → thReadLong malloc false isLong setPointer t = some t := by
    intro isLong setPointer t hlong
    rw [thReadLong, hlong]
    rfl
  have hflag : typeflag (thFinish h).image = h.typeflag := typeflag_image _
  have hsize : ((blockSize : ℕ) : ℤ) ≠ 0 := by decide
  rw [thRead_of_nullPointers malloc false hnull, thReadHeader, hinternal]
  dsimp only
  rw [if_neg hsize, if_neg fun hne => hne rfl, hpass isLonglink, Option.bind_some, hpass isLongname]
  · rw [isLongname, hflag]
    exact decide_eq_false hname
  · rw [isLonglink, hflag]
    exact decide_eq_false hlink

/-- The two blocks at the end are the end. -/
theorem thRead_eof (hnull : NullPointers t.thBuf)
    (hstream : t.stream = List.replicate 2 (List.replicate blockSize 0)) :
    thRead malloc false t = some (1, none) := by
  have hzero : (name (List.replicate blockSize 0)).head? = some 0 := by
    rw [name, field, List.drop_zero, List.take_replicate]
    rfl
  have hlen : (List.replicate blockSize (0 : UInt8)).length = blockSize := List.length_replicate
  have hinternal : (thReadInternal false 0 t.stream (List.replicate blockSize 0)).1 = 0 := by
    rw [hstream, List.replicate_succ, thReadInternal, if_neg fun hne => hne hlen, if_pos hzero,
      if_neg (by decide),
      List.replicate_one, thReadInternal, if_neg fun hne => hne hlen, if_pos hzero,
      if_pos (by decide)]
  rw [thRead_of_nullPointers malloc false hnull, thReadHeader]
  generalize thReadInternal false 0 t.stream (List.replicate blockSize 0) = r at hinternal ⊢
  obtain ⟨i, u, b⟩ := r
  exact congrArg some (if_pos hinternal)

end Headers

/-! ## A file of a package -/

/-- A file that is packed: its name in the file system and in the package, what `lstat` says
about it, and its content. -/
structure Item where
  realname : Bytes
  savename : Bytes
  stat : Stat
  file : Bytes

namespace Item

variable (src : Source) (f : Item)

/-- The file is there, a regular file or a directory. -/
structure Exists : Prop where
  lstat : src.lstat f.realname = some f.stat
  isFile : f.stat.IsFile
  content : f.stat.type = .reg → src.content f.realname = some f.file ∧ f.file.length = f.stat.size

/-- The name is one that a package can keep. -/
structure Named : Prop where
  ne_nil : f.savename ≠ []
  zero_notMem : 0 ∉ f.savename
  length_le : f.savename.length ≤ 98
  safe : Safe f.savename
  last : f.stat.type = .dir → f.savename.getLast? ≠ some 47

/-- The header of the file. -/
def header : FileHeader := fileHeader src f.savename f.stat

/-- The blocks of its content. -/
def data : Stream := if f.stat.type = .reg then dataBlocks (entrySize f.stat) f.file src.stack else []

/-- What is written for the file if its inode is new. -/
def blocks : Stream := (thFinish (f.header src)).image :: f.data src

variable {src f}

theorem describes (hs : f.Exists src) (hn : f.Named) :
    Describes (f.header src) (entryName f.stat f.savename) f.stat.mode (written f.stat.mtime)
    (entrySize f.stat) :=
  describes_fileHeader src hs.isFile hn.ne_nil hn.zero_notMem hn.length_le hn.last

theorem typeflag_header (hs : f.Exists src) (hn : f.Named) :
    (f.header src).typeflag = if f.stat.type = .reg then regtype else dirtype := by
  have htype := statHeader_typeflag src hs.isFile
  rw [header, fileHeader_eq src hs.isFile (hn.length_le.trans (by decide)) hn.last]
  generalize statHeader src f.stat = h at htype ⊢
  exact htype

theorem written_le (n : ℕ) : written n ≤ n := by
  rw [written, asInt, toInt]
  split_ifs <;> omega

theorem entrySize_le (hs : f.Exists src) (hreg : f.stat.type = .reg) :
    entrySize f.stat ≤ f.file.length := by
  rw [entrySize, if_pos hreg, (hs.content hreg).2]
  exact written_le _

/-- What is read of the content of a regular file. -/
theorem parAppendRegfile_eq (hs : f.Exists src) (hn : f.Named) (hreg : f.stat.type = .reg) :
    parAppendRegfile src (thFinish (f.header src)).image f.realname = some (f.data src) := by
  have hd := (describes hs hn).thFinish
  have hlt := hd.size_lt
  have hint : asInt (entrySize f.stat) = entrySize f.stat := asInt_of_lt (by omega) (by omega)
  rw [parAppendRegfile, (hs.content hreg).1, hd.thGetSize_eq]
  change contentBlocks ((asInt (entrySize f.stat)).toNat + 1) (asInt (entrySize f.stat))
    f.file src.stack = _
  rw [hint, Int.toNat_natCast, contentBlocks_eq (entrySize_le hs hreg), data, if_pos hreg]

theorem isReg_header (hs : f.Exists src) (hn : f.Named) :
    isReg (thFinish (f.header src)).image = decide (f.stat.type = .reg) :=
  isReg_image hs.isFile (describes hs hn).thFinish.modeBits_eq (typeflag_header hs hn)

theorem isDir_header (hs : f.Exists src) (hn : f.Named) :
    isDir (thFinish (f.header src)).image = decide (f.stat.type = .dir) :=
  isDir_image hs.isFile (describes hs hn).thFinish.modeBits_eq (typeflag_header hs hn)

theorem typeflag_ne (hs : f.Exists src) (hn : f.Named) {c : UInt8} (hreg : c ≠ regtype)
    (hdir : c ≠ dirtype) :
    (f.header src).typeflag ≠ c := by
  rw [typeflag_header hs hn]
  split_ifs
  · exact hreg.symm
  · exact hdir.symm

theorem take_savename (hn : f.Named) : f.savename.take (4096 - 1) = f.savename :=
  List.take_of_length_le (hn.length_le.trans (by decide))

/-- **What is written for a file whose inode is new.** -/
theorem parAppendFile_new (hs : f.Exists src) (hn : f.Named) {t : Packing}
    (hnew : firstName f.stat.dev f.stat.ino t.devices = none) :
    parAppendFile src t f.realname (some f.savename) = some ⟨t.blocks ++ f.blocks src,
      addName f.stat.dev f.stat.ino f.savename (deviceTable f.stat.dev t.devices)⟩ := by
  have hsym : isSym (f.header src).image = false :=
    isSym_image hs.isFile (describes hs hn).modeBits_eq (typeflag_ne hs hn (by decide) (by decide))
  have hheader : thSetPath f.savename (statHeader src f.stat) = f.header src := rfl
  rw [parAppendFile, hs.lstat]
  simp only [Option.bind_eq_bind, Option.bind_some, thSetFromStat_eq src hs.isFile, Option.getD_some,
    firstName_deviceTable, hnew, hheader, hsym, Bool.false_eq_true, if_false, take_savename hn,
    isReg_header hs hn]
  by_cases hreg : f.stat.type = .reg
  · rw [if_pos (decide_eq_true hreg), parAppendRegfile_eq hs hn hreg]
    rfl
  · rw [if_neg fun h => hreg (of_decide_eq_true h), blocks, data, if_neg hreg]

/-! ### Links -/

/-- The header of a file whose inode has a name in the package already. -/
def linkHeader (src : Source) (f : Item) (target : Bytes) : FileHeader :=
  thSetLink target { f.header src with typeflag := lnktype }

theorem describes_link (hs : f.Exists src) (hn : f.Named) (target : Bytes) :
    Describes (linkHeader src f target) (entryName f.stat f.savename) f.stat.mode
    (written f.stat.mtime)
      (entrySize f.stat) := by
  have hd := describes hs hn
  rw [linkHeader]
  generalize f.header src = h at hd ⊢
  exact ⟨hd.text_ne_nil, hd.zero_notMem, hd.length_lt, hd.name, hd.mode, hd.mode_lt, hd.mtime,
    hd.mtime_lt, hd.size, hd.size_lt, hd.namePrefix, hd.pointers⟩

/-- The target of a link is read as it was written. -/
theorem cstr_linkname (src : Source) (f : Item) {target : Bytes} (hzero : 0 ∉ target)
    (hlen : target.length < 100) :
    cstr (linkname (thFinish (linkHeader src f target)).image) = target := by
  have hbytes : (thFinish (linkHeader src f target)).linkname.bytes =
      ((f.header src).linkname.copy (snprintf 100 target)).bytes := rfl
  have hcopy : ∃ rest, ((f.header src).linkname.copy (snprintf 100 target)).bytes = target ++ 0 ::
    rest := by
    generalize (f.header src).linkname = a
    refine ⟨(a.bytes.drop (target.length + 1)).take (100 - (target.length + 1)), ?_⟩
    have hprint : snprintf 100 target = target ++ [0] := by
      rw [snprintf, List.take_of_length_le (Nat.le_of_lt_succ hlen)]
    have hprintLen : (target ++ [(0 : UInt8)]).length = target.length +
      1 := by rw [List.length_append]; rfl
    change (snprintf 100 target ++ a.bytes.drop (snprintf 100 target).length).take 100 = _
    rw [hprint, List.take_append, hprintLen, List.take_of_length_le (by omega), List.append_assoc]
    rfl
  obtain ⟨rest, hrest⟩ := hcopy
  rw [linkname_image, hbytes, hrest, List.append_assoc, List.cons_append, cstr_append_zero hzero]

/-- **What is written for another name of an inode: a link to the first one, without content.** -/
theorem parAppendFile_link (hs : f.Exists src) (hn : f.Named) {t : Packing} {target : Bytes}
    (hold : firstName f.stat.dev f.stat.ino t.devices = some target) :
    parAppendFile src t f.realname (some f.savename) = some
      ⟨t.blocks ++ [(thFinish (linkHeader src f target)).image],
        deviceTable f.stat.dev t.devices⟩ := by
  have hd := describes_link hs hn target
  have hsym : isSym (linkHeader src f target).image = false :=
    isSym_image hs.isFile hd.modeBits_eq (by decide : lnktype ≠ symtype)
  have hreg : isReg (thFinish (linkHeader src f target)).image = false := by
    rw [isReg, typeflag_image]
    change (decide (lnktype = regtype) || (_ && decide (lnktype ≠ lnktype))) = false
    simp [show lnktype ≠ regtype by decide]
  have hheader : thSetLink target { thSetPath f.savename (statHeader src f.stat) with typeflag := lnktype } =
    linkHeader src f target := rfl
  rw [parAppendFile, hs.lstat]
  simp only [Option.bind_eq_bind, Option.bind_some, thSetFromStat_eq src hs.isFile, Option.getD_some,
    firstName_deviceTable, hold, hheader, hsym, Bool.false_eq_true, if_false, hreg]

end Item

end Mavicona.Par
