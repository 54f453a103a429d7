import Mavicona.Par.Archive
import Mavicona.Par.Extract

/-!
# A package is read as it was written

Reference: `par/append.c`, `par/block.c`, `par/extract.c`, `par/testcase.sh`.

Files are written one after the other, and the package is read entry by entry. After a regular file
the caller extracts the content or skips it. Both leave the package at the next header, so every
choice gives the same entries.
-/

namespace Mavicona.Par

open Bytes Path ChainedHash

/-! ## Reading entries -/

/-- A system on which every call succeeds, with the content of the last file that was opened. -/
def recorder : System Bytes where
  superuser := false
  getpwnam _ := none
  getgrnam _ := none
  mkdir _ _ s := (none, s)
  chown _ _ _ s := (none, s)
  utime _ _ s := (none, s)
  chmod _ _ s := (none, s)
  create _ _ := (some 0, [])
  write _ buf s := (none, s ++ buf)
  close _ s := (none, s)
  link _ _ s := (none, s)
  symlink _ _ s := (none, s)
  unlink _ s := (none, s)

/-- What a header says, and the content if it was extracted. -/
structure Entry where
  path : Bytes
  isReg : Bool
  isDir : Bool
  mode : ℕ
  mtime : ℤ
  size : ℕ
  content : Option Bytes
  deriving DecidableEq

/-- The entry of a header. -/
def entryOf (memory : ℕ → Bytes) (b : Bytes) (content : Option Bytes) : Entry :=
  ⟨thGetPathname memory b, isReg b, isDir b, thGetMode b, thGetMtime b, thGetSize b, content⟩

/-- Call `th_read` up to `n` times, and `par_extract_regfile` or `par_skip_regfile` after a
regular file, as `extract` says for its number: the entries, and the last value that was
returned. -/
def readEntries (memory : ℕ → Bytes) (malloc : List ℕ → ℕ → Option ℕ) (extract : ℕ → Bool) :
    ℕ → ℕ → PAR → List Entry × Option ℤ
  | 0, _, _ => ([], some 0)
  | n + 1, k, t =>
    match thRead malloc false t with
    | none => ([], none)
    | some (i, none) => ([], some i)
    | some (_, some t) =>
      let (ok, t', content) :=
        if !isReg t.thBuf then (true, t, none)
        else if extract k then
          let (ok, t', s) := parExtractRegfile recorder t (thGetPathname memory t.thBuf) []
          (ok, t', some s)
        else ((parSkipRegfile t).1, (parSkipRegfile t).2, none)
      let r := if ok then readEntries memory malloc extract n (k + 1) t' else ([], some (-1))
      (entryOf memory t.thBuf content :: r.1, r.2)

/-- `par_append_file` on one file after the other. -/
def appendAll (src : Source) : List Item → Packing → Option Packing
  | [], t => some t
  | f :: fs, t => (parAppendFile src t f.realname (some f.savename)).bind (appendAll src fs)

/-- A handle on a new package. -/
def parCreate : Packing := ⟨[], ChainedHash.empty⟩

/-- The entry of a file. -/
def Item.entry (f : Item) (extracted : Bool) : Entry :=
  ⟨entryName f.stat f.savename, decide (f.stat.type = .reg), decide (f.stat.type = .dir), f.stat.mode,
    f.stat.mtime, if f.stat.type = .reg then f.stat.size else 0,
    if f.stat.type = .reg ∧ extracted then some f.file else none⟩

/-- The entries of the files, from number `k` on. -/
def entriesFrom (extract : ℕ → Bool) : ℕ → List Item → List Entry
  | _, [] => []
  | k, f :: fs => f.entry (extract k) :: entriesFrom extract (k + 1) fs

/-! ## Writing -/

section Append

variable {src : Source}

/-- **Files with inodes of their own are written one behind the other.** -/
theorem appendAll_new {fs : List Item} (hs : ∀ f ∈ fs, f.Exists src) (hn : ∀ f ∈ fs, f.Named)
    (hdistinct : (fs.map fun f => (f.stat.dev, f.stat.ino)).Nodup) {t : Packing}
    (hnew : ∀ f ∈ fs, firstName f.stat.dev f.stat.ino t.devices = none) :
    ∃ devices, appendAll src fs t = some ⟨t.blocks ++ fs.flatMap (Item.blocks src), devices⟩ := by
  induction fs generalizing t with
  | nil => exact ⟨t.devices, by rw [appendAll, List.flatMap_nil, List.append_nil]⟩
  | cons f fs ih =>
    rw [List.forall_mem_cons] at hs hn hnew
    rw [List.map_cons, List.nodup_cons] at hdistinct
    rw [appendAll, Item.parAppendFile_new hs.1 hn.1 hnew.1, Option.bind_some]
    obtain ⟨devices, happend⟩ := ih hs.2 hn.2 hdistinct.2 (t := ⟨t.blocks ++ f.blocks src,
      addName f.stat.dev f.stat.ino f.savename (deviceTable f.stat.dev t.devices)⟩) (by
        intro g hg
        rw [firstName_addName _ hnew.1, if_neg, hnew.2 g hg]
        rintro ⟨hdev, hino⟩
        apply hdistinct.1
        rw [List.mem_map]
        exact ⟨g, hg, by rw [hdev, hino]⟩)
    refine ⟨devices, ?_⟩
    rw [happend, List.flatMap_cons, List.append_assoc]

end Append

/-! ## Reading -/

theorem saferNameSuffix_self {s : Bytes} (hne : s ≠ []) (hs : Safe s) : saferNameSuffix s = s := by
  have hdrop : s.dropWhile (· = 47) = s := by
    obtain ⟨b, s, rfl⟩ := List.exists_cons_of_ne_nil hne
    refine List.dropWhile_cons_of_neg fun hb => hs.1 ?_
    exact congrArg some (of_decide_eq_true hb)
  have hkept : kept (components s) = components s :=
    kept_of_notMem fun hmem => hs.2 (List.dropLast_subset _ hmem)
  rw [saferNameSuffix_eq, hdrop, hkept, join_components, if_neg hne]

theorem length_trim_le (s : Bytes) :
    (trim s).length ≤ s.length := (List.rdropWhile_prefix _ s).length_le

theorem length_dirname_le (s : Bytes) : (dirname s).length ≤ s.length + 1 := by
  have hcut : (trim ((trim s).rdropWhile (· ≠ 47))).length ≤ s.length :=
    (length_trim_le _).trans ((List.rdropWhile_prefix _ _).length_le.trans (length_trim_le s))
  rw [dirname]
  split_ifs
  all_goals first | exact Nat.le_add_left 1 _ | exact Nat.le_succ_of_le hcut

theorem mkdirhier_recorder {path : Bytes} (h : path.length ≤ hierLen) (s : Bytes) :
    mkdirhier recorder path s = (true, s) := by
  have hparts : ∀ (parts : List Bytes) (dst : Bytes), mkdirParts recorder parts dst s =
    (true, s) := by
    intro parts
    induction parts with
    | nil => exact fun _ => rfl
    | cons p parts ih =>
      intro dst
      rw [mkdirParts]
      split_ifs
      all_goals exact ih _
  rw [mkdirhier, if_neg (not_lt.mpr h), hparts]

theorem toSSize_of_lt {n : ℕ} (h : n < 2 ^ 31) : toSSize n = n := if_pos (h.trans (by decide))

section Read

variable {src : Source} {f : Item} {rest : Stream}

theorem safe_entryName (s : Stat) {name : Bytes} (hne : name ≠ []) (hsafe : Safe name) :
    Safe (entryName s name) := by
  rw [entryName]
  split_ifs
  · refine ⟨?_, ?_⟩
    · rw [List.head?_append_of_ne_nil _ hne]
      exact hsafe.1
    · rw [components_append]
      intro hmem
      rcases List.mem_append.mp hmem with hmem | hmem
      · exact hsafe.2 hmem
      · exact absurd hmem (by decide)
  · exact hsafe

theorem Item.pathname_eq (hs : f.Exists src) (hn : f.Named) (memory : ℕ → Bytes) :
    thGetPathname memory (thFinish (f.header src)).image = entryName f.stat f.savename := by
  have hd := (Item.describes hs hn).thFinish
  rw [hd.thGetPathname_eq, saferNameSuffix_self hd.text_ne_nil (safe_entryName _ hn.ne_nil hn.safe)]

theorem Item.thGetMode_eq (hs : f.Exists src) (hn : f.Named) :
    thGetMode (thFinish (f.header src)).image = f.stat.mode := by
  have hfmt : fmt f.stat.mode ≠ 0 := by
    rw [fmt_mode]
    rcases hs.isFile with htype | htype
    · rw [htype]; decide
    · rw [htype]; decide
  rw [thGetMode, (Item.describes hs hn).thFinish.modeBits_eq, if_pos hfmt]

/-- The header of a file gives its entry. -/
theorem Item.entryOf_eq (hs : f.Exists src) (hn : f.Named)
    (hmtime : 0 ≤ f.stat.mtime ∧ f.stat.mtime < 2 ^ 31)
    (hsize : f.stat.size < 2 ^ 31) (memory : ℕ → Bytes) (extracted : Bool) :
    entryOf memory (thFinish (f.header src)).image
      (if f.stat.type = .reg ∧ extracted then some f.file else none) = f.entry extracted := by
  have hd := (Item.describes hs hn).thFinish
  have hentry : entrySize f.stat = if f.stat.type = .reg then f.stat.size else 0 := by
    have := written_of_lt (i := f.stat.size) (by omega) (by omega)
    rw [entrySize]
    split_ifs <;> omega
  rw [entryOf, Item.pathname_eq hs hn, Item.isReg_header hs hn, Item.isDir_header hs hn,
    Item.thGetMode_eq hs hn,
    hd.thGetMtime_eq, written_of_lt hmtime.1 hmtime.2, hd.thGetSize_eq, hentry, Item.entry]

/-- The content of a file, read with any `write`. -/
theorem Item.readContent_data (hs : f.Exists src) (hn : f.Named) (hreg : f.stat.type = .reg)
    {σ : Type}
    (write : Bytes → σ → Bool × σ) (act : σ → Bytes → σ)
    (hwrite : ∀ buf s, write buf s = (true, act s buf))
    (happend : ∀ s a b, act (act s a) b = act s (a ++ b)) (hnil : ∀ s, act s [] = s) (rest : Stream)
    (s : σ) : readContent write (f.data src ++ rest)
    (toSSize (thGetSize (thFinish (f.header src)).image)) s =
      (true, rest, act s (f.file.take (entrySize f.stat))) := by
  have hd := (Item.describes hs hn).thFinish
  rw [hd.thGetSize_eq, toSSize_of_lt hd.size_lt, Item.data, if_pos hreg,
    readContent_dataBlocks hwrite happend hnil (Item.entrySize_le hs hreg)]

theorem Item.take_file (hs : f.Exists src) (hreg : f.stat.type = .reg)
    (hsize : f.stat.size < 2 ^ 31) :
    f.file.take (entrySize f.stat) = f.file := by
  have hwritten := written_of_lt (i := f.stat.size) (by omega) (by omega)
  refine List.take_of_length_le ?_
  rw [(hs.content hreg).2, entrySize, if_pos hreg]
  omega

/-- One call of `th_read`, and the content of a regular file taken either way. -/
theorem readEntries_step (hs : f.Exists src) (hn : f.Named)
    (hmtime : 0 ≤ f.stat.mtime ∧ f.stat.mtime < 2 ^ 31)
    (hsize : f.stat.size < 2 ^ 31) (memory : ℕ → Bytes) (malloc : List ℕ → ℕ → Option ℕ)
    (extract : ℕ → Bool)
    (n k : ℕ) {t : PAR} (hnull : NullPointers t.thBuf) (hstream : t.stream = f.blocks src ++ rest) :
    readEntries memory malloc extract (n + 1) k t =
      let r := readEntries memory malloc extract n (k + 1) ⟨rest, (thFinish (f.header src)).image,
        t.heap⟩
      (f.entry (extract k) :: r.1, r.2) := by
  have hread := thRead_thFinish malloc (f.data src ++ rest) (Item.describes hs hn)
    (Item.typeflag_ne hs hn (by decide) (by decide))
    (Item.typeflag_ne hs hn (by decide) (by decide)) hnull hstream
  have hentry := Item.entryOf_eq hs hn hmtime hsize memory (extract k)
  have hisReg := Item.isReg_header hs hn
  rw [readEntries, hread]
  dsimp only
  by_cases hreg : f.stat.type = .reg
  · rw [decide_eq_true hreg] at hisReg
    by_cases hextract : extract k = true
    · -- The content is written to the recorder.
      have hcontent : readContent (fun buf s => succeeded (recorder.write 0 buf s))
        (f.data src ++ rest)
          (toSSize (thGetSize (thFinish (f.header src)).image)) [] = (true, rest, f.file) := by
        have hdata := Item.readContent_data hs hn hreg
          (fun buf s => succeeded (recorder.write 0 buf s))
          (fun s buf => s ++ buf) (fun _ _ => rfl) (fun s a b => List.append_assoc s a b)
          List.append_nil rest []
        rwa [Item.take_file hs hreg hsize] at hdata
      have hdir : (dirname (entryName f.stat f.savename)).length ≤ hierLen := by
        have hlt := (Item.describes hs hn).length_lt
        have hle := length_dirname_le (entryName f.stat f.savename)
        rw [hierLen]
        omega
      have hfile : parExtractRegfile recorder ⟨f.data src ++ rest, (thFinish (f.header src)).image,
        t.heap⟩
          (entryName f.stat f.savename) [] =
            (true, ⟨rest, (thFinish (f.header src)).image, t.heap⟩, f.file) := by
        rw [parExtractRegfile, hisReg, if_neg (by decide), mkdirhier_recorder hdir]
        dsimp only [recorder] at hcontent ⊢
        rw [if_neg (by decide), hcontent]
        rfl
      rw [hisReg, if_neg (by decide), if_pos hextract, Item.pathname_eq hs hn, hfile]
      dsimp only
      rw [if_pos ⟨hreg, hextract⟩] at hentry
      rw [if_pos rfl, hentry]
    · have hskip : parSkipRegfile ⟨f.data src ++ rest, (thFinish (f.header src)).image, t.heap⟩ =
          (true, ⟨rest, (thFinish (f.header src)).image, t.heap⟩) := by
        have hdata := Item.readContent_data hs hn hreg (fun _ s => (true, s)) (fun s _ => s)
          (fun _ _ => rfl)
          (fun _ _ _ => rfl) (fun _ => rfl) rest ()
        rw [parSkipRegfile, hisReg, if_neg (by decide), hdata]
      rw [hisReg, if_neg (by decide), if_neg hextract, hskip]
      dsimp only
      rw [if_neg fun h => hextract h.2] at hentry
      rw [if_pos rfl, hentry]
  · rw [decide_eq_false hreg] at hisReg
    rw [if_neg fun h => hreg h.1] at hentry
    rw [hisReg, Bool.not_false, if_pos rfl]
    dsimp only
    rw [if_pos rfl, hentry, Item.data, if_neg hreg, List.nil_append]

end Read

/-! ## The theorem -/

section RoundTrip

variable {src : Source}

/-- The entries of the files, up to the end of the package. -/
theorem readEntries_blocks (memory : ℕ → Bytes) (malloc : List ℕ → ℕ → Option ℕ) (extract : ℕ → Bool)
    {fs : List Item} (hs : ∀ f ∈ fs, f.Exists src) (hn : ∀ f ∈ fs, f.Named)
    (hmtime : ∀ f ∈ fs, 0 ≤ f.stat.mtime ∧ f.stat.mtime < 2 ^ 31)
    (hsize : ∀ f ∈ fs, f.stat.size < 2 ^ 31)
    (k : ℕ) {t : PAR} (hnull : NullPointers t.thBuf)
    (hstream : t.stream = fs.flatMap (Item.blocks src) ++ List.replicate 2
      (List.replicate blockSize 0)) :
    readEntries memory malloc extract (fs.length + 1) k t = (entriesFrom extract k fs, some 1) := by
  induction fs generalizing k t with
  | nil => rw [readEntries, thRead_eof malloc hnull hstream, entriesFrom]
  | cons f fs ih =>
    rw [List.forall_mem_cons] at hs hn hmtime hsize
    rw [List.flatMap_cons, List.append_assoc] at hstream
    have hnull' : NullPointers (thFinish (f.header src)).image :=
      (Item.describes hs.1 hn.1).thFinish.nullPointers
    rw [List.length_cons, readEntries_step hs.1 hn.1 hmtime.1 hsize.1 memory malloc extract _ k hnull hstream,
      ih hs.2 hn.2 hmtime.2 hsize.2 (k + 1) hnull' rfl]
    rfl

/-- **A package of regular files and directories is read as it was written**: the names, types,
modes, times, sizes and contents of the files in their order, and then the end. The size of a
directory is 0. -/
theorem readEntries_appendAll (src : Source) (fs : List Item) (hs : ∀ f ∈ fs, f.Exists src)
    (hn : ∀ f ∈ fs, f.Named)
    (hdistinct : (fs.map fun f => (f.stat.dev, f.stat.ino)).Nodup)
    (hmtime : ∀ f ∈ fs, 0 ≤ f.stat.mtime ∧ f.stat.mtime < 2 ^ 31)
    (hsize : ∀ f ∈ fs, f.stat.size < 2 ^ 31) :
    ∃ t, appendAll src fs parCreate = some t ∧
      ∀ (memory : ℕ → Bytes) (malloc : List ℕ → ℕ → Option ℕ) (extract : ℕ → Bool),
        readEntries memory malloc extract (fs.length + 1) 0 (parOpen (parAppendEof t).blocks) =
          (entriesFrom extract 0 fs, some 1) := by
  obtain ⟨devices, happend⟩ := appendAll_new hs hn hdistinct (t := parCreate) fun f _ => rfl
  refine ⟨_, happend, fun memory malloc extract => ?_⟩
  exact readEntries_blocks memory malloc extract hs hn hmtime hsize 0 nullPointers_zero rfl

end RoundTrip

/-! ## A file and a directory -/

/-- A file `a` of two bytes. -/
def smallFile : Item := ⟨ascii "./a", ascii "a", ⟨.reg, 0o644, 0, 0, 1000000000, 2, 1, 5⟩, ascii "hi"⟩

/-- A directory `d` as a file system has it, with a size of 4096 bytes. -/
def smallDir : Item := ⟨ascii "./d", ascii "d", ⟨.dir, 0o755, 0, 0, 1000000000, 4096, 1, 6⟩, []⟩

/-- A source with the file and the directory. -/
def smallSource : Source where
  lstat name := if name = ascii "./a" then some smallFile.stat else if name =
    ascii "./d" then some smallDir.stat
    else none
  readlink _ := none
  content name := if name = ascii "./a" then some smallFile.file else none
  readdir name := if name = ascii "./d" then some [] else none
  getpwuid _ := some (ascii "root")
  getgrgid _ := some (ascii "root")
  stack := List.replicate blockSize 0

theorem exists_small : ∀ f ∈ [smallFile, smallDir], f.Exists smallSource := by
  intro f hf
  rw [List.mem_cons, List.mem_singleton] at hf
  rcases hf with rfl | rfl
  · exact ⟨rfl, .inl rfl, fun _ => ⟨rfl, rfl⟩⟩
  · exact ⟨rfl, .inr rfl, fun htype => nomatch htype⟩

theorem named_small : ∀ f ∈ [smallFile, smallDir], f.Named := by
  intro f hf
  rw [List.mem_cons, List.mem_singleton] at hf
  rcases hf with rfl | rfl
  · exact ⟨by decide, by decide, by decide, by decide, by decide⟩
  · exact ⟨by decide, by decide, by decide, by decide, by decide⟩

theorem readEntries_appendAll_small :
    ∃ t, appendAll smallSource [smallFile, smallDir] parCreate = some t ∧
    ∀ (memory : ℕ → Bytes) (malloc : List ℕ → ℕ → Option ℕ) (extract : ℕ → Bool),
      readEntries memory malloc extract 3 0 (parOpen (parAppendEof t).blocks) =
        (entriesFrom extract 0 [smallFile, smallDir], some 1) :=
  readEntries_appendAll smallSource [smallFile, smallDir] exists_small named_small (by decide)
  (by decide) (by decide)

/-- The size of a directory is not kept. -/
theorem not_same_size : ¬ ∀ (src : Source) (fs : List Item), (∀ f ∈ fs, f.Exists src) →
    (∀ f ∈ fs, f.Named) →
    (fs.map fun f => (f.stat.dev, f.stat.ino)).Nodup →
    (∀ f ∈ fs, 0 ≤ f.stat.mtime ∧ f.stat.mtime < 2 ^ 31) → (∀ f ∈ fs, f.stat.size < 2 ^ 31) →
    ∃ t, appendAll src fs parCreate = some t ∧
      ∀ (memory : ℕ → Bytes) (malloc : List ℕ → ℕ → Option ℕ) (extract : ℕ → Bool),
        (readEntries memory malloc extract (fs.length + 1) 0
          (parOpen (parAppendEof t).blocks)).1.map Entry.size =
          fs.map fun f => f.stat.size := by
  intro h
  obtain ⟨t, happend, hread⟩ :=
    h smallSource [smallFile, smallDir] exists_small named_small (by decide) (by decide)
    (by decide)
  have hsizes : (appendAll smallSource [smallFile, smallDir] parCreate).map (fun t =>
      (readEntries (fun _ => []) (fun _ _ => none) (fun _ => true) 3 0
        (parOpen (parAppendEof t).blocks)).1.map Entry.size) = some [2, 0] := by
    decide +kernel
  have hsame := hread (fun _ => []) (fun _ _ => none) fun _ => true
  rw [happend, Option.map_some] at hsizes
  exact absurd ((Option.some.inj hsizes).symm.trans hsame) (by decide)

end Mavicona.Par
