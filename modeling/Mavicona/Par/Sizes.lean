import Mavicona.Par.LongNames

/-!
# The size of a file in its header

Reference: `par/libpar.h` (`th_set_size`), `par/util.c`, `par/append.c` (`par_append_regfile`).

The size goes through the `int` of `int_to_oct_nonull`: below `2 ^ 31` it is what the header says, and
from there on the header says less. `par_append_regfile` reads as much as the header says, so the rest
of a larger file is left out and nothing fails. Nor does it fail if a write takes less than a block: only
-1 is a failure to it, and `gzwrite` returns 0.
-/

namespace Mavicona.Par

open Bytes Numeral Path ChainedHash

/-! ## The field -/

/-- The header says the size as an `int` can hold it. -/
theorem thGetSize_of_size {h : FileHeader} {i : ℤ}
    (hsize : h.size.bytes = padOctal 11 (written i) ++ [32]) : thGetSize h.image = written i := by
  rw [thGetSize, octToSize, size_image, hsize, List.append_assoc]
  exact octal_padOctal ((written_lt i).trans (by decide)) _

theorem thGetSize_thSetSize (i : ℤ) (h : FileHeader) :
    thGetSize (thSetSize i h).image = written i :=
  thGetSize_of_size (nonull_copy h.size i)

/-! ## The content -/

/-- The blocks of a file of which everything is read: as many as it needs, and all its bytes. -/
theorem contentBlocks_spec {fuel i : ℕ} {file block : Bytes} {blocks : Stream}
    (hfile : i ≤ file.length) (h : contentBlocks fuel i file block = some blocks) :
    blocks.length = (i + 511) / 512 ∧ blocks.flatten.take i = file.take i := by
  induction fuel generalizing i file block blocks with
  | zero => exact absurd h (by simp [contentBlocks])
  | succ fuel ih =>
    rw [contentBlocks] at h
    split_ifs at h with hbig hshort hpos
    · obtain ⟨rest, hrest, rfl⟩ := Option.map_eq_some_iff.mp h
      have hbig' : 512 < i := by simpa [blockSize] using hbig
      have hcast : (i : ℤ) - (blockSize : ℕ) = ((i - 512 : ℕ) : ℤ) := by
        simp only [blockSize]
        omega
      rw [hcast] at hrest
      have hlen : (file.take blockSize).length = 512 := by
        rw [List.length_take, blockSize]
        omega
      obtain ⟨hcount, hbytes⟩ := ih (by rw [List.length_drop, blockSize]; omega) hrest
      refine ⟨?_, ?_⟩
      · rw [List.length_cons, hcount]
        omega
      · have hsplit : i = 512 + (i - 512) := by omega
        rw [List.flatten_cons, List.take_append, hlen, List.take_of_length_le (by omega), hbytes]
        conv_rhs => rw [hsplit, List.take_add]
        rfl
    · have hpos' : 0 < i := by simpa using hpos
      have hle : i ≤ 512 := by simpa [blockSize] using hbig
      have hlen : (file.take i).length = i := by
        rw [List.length_take]
        omega
      rw [Int.toNat_natCast, List.take_append_of_le_length hlen.ge, List.take_take, min_self] at h
      rw [← Option.some.inj h]
      refine ⟨?_, ?_⟩
      · rw [List.length_singleton]
        omega
      · have hpad : (padTo blockSize (file.take i)).take i = file.take i := by
          rw [padTo, List.take_take, blockSize, min_eq_left hle, List.take_append_of_le_length hlen.ge,
            List.take_take, min_self]
        rw [List.flatten_singleton, hpad]
    · have hzero : i = 0 := by
        have : ¬ (0 < i) := by simpa using hpos
        omega
      rw [← Option.some.inj h, hzero]
      exact ⟨rfl, rfl⟩

/-! ## The call -/

theorem thSetPath_kept (path : Bytes) (h : FileHeader) :
    (thSetPath path h).typeflag = h.typeflag ∧ (thSetPath path h).mode = h.mode ∧
      (thSetPath path h).size = h.size := by
  unfold thSetPath
  dsimp only
  split_ifs <;> exact ⟨rfl, rfl, rfl⟩

section Regular

variable {src : Source} {s : Stat}

/-- The header of a regular file whose inode is new is marked as one. -/
theorem isReg_path (path : Bytes) (hreg : s.type = .reg) :
    isSym (thSetPath path (statHeader src s)).image = false ∧
      isReg (thFinish (thSetPath path (statHeader src s))).image = true := by
  obtain ⟨hflag, hmode, -⟩ := thSetPath_kept path (statHeader src s)
  have hfile : s.IsFile := .inl hreg
  have hflag' := hflag.trans (statHeader_typeflag src hfile)
  have hbits : ∀ h : FileHeader, h.mode = (thSetPath path (statHeader src s)).mode →
      modeBits h.image = s.mode := by
    intro h hh
    exact modeBits_image (by rw [hh, hmode, statHeader_mode]) (mode_lt s)
  constructor
  · refine isSym_image hfile (hbits _ rfl) ?_
    rw [hflag', if_pos hreg]
    decide
  · rw [isReg_image hfile (hbits (thFinish (thSetPath path (statHeader src s))) rfl) hflag']
    exact decide_eq_true hreg

end Regular

/-! ## Writes that come short -/

/-- `par_block_write`, by what it returns: how many bytes of the block were taken, or -1, which is `none`.
Where nothing is said of a write it takes the whole block. -/
def putBlock (block : Bytes) : List (Option ℕ) → Option Bytes
  | [] => some block
  | none :: _ => none
  | some k :: _ => some (block.take k)

/-- The loop of `par_append_regfile`, by what the writes return: the pieces that are written. -/
def contentPieces : ℕ → ℤ → Bytes → Bytes → List (Option ℕ) → Option (List Bytes)
  | 0, _, _, _, _ => none
  | n + 1, i, file, block, results =>
    if i > blockSize then
      if file.length < blockSize then none
      else
        (putBlock (file.take blockSize) results).bind fun piece =>
          (contentPieces n (i - blockSize) (file.drop blockSize) (file.take blockSize) results.tail).map
            (piece :: ·)
    else if i > 0 then
      (putBlock (padTo blockSize ((file.take i.toNat ++ block.drop (file.take i.toNat).length).take
        i.toNat)) results).map ([·])
    else some []

/-- `par_append_regfile`, by what the writes return. -/
def parAppendRegfileTo (src : Source) (b realname : Bytes) (results : List (Option ℕ)) :
    Option (List Bytes) := do
  let file ← src.content realname
  let i := asInt (thGetSize b)
  contentPieces (i.toNat + 1) i file src.stack results

/-- The header that `par_append_file` writes, and the names of inodes with that of the file. -/
def fileHead (src : Source) (t : Packing) (realname : Bytes) (savename : Option Bytes) :
    Option (Bytes × Table TarDev) := do
  let s ← src.lstat realname
  let h ← thSetFromStat src s .zero
  let name := savename.getD realname
  let h := thSetPath name h
  let devices := deviceTable s.dev t.devices
  let (h, devices) := match firstName s.dev s.ino devices with
    | some tiName => (thSetLink tiName { h with typeflag := lnktype }, devices)
    | none => (h, addName s.dev s.ino (name.take (4096 - 1)) devices)
  let h ←
    if isSym h.image then (src.readlink realname).map fun path => thSetLink (path.take (4096 - 1)) h
    else some h
  some ((thFinish h).image, devices)

/-- `par_append_file`, by what the writes return. `th_write` fails unless it writes a whole block. -/
def parAppendFileTo (src : Source) (t : Packing) (realname : Bytes) (savename : Option Bytes)
    (header : Option ℕ) (results : List (Option ℕ)) : Option Packing := do
  let (b, devices) ← fileHead src t realname savename
  if header ≠ some blockSize then none
  else
    let content ← if isReg b then parAppendRegfileTo src b realname results else some []
    some ⟨t.blocks ++ b :: content, devices⟩

/-- Blocks are written one after the other. -/
def putAll : Stream → List (Option ℕ) → Option (List Bytes)
  | [], _ => some []
  | b :: bs, results => (putBlock b results).bind fun piece => (putAll bs results.tail).map (piece :: ·)

section Writes

variable {bs pieces : List Bytes} {results : List (Option ℕ)}

/-- What is read does not depend on the writes. -/
theorem contentPieces_eq (n : ℕ) (i : ℤ) (file block : Bytes) (results : List (Option ℕ)) :
    contentPieces n i file block results =
      (contentBlocks n i file block).bind fun bs => putAll bs results := by
  induction n generalizing i file block results with
  | zero => rfl
  | succ n ih =>
    rw [contentPieces, contentBlocks]
    split_ifs
    · rfl
    · simp only [ih, Option.bind_map, Function.comp_def, putAll]
      cases contentBlocks n (i - blockSize) (file.drop blockSize) (file.take blockSize) with
      | none => simp
      | some bs => rfl
    · rw [Option.map_eq_bind]
      rfl
    · rfl

theorem parAppendRegfileTo_eq (src : Source) (b realname : Bytes) (results : List (Option ℕ)) :
    parAppendRegfileTo src b realname results =
      (parAppendRegfile src b realname).bind fun bs => putAll bs results := by
  rw [parAppendRegfileTo, parAppendRegfile]
  cases src.content realname with
  | none => rfl
  | some file => exact contentPieces_eq _ _ file src.stack results

theorem length_putAll (h : putAll bs results = some pieces) : pieces.length = bs.length := by
  induction bs generalizing results pieces with
  | nil => rw [← Option.some.inj h]
  | cons b bs ih =>
    obtain ⟨piece, -, h⟩ := Option.bind_eq_some_iff.mp h
    obtain ⟨rest, hrest, rfl⟩ := Option.map_eq_some_iff.mp h
    rw [List.length_cons, List.length_cons, ih hrest]

/-- Blocks are written unless one of the writes fails. -/
theorem putAll_isSome_iff : (putAll bs results).isSome ↔ none ∉ results.take bs.length := by
  induction bs generalizing results with
  | nil => simp [putAll]
  | cons b bs ih =>
    match results with
    | [] => simpa [putAll, putBlock] using (@ih []).mpr (by simp)
    | none :: results => simp [putAll, putBlock]
    | some k :: results => simp [putAll, putBlock, ih]

/-- Blocks are written whole exactly if no write comes short. -/
theorem putAll_whole_iff (hbs : ∀ b ∈ bs, b.length = blockSize) (h : putAll bs results = some pieces) :
    (∀ p ∈ pieces, p.length = blockSize) ↔ ∀ k, some k ∈ results.take bs.length → blockSize ≤ k := by
  induction bs generalizing results pieces with
  | nil =>
    rw [← Option.some.inj h]
    simp
  | cons b bs ih =>
    obtain ⟨piece, hpiece, h⟩ := Option.bind_eq_some_iff.mp h
    obtain ⟨rest, hrest, rfl⟩ := Option.map_eq_some_iff.mp h
    have hrest' := ih (fun c hc => hbs c (List.mem_cons_of_mem _ hc)) hrest
    have hb := hbs b List.mem_cons_self
    match results with
    | [] =>
      obtain rfl := Option.some.inj hpiece
      simpa [hb] using hrest'
    | none :: results => cases hpiece
    | some k :: results =>
      obtain rfl := Option.some.inj hpiece
      rw [List.tail_cons] at hrest'
      simp [hb, hrest']

/-- Blocks that are written whole are all there. -/
theorem putAll_of_whole (hbs : ∀ b ∈ bs, b.length = blockSize)
    (hwhole : ∀ k, some k ∈ results.take bs.length → blockSize ≤ k)
    (h : putAll bs results = some pieces) : pieces = bs := by
  induction bs generalizing results pieces with
  | nil => exact (Option.some.inj h).symm
  | cons b bs ih =>
    obtain ⟨piece, hpiece, h⟩ := Option.bind_eq_some_iff.mp h
    obtain ⟨rest, hrest, rfl⟩ := Option.map_eq_some_iff.mp h
    have hb := hbs b List.mem_cons_self
    have htail : ∀ k, some k ∈ results.tail.take bs.length → blockSize ≤ k := by
      intro k hk
      refine hwhole k ?_
      cases results with
      | nil => exact absurd hk (by simp)
      | cons r results => exact List.mem_cons_of_mem _ hk
    rw [ih (fun c hc => hbs c (List.mem_cons_of_mem _ hc)) htail hrest]
    match results with
    | [] => rw [← Option.some.inj hpiece]
    | none :: results => cases hpiece
    | some k :: results =>
      have hk := hwhole k List.mem_cons_self
      rw [← Option.some.inj hpiece, List.take_of_length_le (by omega)]

/-- The content is read in blocks of one size. -/
theorem length_of_mem_contentBlocks {n : ℕ} {i : ℤ} {file block : Bytes}
    (h : contentBlocks n i file block = some bs) : ∀ b ∈ bs, b.length = blockSize := by
  induction n generalizing i file block bs with
  | zero => exact absurd h (by simp [contentBlocks])
  | succ n ih =>
    rw [contentBlocks] at h
    split_ifs at h with hbig hshort hpos
    · obtain ⟨rest, hrest, rfl⟩ := Option.map_eq_some_iff.mp h
      rw [List.forall_mem_cons]
      exact ⟨List.length_take_of_le (not_lt.mp hshort), ih hrest⟩
    · rw [← Option.some.inj h, List.forall_mem_singleton]
      exact length_padTo _ _
    · rw [← Option.some.inj h]
      exact fun b hb => absurd hb List.not_mem_nil

end Writes

section Call

variable {src : Source} {t t' : Packing} {realname : Bytes} {savename : Option Bytes} {s : Stat}
  {header : Option ℕ} {results : List (Option ℕ)}

/-- If every write takes its block, `par_append_file` is as if there were no results. -/
theorem parAppendFileTo_nil (src : Source) (t : Packing) (realname : Bytes)
    (savename : Option Bytes) :
    parAppendFileTo src t realname savename (some blockSize) [] =
      parAppendFile src t realname savename := by
  have hput : ∀ bs : Stream, putAll bs [] = some bs := by
    intro bs
    induction bs with
    | nil => rfl
    | cons b bs ih => simp [putAll, putBlock, ih]
  have hcontent : ∀ b, parAppendRegfileTo src b realname [] = parAppendRegfile src b realname := by
    intro b
    rw [parAppendRegfileTo_eq]
    cases parAppendRegfile src b realname with
    | none => rfl
    | some bs => exact hput bs
  rw [parAppendFileTo, parAppendFile, fileHead]
  cases src.lstat realname with
  | none => rfl
  | some s =>
    cases hstat : thSetFromStat src s .zero with
    | none => simp [hstat]
    | some h =>
      simp only [hcontent, hstat, Option.bind_eq_bind, Option.bind_some, ne_eq, not_true, if_false]
      cases firstName s.dev s.ino (deviceTable s.dev t.devices) <;> dsimp only <;> split_ifs <;>
        simp [*, Option.bind_map, Option.bind_assoc]

/-- The header of a regular file whose inode is new says its size as an `int` can hold it. -/
theorem fileHead_regular (hs : src.lstat realname = some s) (hreg : s.type = .reg)
    (hnew : firstName s.dev s.ino t.devices = none) :
    ∃ b devices, fileHead src t realname savename = some (b, devices) ∧ isReg b = true ∧
      thGetSize b = written s.size := by
  obtain ⟨hsym, hisReg⟩ := @isReg_path src s (savename.getD realname) hreg
  have hsize : (thFinish (thSetPath (savename.getD realname) (statHeader src s))).size.bytes =
      padOctal 11 (written s.size) ++ [32] := by
    obtain ⟨-, -, hkept⟩ := thSetPath_kept (savename.getD realname) (statHeader src s)
    have hfield := statHeader_size (s := s) src
    rw [if_pos hreg, ← hkept] at hfield
    exact hfield
  refine ⟨_, addName s.dev s.ino ((savename.getD realname).take (4096 - 1))
    (deviceTable s.dev t.devices), ?_, hisReg, thGetSize_of_size hsize⟩
  rw [fileHead, hs]
  simp only [Option.bind_eq_bind, Option.bind_some, thSetFromStat_eq src (.inl hreg : s.IsFile),
    firstName_deviceTable, hnew, hsym, Bool.false_eq_true, if_false]

/-- What a call that succeeds has written for a regular file whose inode is new. -/
theorem parAppendFileTo_regular (hs : src.lstat realname = some s) (hreg : s.type = .reg)
    (hnew : firstName s.dev s.ino t.devices = none)
    (h : parAppendFileTo src t realname savename header results = some t') :
    ∃ b pieces, thGetSize b = written s.size ∧ t'.blocks = t.blocks ++ b :: pieces ∧
      parAppendRegfileTo src b realname results = some pieces := by
  obtain ⟨b, devices, hhead, hisReg, hsize⟩ := @fileHead_regular src t realname savename s hs hreg hnew
  rw [parAppendFileTo, hhead] at h
  simp only [Option.bind_eq_bind, Option.bind_some, hisReg, if_true] at h
  split_ifs at h
  obtain ⟨pieces, hpieces, h⟩ := Option.bind_eq_some_iff.mp h
  exact ⟨b, pieces, hsize, by rw [← Option.some.inj h], hpieces⟩

end Call

/-! ## Sizes that survive -/

/-- Files of `n` bytes keep their size and all of their bytes, where the writes of the content return
`results`. -/
structure SizeKept (n : ℕ) (results : List (Option ℕ)) : Prop where
  size : ∀ h : FileHeader, thGetSize (thSetSize n h).image = n
  blocks : ∀ (src : Source) (realname file : Bytes) (h : FileHeader),
    src.content realname = some file → file.length = n →
    (none ∉ results.take ((n + 511) / 512) →
      (parAppendRegfileTo src (thSetSize n h).image realname results).isSome) ∧
    ∀ pieces, parAppendRegfileTo src (thSetSize n h).image realname results = some pieces →
      pieces.length = (n + 511) / 512 ∧ ∀ p ∈ pieces, p.length = blockSize
  archived : ∀ (src : Source) (t t' : Packing) (realname file : Bytes) (savename : Option Bytes)
    (s : Stat) (header : Option ℕ), src.lstat realname = some s → s.type = .reg → s.size = n →
    firstName s.dev s.ino t.devices = none → src.content realname = some file → file.length = n →
    parAppendFileTo src t realname savename header results = some t' →
    ((t'.blocks.drop (t.blocks.length + 1)).flatten).take n = file

/-- What is read of a file of which the header says the size. -/
theorem parAppendRegfile_of_size {src : Source} {b realname file : Bytes} {n : ℕ}
    (hsize : thGetSize b = n) (hn : n < 2 ^ 31) (hfile : src.content realname = some file)
    (hlen : file.length = n) :
    parAppendRegfile src b realname = some (dataBlocks n file src.stack) ∧
      (dataBlocks n file src.stack).length = (n + 511) / 512 ∧
      (∀ b ∈ dataBlocks n file src.stack, b.length = blockSize) ∧
      (dataBlocks n file src.stack).flatten.take n = file := by
  have hint : asInt n = n := asInt_of_lt (by omega) (by exact_mod_cast hn)
  have hblocks := contentBlocks_eq hlen.ge src.stack
  obtain ⟨hcount, hbytes⟩ := contentBlocks_spec hlen.ge hblocks
  refine ⟨?_, hcount, length_of_mem_contentBlocks hblocks, by rw [hbytes, ← hlen, List.take_length]⟩
  rw [parAppendRegfile, hfile, hsize, Option.bind_eq_bind, Option.bind_some]
  dsimp only
  rw [hint, Int.toNat_natCast, hblocks]

/-- Source files that are all the same. -/
def sameFile (file : Bytes) : Source where
  lstat _ := none
  readlink _ := none
  content _ := some file
  readdir _ := none
  getpwuid _ := none
  getgrgid _ := none
  stack := []

/-- **A size survives exactly if it is below `2 ^ 31` and no write of the content comes short without
one that fails.** -/
theorem sizeKept_iff (n : ℕ) (results : List (Option ℕ)) :
    SizeKept n results ↔ n < 2 ^ 31 ∧ (none ∈ results.take ((n + 511) / 512) ∨
      ∀ k, some k ∈ results.take ((n + 511) / 512) → blockSize ≤ k) := by
  have hwritten : n < 2 ^ 31 → written n = n := by
    intro hn
    have := written_of_lt (i := n) (by omega) (by exact_mod_cast hn)
    exact_mod_cast this
  have hset : n < 2 ^ 31 → ∀ h : FileHeader, thGetSize (thSetSize n h).image = n :=
    fun hn h => (thGetSize_thSetSize n h).trans (hwritten hn)
  constructor
  · intro h
    have hn : n < 2 ^ 31 := by
      have hsize := h.size .zero
      rw [thGetSize_thSetSize] at hsize
      exact hsize ▸ written_lt n
    refine ⟨hn, or_iff_not_imp_left.mpr fun hnone => ?_⟩
    -- a file of `n` zeros
    have hzeros : (List.replicate n (0 : UInt8)).length = n := List.length_replicate
    obtain ⟨hread, hcount, hblock, -⟩ := @parAppendRegfile_of_size (sameFile (List.replicate n 0))
      (thSetSize n .zero).image [] _ n (hset hn _) hn rfl hzeros
    obtain ⟨hsome, hwhole⟩ := h.blocks (sameFile (List.replicate n 0)) [] _ .zero rfl hzeros
    obtain ⟨pieces, hpieces⟩ := Option.isSome_iff_exists.mp (hsome hnone)
    have hput := hpieces
    rw [parAppendRegfileTo_eq, hread, Option.bind_some] at hput
    rw [← hcount]
    exact (putAll_whole_iff hblock hput).mp (hwhole pieces hpieces).2
  · rintro ⟨hn, hresults⟩
    refine ⟨hset hn, ?_, ?_⟩
    · intro src realname file h hfile hlen
      obtain ⟨hread, hcount, hblock, -⟩ := parAppendRegfile_of_size (hset hn h) hn hfile hlen
      rw [parAppendRegfileTo_eq, hread, Option.bind_some, ← hcount]
      refine ⟨putAll_isSome_iff.mpr, fun pieces hpieces => ⟨length_putAll hpieces, ?_⟩⟩
      have hnone := putAll_isSome_iff.mp (Option.isSome_of_eq_some hpieces)
      rw [hcount] at hnone
      rw [putAll_whole_iff hblock hpieces, hcount]
      exact hresults.resolve_left hnone
    · intro src t t' realname file savename s header hs hreg hsize hnew hfile hlen happend
      obtain ⟨b, pieces, hhead, hblocks, hpieces⟩ := parAppendFileTo_regular hs hreg hnew happend
      rw [hsize, hwritten hn] at hhead
      obtain ⟨hread, hcount, hblock, hbytes⟩ := parAppendRegfile_of_size hhead hn hfile hlen
      rw [parAppendRegfileTo_eq, hread, Option.bind_some] at hpieces
      have hnone := putAll_isSome_iff.mp (Option.isSome_of_eq_some hpieces)
      rw [hcount] at hnone
      have hwhole := hresults.resolve_left hnone
      rw [← hcount] at hwhole
      have hdrop : t'.blocks.drop (t.blocks.length + 1) = dataBlocks n file src.stack := by
        rw [hblocks, putAll_of_whole hblock hwhole hpieces, List.drop_append]
        simp
      rw [hdrop, hbytes]

/-- From 2 GiB on the header says 2 GiB less a byte. -/
theorem not_sizeKept_two_gib : ¬ SizeKept (2 ^ 31) [] := by
  intro h
  have hsize := h.size .zero
  rw [thGetSize_thSetSize] at hsize
  exact absurd hsize (by decide +kernel)

/-- On a full disk nothing is written of a file of one byte, and the call does not fail. -/
example : ((parAppendRegfileTo (sameFile [7]) (thSetSize 1 .zero).image [] [some 0]).map
    List.flatten) = some [] := by
  decide +kernel

end Mavicona.Par
