import Mavicona.Cynder.PageRuns

/-!
# Closing and reopening a page

`Filepage::open` finds the index blocks again by comparing file positions with block ends. Its loop is
followed item by item: after `i` items the state is `openStateAt h f i`, where the last block is still
the one item `i - 1` is in, also when that block is full and the next one not yet entered. The chain is
followed at the start of the next iteration, exactly where `storeItem` would have allocated the block.
-/

namespace Mavicona.Cynder

open Bytes Layout ByteFile Trace

/-- The state of the loop of `Filepage::open` after `i` items of history `h`. -/
def openStateAt (h : History) (f : ByteFile) (i : ℕ) : Filepage.OpenState where
  stream := ⟨f, if i = 0 then 28 else blockOffset h ((i - 1) / 16) + 48 * ((i - 1) % 16 + 1)⟩
  lastIndex := blockOffset h ((i - 1) / 16)
  contents := contentsUpTo h i

/-- A file that carries the index of page `p`, whatever its header and its data area hold. -/
structure Carries (f : ByteFile) (p : Filepage) : Prop where
  size : p.file.size ≤ f.size
  slice : ∀ a n, 28 ≤ a → f.slice a n = p.file.slice a n

section Loop

variable {h : History} {p : Filepage} {f : ByteFile} {i : ℕ}

theorem Stored.blockOffset_lt (hs : Stored h p) {k : ℕ} (hk : k ≤ (h.length - 1) / 16) :
    blockOffset h k + 772 < 2 ^ 32 ∧ blockOffset h k + 772 ≤ p.file.size := by
  have h₁ := blockOffset_mono h hk
  have h₂ := blockOffset_add_le_freeOffset h hs.index.blocks le_rfl
  have h₃ := hs.free_lt
  have h₄ := hs.index.size
  omega

/-- At the start of an iteration the loop moves to the block of item `i`. -/
theorem Stored.nextIndex_openStateAt (hs : Stored h p) (hf : Carries f p) (hi : i < h.length) :
    (openStateAt h f i).nextIndex 16
      = { stream := ⟨f, blockOffset h (i / 16) + 48 * (i % 16)⟩
          lastIndex := blockOffset h (i / 16)
          contents := contentsUpTo h i } := by
  obtain ⟨hlt, hsize⟩ := hs.blockOffset_lt (k := (i - 1) / 16) (by omega)
  by_cases hfull : i % 16 = 0 ∧ i ≠ 0
  · -- the block is full: its pointer leads to the block of item `i`
    have hblock : (i - 1) / 16 + 1 = i / 16 := by omega
    have hslot : (i - 1) % 16 + 1 = 16 := by omega
    have hchain := hs.index.chain ((i - 1) / 16) (by omega)
    obtain ⟨hlt', -⟩ := hs.blockOffset_lt (k := i / 16) (by omega)
    have hpos : 28 ≤ blockOffset h ((i - 1) / 16) := by simp only [blockOffset]; omega
    have hread : (⟨f, blockOffset h ((i - 1) / 16) + 768⟩ : FileStream).fread
        (le 4 (blockOffset h ((i - 1) / 16)))
        = (le 4 (blockOffset h (i / 16)), ⟨f, blockOffset h ((i - 1) / 16) + 772⟩) := by
      have := hf.size
      rw [FileStream.fread_eq (by simp only [length_le]; omega)]
      simp only [length_le, Nat.add_assoc, Nat.reduceAdd]
      rw [hf.slice _ 4 (by omega), hchain, hblock]
    have hend : blockOffset h ((i - 1) / 16) + sizeofPageIndexItem * 16
        = u32 (blockOffset h ((i - 1) / 16) + 48 * ((i - 1) % 16 + 1)) := by
      rw [hslot, u32_of_lt (by omega)]
      rfl
    have hval : ofLe (le 4 (blockOffset h (i / 16))) = blockOffset h (i / 16) :=
      ofLe_le_of_lt (by omega)
    simp only [Filepage.OpenState.nextIndex, openStateAt, if_neg hfull.2]
    rw [if_pos hend, hslot, hread, hval]
    simp [FileStream.seekSet, hfull.1]
  · -- inside the block, or at the very start
    have hblock : (i - 1) / 16 = i / 16 := by omega
    have hpos : (if i = 0 then 28 else blockOffset h ((i - 1) / 16) + 48 * ((i - 1) % 16 + 1))
        = blockOffset h (i / 16) + 48 * (i % 16) := by
      split
      · rename_i hzero
        simp [hzero, blockOffset, dataBefore]
      · rw [hblock]
        omega
    have hne : ¬ blockOffset h (i / 16) + sizeofPageIndexItem * 16
        = u32 (blockOffset h (i / 16) + 48 * (i % 16)) := by
      rw [hblock] at hlt
      rw [u32_of_lt (by omega)]
      simp only [sizeofPageIndexItem]
      omega
    have hstate : openStateAt h f i
        = { stream := ⟨f, blockOffset h (i / 16) + 48 * (i % 16)⟩
            lastIndex := blockOffset h (i / 16)
            contents := contentsUpTo h i } := by
      rw [openStateAt, hpos, hblock]
    rw [hstate, Filepage.OpenState.nextIndex, if_neg hne]

/-- One iteration of the loop enters one item. -/
theorem Stored.next_openStateAt (hs : Stored h p) (hf : Carries f p) (hnames : QuidNames h)
    (hi : i < h.length) :
    Filepage.OpenState.next 16 (openStateAt h f i) = openStateAt h f (i + 1) := by
  obtain ⟨hblock, hitem⟩ := hs.index.items i hi
  obtain ⟨hlt, hsize⟩ := hs.blockOffset_lt hblock
  have hpos : 28 ≤ blockOffset h (i / 16) := by simp only [blockOffset]; omega
  have hread : (⟨f, blockOffset h (i / 16) + 48 * (i % 16)⟩ : FileStream).fread
      (List.replicate sizeofPageIndexItem 0)
      = ((itemAt h i).encode, ⟨f, blockOffset h (i / 16) + 48 * (i % 16 + 1)⟩) := by
    have := hf.size
    rw [FileStream.fread_eq (by simp only [List.length_replicate, sizeofPageIndexItem]; omega)]
    simp only [List.length_replicate, sizeofPageIndexItem, hf.slice _ 48 (show
      28 ≤ blockOffset h (i / 16) + 48 * (i % 16) by omega), hitem, Nat.mul_add, Nat.add_assoc,
      Nat.mul_one]
  rw [Filepage.OpenState.next, hs.nextIndex_openStateAt hf hi, Filepage.OpenState.readItem]
  simp only [hread, hs.decode_itemAt hnames hi]
  simp [openStateAt, contentsUpTo, indexFlagNil]

/-- The whole loop finds the index of the history. -/
theorem Stored.iterate_openStateAt (hs : Stored h p) (hf : Carries f p) (hnames : QuidNames h)
    (hi : i ≤ h.length) :
    (Filepage.OpenState.next 16)^[i] (openStateAt h f 0) = openStateAt h f i := by
  induction i with
  | zero => rfl
  | succ i ih =>
    rw [Function.iterate_succ_apply', ih (by omega), hs.next_openStateAt hf hnames hi]

end Loop

variable {h : History} {p : Filepage}

/-- Opening a file that carries the index of a page, with a header that may also mark it full, gives
back the page. -/
theorem Stored.openPage_eq (hs : Stored h p) (hnames : QuidNames h) (raw : Uninit) (path : Path)
    {f : ByteFile} (hf : Carries f p) (full : Bool)
    (hheader : f.slice 0 28 = ({ p with pageFull := full } : Filepage).header.encode) :
    Filepage.openPage raw path f = { p with path := path, file := f, pageFull := full } := by
  have hsize : 28 ≤ f.size := by
    have h₁ := hf.size
    have h₂ := hs.index.size
    simp only [freeOffset] at h₂
    omega
  have hread : (FileStream.ofFile f).fread (List.replicate sizeofPageHeader 0)
      = (({ p with pageFull := full } : Filepage).header.encode, ⟨f, 28⟩) := by
    rw [FileStream.fread_eq (by simpa [sizeofPageHeader] using hsize)]
    simp [sizeofPageHeader, hheader]
  have hdecode := hs.counted.decode_header full
  have hloop := hs.iterate_openStateAt hf hnames le_rfl
  have hstart : openStateAt h f 0
      = { stream := ⟨f, 28⟩, lastIndex := sizeofPageHeader, contents := fun _ => none } := by
    simp [openStateAt, contentsUpTo, blockOffset, dataBefore, sizeofPageHeader]
  have hflag : decide ((if full = true then pageFlagFull else pageFlagNil) &&& pageFlagFull ≠ 0)
      = full := by
    cases full <;> decide
  rw [hstart] at hloop
  simp only [Filepage.openPage, hread, hdecode]
  rw [if_neg (by simp [Filepage.header])]
  simp only [Filepage.header, hs.index.grow, hs.index.elements, hloop, hflag]
  simp [openStateAt, hs.index.lastIndex, hs.index.contents, contentsOf]

/-- Closing a page in order leaves its file as it is: the header is up to date. -/
theorem Stored.close_eq (hs : Stored h p) : p.close = p.file := by
  have hsize := hs.index.size
  apply write_slice_self p.file
  · simp only [FileStream.seekSet_pos, Filepage.length_encode_header]
    simp only [freeOffset] at hsize
    omega
  · simp only [FileStream.seekSet_pos, Filepage.length_encode_header]
    exact hs.header

/-- A call on a page that is to be reopened: a 36-byte NUL-free name, fewer than 65536 items, and the
first free offset below `2 ^ 32`. -/
def Filepage.ReopenGuard (p : Filepage) (op : Bytes × Bytes) : Prop :=
  op.1.length = 36 ∧ 0 ∉ op.1 ∧ p.elements + 1 < 65536 ∧ p.OffsetFits op.2

/-- **Closing and reopening a page is the identity.** For every page reached from `create`, opening
the file that closing it leaves gives the same object: contents, counters, last index block, full flag
and file. What the members held before `open` ran does not matter. -/
theorem openPage_close {path : Path} {h : History} {p : Filepage} (raw : Uninit)
    (hr : Run Filepage.store Filepage.ReopenGuard (Filepage.createDefault path) h p) :
    Filepage.openPage raw p.path p.close = p := by
  have hs : Stored h p := Stored.of_run (hr.mono fun _ _ hop =>
    ⟨by rw [hop.1]; decide, hop.2.2.1, hop.2.2.2⟩)
  have hnames := QuidNames.of_run (fun _ _ hop => ⟨hop.1, hop.2.1⟩) hr
  rw [hs.close_eq]
  have hpage : ({ p with pageFull := false } : Filepage) = p := by
    rw [← hs.index.pageFull]
  have := hs.openPage_eq hnames raw p.path ⟨le_rfl, fun _ _ _ => rfl⟩ false
    (by rw [hpage]; exact hs.header)
  rw [this]
  exact hpage

/-- A page with a second index block, where the name of the first item was stored again, reopened
over arbitrary leftovers in its members. -/
theorem openPage_close_twoBlocks :
    ∃ p, Run Filepage.store Filepage.ReopenGuard (Filepage.createDefault []) twoBlocks p ∧
      p.elements = 18 ∧ p.firstFree = 800 + 772 + 53 ∧
      Filepage.openPage ⟨7, 7, 7, 7, 7⟩ p.path p.close = p := by
  obtain ⟨p, hrun, hc⟩ := fitsPage_twoBlocks.run fun p op hlen hnul hcount hfree =>
    (⟨hlen, hnul, hcount, by unfold Filepage.OffsetFits; omega⟩ : Filepage.ReopenGuard p op)
  refine ⟨p, hrun, ?_, ?_, openPage_close ⟨7, 7, 7, 7, 7⟩ hrun⟩
  · rw [hc.elements]
    decide
  · rw [hc.firstFree]
    decide

end Mavicona.Cynder
