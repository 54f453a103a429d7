import Mavicona.Common.Extent
import Mavicona.Cynder.PageRuns

/-!
# What a page file is made of

The structure of a page is read off its file alone: the index blocks by following the pointers from
the first block (`indexBlocks`), the stored items from the index (`indexItems`). `extents` lists every
byte range this structure occupies: the header, each index block and its pointer, and the data of each
stored item. `filepage_representation` is the representation invariant of the page.
-/

namespace Mavicona.Cynder

open Bytes Layout ByteFile Trace

namespace Filepage

/-- Follow the index chain from the block at `b` until a pointer is `INDEX_NEXT_EMPTY`. -/
def indexChain (f : ByteFile) (grow : ℕ) : ℕ → ℕ → List ℕ
  | 0, b => [b]
  | fuel + 1, b =>
    let next := ofLe (f.slice (b + sizeofPageIndexItem * grow) sizeofUInt)
    if next = indexNextEmpty then [b] else b :: indexChain f grow fuel next

/-- The offsets of the index blocks of a page. A page of `n` items has at most `n + 1` blocks. -/
def indexBlocks (p : Filepage) : List ℕ := indexChain p.file p.grow p.elements sizeofPageHeader

/-- The index items of a page, in the order they were stored. -/
def indexItems (p : Filepage) : List PageIndexItem :=
  (List.range p.elements).map fun j =>
    PageIndexItem.decode (p.file.slice
      (p.indexBlocks.getD (j / p.grow) 0 + sizeofPageIndexItem * (j % p.grow)) sizeofPageIndexItem)

/-- Every byte range the structure of the page occupies. -/
def extents (p : Filepage) : List Extent :=
  ⟨0, sizeofPageHeader⟩ ::
    ((p.indexBlocks.flatMap fun b =>
        [⟨b, sizeofPageIndexItem * p.grow⟩, ⟨b + sizeofPageIndexItem * p.grow, sizeofUInt⟩]) ++
      p.indexItems.map fun i => ⟨i.item, i.size⟩)

/-- A call within the bounds of a page: a 36-byte NUL-free name, fewer than 65536 items, and the first
free offset, with the room of one allocation behind it, below `2 ^ 32`. -/
def PageGuard (p : Filepage) (op : Bytes × Bytes) : Prop :=
  op.1.length = 36 ∧ 0 ∉ op.1 ∧ p.elements + 1 < 65536 ∧
    p.dataStart + op.2.length + p.itemSize * p.grow < 2 ^ 32

theorem PageGuard.dataGuard {p : Filepage} {op : Bytes × Bytes} (hop : PageGuard p op) :
    DataGuard p op := by
  obtain ⟨hname, -, hcount, hfree⟩ := hop
  refine ⟨⟨by omega, hcount, ?_⟩, fun _ => by omega⟩
  unfold OffsetFits
  omega

end Filepage

variable {h : History} {p : Filepage}

/-- From block `k` of `b`, the chain visits the blocks `k … b`. -/
theorem Stored.indexChain_eq (hs : Stored h p) (hd : Data h ((h.length - 1) / 16) p) (d : ℕ) :
    ∀ k fuel, k + d = (h.length - 1) / 16 → d < fuel →
      Filepage.indexChain p.file 16 fuel (blockOffset h k)
        = (List.range (d + 1)).map fun i => blockOffset h (k + i) := by
  have hlt : ∀ k ≤ (h.length - 1) / 16, blockOffset h k < 256 ^ 4 := by
    intro k hk
    have h₁ := blockOffset_mono h hk
    have h₂ := blockOffset_add_le_freeOffset h hs.index.blocks le_rfl
    have := hs.free_lt
    omega
  induction d with
  | zero =>
    intro k fuel hk hfuel
    obtain ⟨fuel, rfl⟩ : ∃ n, fuel = n + 1 := ⟨fuel - 1, by omega⟩
    have hnext : ofLe (p.file.slice (blockOffset h k + 768) 4) = indexNextEmpty := by
      rw [show k = (h.length - 1) / 16 from by omega, hd.tail]
      decide
    simp [Filepage.indexChain, sizeofPageIndexItem, sizeofUInt, hnext]
  | succ d ih =>
    intro k fuel hk hfuel
    obtain ⟨fuel, rfl⟩ : ∃ n, fuel = n + 1 := ⟨fuel - 1, by omega⟩
    have hnext : ofLe (p.file.slice (blockOffset h k + 768) 4) = blockOffset h (k + 1) := by
      rw [hs.index.chain k (by omega), ofLe_le_of_lt (hlt (k + 1) (by omega))]
    -- a block never starts at the end mark, which lies inside the header
    have hmark : blockOffset h (k + 1) ≠ indexNextEmpty := by
      simp only [blockOffset, indexNextEmpty]
      omega
    simp only [Filepage.indexChain, sizeofPageIndexItem, sizeofUInt, hnext, if_neg hmark,
      ih (k + 1) fuel (by omega) (by omega)]
    rw [List.range_succ_eq_map (n := d + 1), List.map_cons, List.map_map]
    simp only [Nat.add_zero, List.cons.injEq, true_and]
    apply List.map_congr_left
    intro i _
    simp only [Function.comp_apply, Nat.succ_eq_add_one, Nat.add_assoc, Nat.add_comm 1 i]

/-- The blocks found in the file are the blocks of the layout. -/
theorem Stored.indexBlocks_eq (hs : Stored h p) (hd : Data h ((h.length - 1) / 16) p) :
    p.indexBlocks = (List.range ((h.length - 1) / 16 + 1)).map (blockOffset h) := by
  have hstart : blockOffset h 0 = sizeofPageHeader := by
    simp [blockOffset, dataBefore, sizeofPageHeader]
  by_cases hzero : h.length = 0
  · -- no fuel is needed for the single block of an empty page
    simp [Filepage.indexBlocks, hs.index.elements, hzero, Filepage.indexChain, hstart,
      List.range_succ]
  · have := hs.indexChain_eq hd ((h.length - 1) / 16) 0 h.length (by omega) (by omega)
    rw [Filepage.indexBlocks, hs.index.elements, hs.index.grow, ← hstart, this]
    simp

/-- The index items found in the file are those of the history. -/
theorem Stored.indexItems_eq (hs : Stored h p) (hd : Data h ((h.length - 1) / 16) p)
    (hnames : QuidNames h) :
    p.indexItems = (List.range h.length).map fun j =>
      { name := (h.getD j ([], [])).1, size := (h.getD j ([], [])).2.length,
        item := itemOffset h j, flags := indexFlagNil } := by
  rw [Filepage.indexItems, hs.index.elements, hs.index.grow, hs.indexBlocks_eq hd]
  apply List.map_congr_left
  intro j hj
  rw [List.mem_range] at hj
  obtain ⟨hblock, hitem⟩ := hs.index.items j hj
  have hgetD : ((List.range ((h.length - 1) / 16 + 1)).map (blockOffset h)).getD (j / 16) 0
      = blockOffset h (j / 16) := by
    rw [List.getD_eq_getElem _ _ (by simp; omega)]
    simp
  rw [hgetD]
  simp only [sizeofPageIndexItem, hitem]
  exact hs.decode_itemAt hnames hj

/-- An index block and its pointer lie in 772 bytes. -/
theorem block_bounds {k : ℕ} {e : Extent} (he : e ∈ [(⟨k, 768⟩ : Extent), ⟨k + 768, 4⟩]) :
    k ≤ e.start ∧ e.stop ≤ k + 772 := by
  simp only [List.mem_cons, List.not_mem_nil, or_false] at he
  rcases he with rfl | rfl
  · exact ⟨le_rfl, by simp only [Extent.stop]; omega⟩
  · exact ⟨by simp only; omega, by simp only [Extent.stop]; omega⟩

/-- In the layout of a history nothing overlaps. -/
theorem pairwise_disjoint_extents (h : History) (b : ℕ) :
    ((⟨0, 28⟩ : Extent) ::
      (((List.range (b + 1)).map (blockOffset h)).flatMap (fun k => [⟨k, 768⟩, ⟨k + 768, 4⟩]) ++
        (List.range h.length).map fun j =>
          ⟨itemOffset h j, (h.getD j ([], [])).2.length⟩)).Pairwise
      fun a b => Disjoint a.bytes b.bytes := by
  have hfirst : ∀ k, 28 ≤ blockOffset h k := fun k => by simp only [blockOffset]; omega
  rw [List.pairwise_cons, List.pairwise_append]
  refine ⟨?_, ?_, ?_, ?_⟩
  · -- the header lies before everything else
    intro e he
    apply Extent.disjoint_of_stop_le
    rcases List.mem_append.mp he with he | he
    · obtain ⟨_, hk, he⟩ := List.mem_flatMap.mp he
      obtain ⟨k, -, rfl⟩ := List.mem_map.mp hk
      exact (hfirst k).trans (block_bounds he).1
    · obtain ⟨j, -, rfl⟩ := List.mem_map.mp he
      simp only [Extent.stop, itemOffset]
      omega
  · -- blocks and pointers
    rw [List.pairwise_flatMap]
    refine ⟨fun k _ => ?_, ?_⟩
    · simp only [List.pairwise_cons, List.mem_singleton, forall_eq, List.not_mem_nil,
        IsEmpty.forall_iff, implies_true, List.Pairwise.nil, and_true]
      exact Extent.disjoint_of_stop_le le_rfl
    · rw [List.pairwise_map]
      refine List.pairwise_lt_range.imp fun {k l} hkl => ?_
      intro x hx y hy
      apply Extent.disjoint_of_stop_le
      calc x.stop ≤ blockOffset h k + 772 := (block_bounds hx).2
        _ ≤ blockOffset h l := blockOffset_add_le h hkl
        _ ≤ y.start := (block_bounds hy).1
  · -- data
    rw [List.pairwise_map]
    refine List.Pairwise.imp_of_mem ?_ List.pairwise_lt_range
    intro i j hi _ hij
    exact Extent.disjoint_of_stop_le (itemOffset_add_le h hij (List.mem_range.mp hi))
  · -- a block comes before the data of its items and behind the data of earlier ones
    intro x hx y hy
    obtain ⟨_, hk, hx⟩ := List.mem_flatMap.mp hx
    obtain ⟨k, -, rfl⟩ := List.mem_map.mp hk
    obtain ⟨j, hj, rfl⟩ := List.mem_map.mp hy
    rw [List.mem_range] at hj
    rcases le_or_gt k (j / 16) with hkj | hjk
    · apply Extent.disjoint_of_stop_le
      exact (block_bounds hx).2.trans (blockOffset_add_le_itemOffset h hkj)
    · apply Extent.disjoint_of_le_start
      exact (itemOffset_add_le_blockOffset h hj hjk).trans (block_bounds hx).1

/-- The extents read off the file are those of the layout. -/
theorem Stored.extents_eq (hs : Stored h p) (hd : Data h ((h.length - 1) / 16) p)
    (hnames : QuidNames h) :
    p.extents = ⟨0, 28⟩ ::
      (((List.range ((h.length - 1) / 16 + 1)).map (blockOffset h)).flatMap
          (fun k => [⟨k, 768⟩, ⟨k + 768, 4⟩]) ++
        (List.range h.length).map fun j =>
          ⟨itemOffset h j, (h.getD j ([], [])).2.length⟩) := by
  simp only [Filepage.extents, hs.indexBlocks_eq hd, hs.indexItems_eq hd hnames, hs.index.grow,
    sizeofPageHeader, sizeofPageIndexItem, sizeofUInt, List.map_map, Function.comp_def]

/-- Everything the layout occupies lies inside the file. -/
theorem Stored.stop_le_size (hs : Stored h p) (hd : Data h ((h.length - 1) / 16) p)
    (hnames : QuidNames h) :
    ∀ e ∈ p.extents, e.stop ≤ p.file.size := by
  intro e he
  have hsize := hs.index.size
  refine le_trans ?_ hsize
  rw [hs.extents_eq hd hnames, List.mem_cons, List.mem_append] at he
  rcases he with rfl | he | he
  · simp only [Extent.stop, freeOffset]
    omega
  · obtain ⟨_, hk, he⟩ := List.mem_flatMap.mp he
    obtain ⟨k, hrange, rfl⟩ := List.mem_map.mp hk
    rw [List.mem_range] at hrange
    exact (block_bounds he).2.trans (blockOffset_add_le_freeOffset h (by omega) (by omega))
  · obtain ⟨j, hj, rfl⟩ := List.mem_map.mp he
    rw [List.mem_range] at hj
    exact itemOffset_add_le_freeOffset h hj (hs.index.items j hj).1

/-- **The representation invariant of a page.** In every state reached from `create` by calls within
the bounds of a page, the header, the index blocks, their pointers and the data of all stored items
are pairwise disjoint ranges of the file, the index lists exactly the stored items, and `retrieveItem`
returns what was stored last under a name. -/
theorem filepage_representation {path : Path} {h : History} {p : Filepage}
    (hr : Run Filepage.store Filepage.PageGuard (Filepage.createDefault path) h p) :
    p.extents.Pairwise (fun a b => Disjoint a.bytes b.bytes) ∧
    (∀ e ∈ p.extents, e.stop ≤ p.file.size) ∧
    p.indexItems.map (fun i => (i.name, i.size)) = h.map (fun op => (op.1, op.2.length)) ∧
    ∀ name, p.retrieveItem name = lastStored h name := by
  have hnames := QuidNames.of_run (fun _ _ hop => ⟨hop.1, hop.2.1⟩) hr
  obtain ⟨hs, hd⟩ := Data.of_run (hr.mono fun _ _ hop => hop.dataGuard)
  refine ⟨?_, hs.stop_le_size hd hnames, ?_, hd.retrieveItem hs⟩
  · rw [hs.extents_eq hd hnames]
    exact pairwise_disjoint_extents h _
  · rw [hs.indexItems_eq hd hnames, List.map_map]
    refine List.ext_getElem (by simp) fun j h₁ h₂ => ?_
    have hj : j < h.length := by simpa using h₂
    simp [hj]

/-- A page with a second index block: the name stored twice is found with its new data, the item of
the second block with its own. -/
theorem filepage_representation_twoBlocks :
    ∃ p, Run Filepage.store Filepage.PageGuard (Filepage.createDefault []) twoBlocks p ∧
      p.extents.Pairwise (fun a b => Disjoint a.bytes b.bytes) ∧
      p.retrieveItem (quidName 1) = some [0, 255] ∧
      p.retrieveItem (quidName 17) = some [17, 17, 17] ∧ p.retrieveItem (quidName 18) = none := by
  obtain ⟨p, hrun, -⟩ := fitsPage_twoBlocks.run fun p op hlen hnul hcount hfree =>
    (⟨hlen, hnul, hcount, hfree⟩ : Filepage.PageGuard p op)
  obtain ⟨hdisjoint, -, -, hlast⟩ := filepage_representation hrun
  exact ⟨p, hrun, hdisjoint, by rw [hlast]; decide, by rw [hlast]; decide, by rw [hlast]; decide⟩

end Mavicona.Cynder
