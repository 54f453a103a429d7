import Mavicona.Cynder.PageInvariant

/-!
# Runs of `storeItem`

`Stored h p` is the page invariant between calls: the index of `h` is in place, in exactly the blocks
its items need, and the header on disk describes the page. `Stored.storeItem` and `Data.storeItem` are
the step lemmas; the run lemmas lift them to every page reached from `create` by guarded calls.

The guards speak about the offsets a call computes, as exact numbers: `OffsetFits` says that the first
free offset stays below `2 ^ 32`, `AllocFits` the same of the offset of `growPage`'s allocation.
-/

namespace Mavicona.Cynder

open Bytes Layout ByteFile Trace

namespace Filepage

/-- Where `storeItem` puts the data of the next item: behind the index block it allocates first, if
any. The number is exact, not truncated to 32 bits. -/
def dataStart (p : Filepage) : ℕ :=
  if p.lastIndexFull then p.firstFree + (sizeofPageIndexItem * p.grow + sizeofUInt) else p.firstFree

/-- Storing `data` keeps the first free offset below `2 ^ 32`. -/
def OffsetFits (p : Filepage) (data : Bytes) : Prop := p.dataStart + data.length < 2 ^ 32

/-- If an index block is allocated, the 32-bit offset of the allocation byte does not wrap. -/
def AllocFits (p : Filepage) : Prop :=
  p.lastIndexFull → p.dataStart + p.itemSize * p.grow < 2 ^ 32

/-- One call of `storeItem`. -/
def store (p : Filepage) (op : Bytes × Bytes) : Filepage := p.storeItem op.1 op.2

end Filepage

/-! ## The counters -/

/-- The first free offset behind the items of a history, in exactly the blocks they need. -/
def Layout.endOffset (h : History) : ℕ := freeOffset h ((h.length - 1) / 16)

/-- The counters of page `p` are those of history `h`, in the object and in the header on disk. This
much is kept whatever the names are, and is found again when the file is opened. -/
structure Counted (h : History) (p : Filepage) : Prop where
  grow : p.grow = 16
  itemSize : p.itemSize = 2 ^ 23
  pageFull : p.pageFull = false
  elements : p.elements = h.length
  firstFree : p.firstFree = endOffset h
  header : p.file.slice 0 28 = p.header.encode
  size : 28 ≤ p.file.size
  count : h.length < 2 ^ 16
  free_lt : endOffset h < 2 ^ 32

namespace Counted

variable {h : History} {p : Filepage} {name data : Bytes}

theorem lastIndexFull_iff (hc : Counted h p) :
    p.lastIndexFull = true ↔ h.length % 16 = 0 ∧ 1 < h.length := by
  simp [Filepage.lastIndexFull, hc.grow, hc.elements]

/-- The exact data offset of the next item is the layout's. -/
theorem dataStart_eq (hc : Counted h p) : p.dataStart = freeOffset h (h.length / 16) := by
  have hfull := hc.lastIndexFull_iff
  by_cases hg : p.lastIndexFull = true
  · have hb : h.length / 16 = (h.length - 1) / 16 + 1 := by
      have := hfull.mp hg
      omega
    rw [Filepage.dataStart, if_pos hg, hc.grow, hc.firstFree, hb, freeOffset_succ]
    rfl
  · have hb : h.length / 16 = (h.length - 1) / 16 := by
      have := mt hfull.mpr hg
      omega
    rw [Filepage.dataStart, if_neg hg, hc.firstFree, endOffset, hb]

/-- The header is read back as written, also with the full flag set. -/
theorem decode_header (hc : Counted h p) (full : Bool) :
    PageHeader.decode ({ p with pageFull := full } : Filepage).header.encode
      = ({ p with pageFull := full } : Filepage).header := by
  have h₁ := hc.count
  have h₂ := hc.free_lt
  apply Filepage.decode_encode_header
  · show pageMagic.length = 8
    decide
  · simpa [Filepage.header, hc.elements] using h₁
  · simpa [Filepage.header, hc.firstFree] using h₂
  · simp [Filepage.header, hc.grow]
  · simp [Filepage.header, hc.itemSize]
  · show (if full = true then pageFlagFull else pageFlagNil) < 2 ^ 32
    cases full <;> decide

/-- The end of the data after one more item. -/
theorem endOffset_append (hc : Counted h p) (op : Bytes × Bytes) :
    endOffset (h ++ [op]) = p.dataStart + op.2.length := by
  have hlen : (h ++ [op]).length - 1 = h.length := by simp
  rw [endOffset, hlen, freeOffset_append, hc.dataStart_eq]

/-- The header on disk is the last thing `appendItem` writes. -/
theorem header_appendItem (p : Filepage) (name data : Bytes) (hgrow : p.grow = 16) :
    (p.appendItem name data).file.slice 0 28 = (p.appendItem name data).header.encode ∧
      28 ≤ (p.appendItem name data).file.size := by
  have hfile := congrArg Filepage.file (p.appendItem_eq name data hgrow)
  rw [hfile]
  constructor
  · exact slice_writeAll_of_mem _
      [(_, (p.newItem name data).encode), (_, data)] (Filepage.length_encode_header _) (by simp)
  · have hlast : (0, (p.appendItem name data).header.encode) ∈ p.appendWrites name data := by
      simp [Filepage.appendWrites]
    have := le_size_writeAll p.file hlast (by simp [PageHeader.encode, padTo])
    simpa using this

/-- The counters behind the grow test. -/
theorem ready (hc : Counted h p) (hlt : p.dataStart < 2 ^ 32) :
    let q := if p.lastIndexFull then p.growPage else p
    q.grow = 16 ∧ q.itemSize = 2 ^ 23 ∧ q.pageFull = false ∧ q.elements = h.length ∧
      q.firstFree = p.dataStart := by
  have hgrow := hc.grow
  by_cases hg : p.lastIndexFull = true
  · have hstart : p.dataStart = p.firstFree + 772 := by
      rw [Filepage.dataStart, if_pos hg, hgrow]
      rfl
    have hcounters := p.growPage_counters hgrow (hstart ▸ hlt)
    rw [if_pos hg]
    exact ⟨hgrow, hc.itemSize, hc.pageFull, hc.elements, hcounters.1.trans hstart.symm⟩
  · rw [if_neg hg, Filepage.dataStart, if_neg hg]
    exact ⟨hgrow, hc.itemSize, hc.pageFull, hc.elements, rfl⟩

/-- `storeItem` counts the item. -/
theorem storeItem (hc : Counted h p) (hname : name.length ≤ 40) (hcount : h.length + 1 < 2 ^ 16)
    (hfit : p.OffsetFits data) : Counted (h ++ [(name, data)]) (p.storeItem name data) := by
  have hfit' : p.dataStart + data.length < 2 ^ 32 := hfit
  have hend := hc.endOffset_append (name, data)
  obtain ⟨hgrow, hitem, hfull, helements, hfree⟩ := hc.ready (by omega)
  rw [Filepage.storeItem, if_neg (by omega)]
  obtain ⟨hheader, hsize⟩ := header_appendItem _ name data hgrow
  have heq := Filepage.appendItem_eq _ name data hgrow
  refine ⟨?_, ?_, ?_, ?_, ?_, hheader, hsize, by simpa using hcount, ?_⟩
  · rw [heq]
    exact hgrow
  · rw [heq]
    exact hitem
  · rw [heq]
    exact hfull
  · rw [heq]
    simp only [helements, u16_of_lt hcount, List.length_append, List.length_singleton]
  · rw [heq]
    simp only [hfree, hend, u32_of_lt hfit']
  · rw [hend]
    exact hfit'

end Counted

/-! ## The page between calls -/

/-- The page invariant between calls. -/
structure Stored (h : History) (p : Filepage) : Prop where
  index : Index h ((h.length - 1) / 16) p
  header : p.file.slice 0 28 = p.header.encode
  count : h.length < 2 ^ 16
  free_lt : freeOffset h ((h.length - 1) / 16) < 2 ^ 32

namespace Stored

variable {h : History} {p : Filepage} {name data : Bytes}

theorem counted (hs : Stored h p) : Counted h p where
  grow := hs.index.grow
  itemSize := hs.index.itemSize
  pageFull := hs.index.pageFull
  elements := hs.index.elements
  firstFree := hs.index.firstFree
  header := hs.header
  size := by
    have := hs.index.size
    simp only [freeOffset] at this
    omega
  count := hs.count
  free_lt := hs.free_lt

theorem dataStart_eq (hs : Stored h p) : p.dataStart = freeOffset h (h.length / 16) :=
  hs.counted.dataStart_eq

/-- When the grow test fires, the blocks in use are exactly full. -/
theorem grow_blocks (hs : Stored h p) (hg : p.lastIndexFull = true) :
    16 * ((h.length - 1) / 16 + 1) = h.length ∧ h.length / 16 = (h.length - 1) / 16 + 1 := by
  have := hs.counted.lastIndexFull_iff.mp hg
  omega

/-- When the grow test does not fire, the next item goes to the last block. -/
theorem keep_blocks (hs : Stored h p) (hg : ¬ p.lastIndexFull = true) :
    h.length / 16 = (h.length - 1) / 16 := by
  have := mt hs.counted.lastIndexFull_iff.mpr hg
  omega

/-- Behind the grow test the last block has a free slot. -/
theorem ready (hs : Stored h p) (hfit : p.OffsetFits data) :
    Index h (h.length / 16) (if p.lastIndexFull then p.growPage else p) := by
  have hstart := hs.dataStart_eq
  have hlt : freeOffset h (h.length / 16) < 2 ^ 32 := by
    have : p.dataStart + data.length < 2 ^ 32 := hfit
    omega
  by_cases hg : p.lastIndexFull = true
  · obtain ⟨hblocks, hdiv⟩ := hs.grow_blocks hg
    rw [if_pos hg, hdiv]
    rw [hdiv, freeOffset_succ] at hlt
    exact hs.index.growPage hblocks hlt
  · rw [if_neg hg, hs.keep_blocks hg]
    exact hs.index

/-- `storeItem` adds the item to the history. -/
theorem storeItem (hs : Stored h p) (hname : name.length ≤ 40) (hcount : h.length + 1 < 2 ^ 16)
    (hfit : p.OffsetFits data) : Stored (h ++ [(name, data)]) (p.storeItem name data) := by
  have hready := hs.ready hfit
  have hlt : freeOffset h (h.length / 16) + data.length < 2 ^ 32 := hs.dataStart_eq ▸ hfit
  have hlen : (h ++ [(name, data)]).length - 1 = h.length := by simp
  rw [Filepage.storeItem, if_neg (by omega)]
  refine ⟨?_, ?_, by simpa using hcount, ?_⟩
  · rw [hlen]
    exact hready.appendItem hcount hlt
  · exact (Counted.header_appendItem _ name data hready.grow).1
  · rw [hlen, freeOffset_append]
    exact hlt

/-- A fresh page holds the empty history. -/
theorem createDefault (path : Path) : Stored [] (Filepage.createDefault path) where
  index :=
    { grow := rfl
      itemSize := rfl
      pageFull := rfl
      elements := rfl
      contents := rfl
      lastIndex := rfl
      firstFree := rfl
      size := by
        show freeOffset [] 0 ≤ (Filepage.createDefault []).file.size
        decide
      blocks := by decide
      chain := fun k hk => absurd hk (by simp)
      items := fun j hj => absurd hj (by simp) }
  header := by
    show (Filepage.createDefault []).file.slice 0 28 = (Filepage.createDefault []).header.encode
    decide
  count := by decide
  free_lt := by decide

end Stored

namespace Data

variable {h : History} {p : Filepage} {name data : Bytes}

/-- `storeItem` keeps all data in place and adds the new one. -/
theorem storeItem (hd : Data h ((h.length - 1) / 16) p) (hs : Stored h p)
    (hname : name.length ≤ 40) (hfit : p.OffsetFits data) (halloc : p.AllocFits) :
    Data (h ++ [(name, data)]) (((h ++ [(name, data)]).length - 1) / 16)
      (p.storeItem name data) := by
  have hready := hs.ready hfit
  have hlen : (h ++ [(name, data)]).length - 1 = h.length := by simp
  rw [Filepage.storeItem, if_neg (by omega), hlen]
  refine Data.appendItem ?_ hready
  by_cases hg : p.lastIndexFull = true
  · obtain ⟨hblocks, hdiv⟩ := hs.grow_blocks hg
    have hlt := halloc hg
    rw [hs.dataStart_eq, hs.index.grow, hs.index.itemSize, hdiv, freeOffset_succ] at hlt
    rw [if_pos hg, hdiv]
    exact hd.growPage hs.index hblocks hlt
  · rw [if_neg hg, hs.keep_blocks hg]
    exact hd

theorem createDefault (path : Path) : Data [] 0 (Filepage.createDefault path) where
  data := fun j hj => absurd hj (by simp)
  tail := by
    show (Filepage.createDefault []).file.slice 796 4 = le 4 indexNextEmpty
    decide

/-- What the contents map leads to is the data stored last under the name. -/
theorem retrieveItem (hd : Data h ((h.length - 1) / 16) p) (hs : Stored h p) (name : Bytes) :
    p.retrieveItem name = lastStored h name := by
  rw [Filepage.retrieveItem, hs.index.contents]
  rcases contentsOf_cases h name with ⟨hnone, hlast⟩ | ⟨j, hj, hlast, hsome⟩
  · rw [hnone, hlast]
  · rw [hsome, hlast]
    simp only [FileStream.fread_zeros, FileStream.seekSet_file, FileStream.seekSet_pos,
      FileStream.ofFile_file]
    rw [hd.data j hj]

end Data

/-! ## Runs -/

/-- A call that keeps the index in order: the name fits, the 16-bit element count and the first free
offset do not wrap. -/
def IndexGuard (p : Filepage) (op : Bytes × Bytes) : Prop :=
  op.1.length ≤ 40 ∧ p.elements + 1 < 2 ^ 16 ∧ p.OffsetFits op.2

/-- A call that also keeps the data in place. -/
def DataGuard (p : Filepage) (op : Bytes × Bytes) : Prop := IndexGuard p op ∧ p.AllocFits

/-- Every page reached by calls that keep the index in order is in the layout of its history. -/
theorem Stored.of_run {path : Path} {h : History} {p : Filepage}
    (hr : Run Filepage.store IndexGuard (Filepage.createDefault path) h p) : Stored h p := by
  refine hr.invariant (Stored.createDefault path) fun h p op hs hop => ?_
  obtain ⟨hname, hcount, hfit⟩ := hop
  rw [hs.index.elements] at hcount
  exact hs.storeItem hname hcount hfit

/-- Every page reached by calls that keep the data in place also holds the data of its history. -/
theorem Data.of_run {path : Path} {h : History} {p : Filepage}
    (hr : Run Filepage.store DataGuard (Filepage.createDefault path) h p) :
    Stored h p ∧ Data h ((h.length - 1) / 16) p := by
  refine hr.invariant (P := fun h p => Stored h p ∧ Data h ((h.length - 1) / 16) p)
    ⟨Stored.createDefault path, Data.createDefault path⟩ fun h p op hsd hop => ?_
  obtain ⟨hs, hd⟩ := hsd
  obtain ⟨⟨hname, hcount, hfit⟩, halloc⟩ := hop
  have hcount' : h.length + 1 < 2 ^ 16 := hs.index.elements ▸ hcount
  exact ⟨hs.storeItem hname hcount' hfit, hd.storeItem hs hname hfit halloc⟩

/-- All names of the history have 36 bytes and no NUL. -/
def QuidNames (h : History) : Prop :=
  ∀ j < h.length, (h.getD j ([], [])).1.length = 36 ∧ 0 ∉ (h.getD j ([], [])).1

theorem QuidNames.append {h : History} (hnames : QuidNames h) {op : Bytes × Bytes}
    (hlen : op.1.length = 36) (hnul : 0 ∉ op.1) : QuidNames (h ++ [op]) := by
  intro j hj
  rcases Nat.lt_succ_iff_lt_or_eq.mp (by simpa using hj : j < h.length + 1) with hj | rfl
  · rw [List.getD_append _ _ _ _ hj]
    exact hnames j hj
  · have hget : (h ++ [op]).getD h.length ([], []) = op := by simp
    rw [hget]
    exact ⟨hlen, hnul⟩

/-- A run whose guard asks for 36-byte NUL-free names has such names in its history. -/
theorem QuidNames.of_run {ok : Filepage → Bytes × Bytes → Prop} {p₀ p : Filepage} {h : History}
    (hok : ∀ p op, ok p op → op.1.length = 36 ∧ 0 ∉ op.1) (hr : Run Filepage.store ok p₀ h p) :
    QuidNames h := by
  refine hr.invariant (P := fun h _ => QuidNames h) (fun j hj => absurd hj (by simp)) ?_
  intro h p op ih hop
  obtain ⟨hlen, hnul⟩ := hok p op hop
  exact ih.append hlen hnul

/-- A history that fits a page: 36-byte NUL-free names, fewer than 65536 items, and the first free
offset, with the room of one allocation behind it, below `2 ^ 32`. -/
structure FitsPage (h : History) : Prop where
  names : ∀ op ∈ h, op.1.length = 36 ∧ 0 ∉ op.1
  count : h.length < 2 ^ 16
  free_lt : freeOffset h (h.length / 16) + 2 ^ 27 < 2 ^ 32

theorem FitsPage.of_append {h : History} {op : Bytes × Bytes} (hfits : FitsPage (h ++ [op])) :
    FitsPage h := by
  obtain ⟨hnames, hcount, hfree⟩ := hfits
  rw [freeOffset_append] at hfree
  have hlen : (h ++ [op]).length = h.length + 1 := by simp
  have hblocks : freeOffset h (h.length / 16) ≤ freeOffset h ((h.length + 1) / 16) := by
    simp only [freeOffset]
    omega
  rw [hlen] at hcount hfree
  exact ⟨fun o ho => hnames o (List.mem_append_left _ ho), by omega, by omega⟩

/-- What a page may ask of the last call of a history that fits it. -/
theorem FitsPage.last {h : History} {p : Filepage} {op : Bytes × Bytes} (hfits : FitsPage (h ++ [op]))
    (hc : Counted h p) :
    op.1.length = 36 ∧ 0 ∉ op.1 ∧ p.elements + 1 < 2 ^ 16 ∧
      p.dataStart + op.2.length + p.itemSize * p.grow < 2 ^ 32 := by
  obtain ⟨hname, hnul⟩ := hfits.names op (by simp)
  have hcount := hfits.count
  have hfree := hfits.free_lt
  have hlen : (h ++ [op]).length = h.length + 1 := by simp
  rw [hlen] at hcount
  rw [hlen, freeOffset_append] at hfree
  have hstart : p.dataStart ≤ freeOffset h ((h.length + 1) / 16) := by
    rw [hc.dataStart_eq]
    simp only [freeOffset]
    omega
  rw [hc.elements, hc.itemSize, hc.grow]
  exact ⟨hname, hnul, hcount, by omega⟩

/-- A history that fits a page is a run, for every guard that asks for no more than that. -/
theorem FitsPage.run {ok : Filepage → Bytes × Bytes → Prop} {path : Path} {h : History}
    (hok : ∀ p op, op.1.length = 36 → 0 ∉ op.1 → p.elements + 1 < 2 ^ 16 →
      p.dataStart + op.2.length + p.itemSize * p.grow < 2 ^ 32 → ok p op)
    (hfits : FitsPage h) :
    ∃ p, Run Filepage.store ok (Filepage.createDefault path) h p ∧ Counted h p := by
  induction h using List.reverseRecOn with
  | nil => exact ⟨_, .nil, (Stored.createDefault path).counted⟩
  | append_singleton h op ih =>
    obtain ⟨p, hrun, hc⟩ := ih hfits.of_append
    obtain ⟨hname, hnul, hcount, hfree⟩ := hfits.last hc
    have hfit : p.OffsetFits op.2 := by
      unfold Filepage.OffsetFits
      omega
    exact ⟨_, .snoc hrun (hok p op hname hnul hcount hfree),
      hc.storeItem (by omega) (hc.elements ▸ hcount) hfit⟩

/-- A name of 36 bytes that ends in `k`. -/
def quidName (k : UInt8) : Bytes := List.replicate 35 97 ++ [k]

/-- A history that needs a second index block: seventeen names, then the first of them again. -/
def twoBlocks : History :=
  ([1, 2, 3, 4, 5, 6, 7, 8, 9, 10, 11, 12, 13, 14, 15, 16, 17].map fun k =>
    (quidName k, [k, k, k])) ++ [(quidName 1, [0, 255])]

theorem fitsPage_twoBlocks : FitsPage twoBlocks := by
  refine ⟨fun op hop => ?_, by decide, by decide⟩
  rcases List.mem_append.mp hop with hop | hop
  · obtain ⟨k, hk, rfl⟩ := List.mem_map.mp hop
    have hpos : k ≠ 0 := by
      rintro rfl
      simp at hk
    simp [quidName, hpos.symm]
  · obtain rfl := List.mem_singleton.mp hop
    simp [quidName]

/-- The index item of a stored item, read back. -/
theorem Stored.decode_itemAt {h : History} {p : Filepage} {j : ℕ} (hs : Stored h p)
    (hnames : QuidNames h) (hj : j < h.length) :
    PageIndexItem.decode (itemAt h j).encode
      = { name := (h.getD j ([], [])).1, size := (h.getD j ([], [])).2.length,
          item := itemOffset h j, flags := indexFlagNil } := by
  obtain ⟨hlen, hnul⟩ := hnames j hj
  have hend := itemOffset_add_le_freeOffset h hj (hs.index.items j hj).1
  have hfree := hs.free_lt
  rw [itemAt, cstr_eq_self hnul]
  apply Filepage.decode_encode_item hlen
  · show (h.getD j ([], [])).2.length < 2 ^ 32
    omega
  · show itemOffset h j < 2 ^ 32
    omega
  · show indexFlagNil < 2 ^ 8
    decide

end Mavicona.Cynder
