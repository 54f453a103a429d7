import Mavicona.Common.Run
import Mavicona.Cynder.PageLayout

/-!
# The page object keeps its file in the layout

`Index h b p` relates a page to its history: the counters are the layout's, the blocks `0 … b` are
chained through the file, and every stored item has its index item there. `Data h b p` adds what the
data area holds. `storeItem` is cut at the grow test: `growPage` moves from `b` blocks to `b + 1`
(`Index.growPage`, `Data.growPage`), `appendItem` adds one item (`Index.appendItem`,
`Data.appendItem`).

The two are kept apart because they need different bounds. The index survives as long as the first
free offset does not wrap. The data also needs the 32-bit offset of `growPage`'s allocation byte not to
wrap: the byte is written relative to the end of the previous block, so it never meets an older block,
but with a wrapped offset it lands in the data of the items stored last.
-/

namespace Mavicona.Cynder

open Bytes Layout ByteFile

namespace Filepage

/-! ## Images -/

@[simp] theorem length_encode_header (h : PageHeader) : h.encode.length = 28 := by
  simp [PageHeader.encode]

@[simp] theorem length_encode_item (i : PageIndexItem) : i.encode.length = 48 := by
  simp [PageIndexItem.encode]

/-- A header whose members fit their fields is read back as written. -/
theorem decode_encode_header {h : PageHeader} (hmagic : h.magic.length = 8)
    (helements : h.elements < 2 ^ 16) (hfirst : h.firstFree < 2 ^ 32) (hgrow : h.growItems < 2 ^ 32)
    (hitem : h.itemSize < 2 ^ 32) (hflags : h.flags < 2 ^ 32) :
    PageHeader.decode h.encode = h := by
  have h₁ : ofLe (le 2 h.elements) = h.elements := ofLe_le_of_lt (by omega)
  have h₂ : ofLe (le 4 h.firstFree) = h.firstFree := ofLe_le_of_lt (by omega)
  have h₃ : ofLe (le 4 h.growItems) = h.growItems := ofLe_le_of_lt (by omega)
  have h₄ : ofLe (le 4 h.itemSize) = h.itemSize := ofLe_le_of_lt (by omega)
  have h₅ : ofLe (le 4 h.flags) = h.flags := ofLe_le_of_lt (by omega)
  simp [PageHeader.decode, PageHeader.encode, field_append, field_zero_append, field_self,
    padTo_eq_self hmagic, hmagic, h₁, h₂, h₃, h₄, h₅]

/-- An index item whose name fills its array is read back as written. -/
theorem decode_encode_item {i : PageIndexItem} (hname : i.name.length = 36)
    (hsize : i.size < 2 ^ 32) (hitem : i.item < 2 ^ 32) (hflags : i.flags < 2 ^ 8) :
    PageIndexItem.decode i.encode = i := by
  have h₁ : ofLe (le 4 i.size) = i.size := ofLe_le_of_lt (by omega)
  have h₂ : ofLe (le 4 i.item) = i.item := ofLe_le_of_lt (by omega)
  have h₃ : ofLe (le 1 i.flags) = i.flags := ofLe_le_of_lt (by omega)
  simp [PageIndexItem.decode, PageIndexItem.encode, field_append, field_zero_append,
    padTo_eq_self hname, hname, h₁, h₂, h₃]

/-- The sum is taken in 32 bits, so it never exceeds `UINT_MAX`: no page is ever declared full. -/
theorem shouldClose_eq (p : Filepage) : p.shouldClose = p := by
  have hlt : u32 (p.firstFree + p.itemSize) < 2 ^ 32 := Nat.mod_lt _ (by decide)
  rw [shouldClose, if_neg]
  simp only [uintMax]
  omega

/-! ## The writes of the two halves of `storeItem` -/

/-- The writes of `growPage` in a page whose counters do not wrap. -/
def growWrites (p : Filepage) : List (ℕ × Bytes) :=
  [(p.firstFree + 768, le 4 indexNextEmpty), (p.lastIndex + 768, le 4 p.firstFree),
    (p.lastIndex + 772 + u32 (p.firstFree + 772 + 2 ^ 27), [0]), (0, p.growPage.header.encode)]

/-- The writes of `appendItem`. -/
def appendWrites (p : Filepage) (name data : Bytes) : List (ℕ × Bytes) :=
  [(p.lastIndex + 48 * (p.elements % 16), (p.newItem name data).encode), (p.firstFree, data),
    (0, (p.appendItem name data).header.encode)]

theorem growPage_file (p : Filepage) (hgrow : p.grow = 16) (hitem : p.itemSize = 2 ^ 23)
    (hfree : p.firstFree + 772 < 2 ^ 32) :
    p.growPage.file = p.file.writeAll p.growWrites := by
  have h₁ : u32 (p.firstFree + 768) = p.firstFree + 768 := u32_of_lt (by omega)
  have h₂ : u32 (p.firstFree + 772) = p.firstFree + 772 := u32_of_lt hfree
  simp [growWrites, growPage, writeHeader, header, sizeofPageIndexItem, sizeofUInt, hgrow, hitem, h₁,
    h₂, Nat.add_assoc]

theorem growPage_counters (p : Filepage) (hgrow : p.grow = 16)
    (hfree : p.firstFree + 772 < 2 ^ 32) :
    p.growPage.firstFree = p.firstFree + 772 ∧ p.growPage.lastIndex = p.firstFree := by
  have h₁ : u32 (p.firstFree + 768) = p.firstFree + 768 := u32_of_lt (by omega)
  have h₂ : u32 (p.firstFree + 772) = p.firstFree + 772 := u32_of_lt hfree
  simp [growPage, writeHeader, sizeofPageIndexItem, sizeofUInt, hgrow, h₁, h₂]

/-- What `appendItem` does to a page of default parameters. -/
theorem appendItem_eq (p : Filepage) (name data : Bytes) (hgrow : p.grow = 16) :
    p.appendItem name data =
      { p with
        file := p.file.writeAll (p.appendWrites name data)
        firstFree := u32 (p.firstFree + data.length)
        contents := Function.update p.contents name (some (p.firstFree, u32 data.length))
        elements := u16 (p.elements + 1) } := by
  simp [appendWrites, appendItem, newItem, shouldClose_eq, writeHeader, header, sizeofPageIndexItem,
    hgrow]

end Filepage

/-! ## The index -/

/-- The index of page `p` holds history `h` in the blocks `0 … b`. -/
structure Index (h : History) (b : ℕ) (p : Filepage) : Prop where
  grow : p.grow = 16
  itemSize : p.itemSize = 2 ^ 23
  pageFull : p.pageFull = false
  elements : p.elements = h.length
  contents : p.contents = contentsOf h
  lastIndex : p.lastIndex = blockOffset h b
  firstFree : p.firstFree = freeOffset h b
  /-- The file reaches behind everything that was allocated. -/
  size : freeOffset h b ≤ p.file.size
  blocks : 16 * b ≤ h.length
  chain : ∀ k < b, p.file.slice (blockOffset h k + 768) 4 = le 4 (blockOffset h (k + 1))
  items : ∀ j < h.length, j / 16 ≤ b ∧
    p.file.slice (blockOffset h (j / 16) + 48 * (j % 16)) 48 = (itemAt h j).encode

namespace Index

variable {h : History} {b : ℕ} {p : Filepage} {name data : Bytes}

/-- Every index item lies inside its block, below the end of the last block. -/
theorem item_end_le (hidx : Index h b p) {j : ℕ} (hj : j < h.length) :
    blockOffset h (j / 16) + 48 * (j % 16) + 48 ≤ blockOffset h b + 768 := by
  have := blockOffset_mono h (hidx.items j hj).1
  omega

/-- Writes outside the header-to-last-block range leave all index items and pointers alone. -/
theorem frame (hidx : Index h b p) {f : ByteFile} {ws : List (ℕ × Bytes)}
    (hf : f = p.file.writeAll ws)
    (hws : ∀ w ∈ ws, w.1 + w.2.length ≤ 28 ∨ blockOffset h b + 768 ≤ w.1) :
    (∀ k < b, f.slice (blockOffset h k + 768) 4 = le 4 (blockOffset h (k + 1))) ∧
    ∀ j < h.length,
      f.slice (blockOffset h (j / 16) + 48 * (j % 16)) 48 = (itemAt h j).encode := by
  have hpos : ∀ k, 28 ≤ blockOffset h k := fun k => by simp only [blockOffset]; omega
  refine ⟨fun k hk => ?_, fun j hj => ?_⟩
  · rw [hf, slice_writeAll_of_apart _ fun w hw => ?_, hidx.chain k hk]
    have := blockOffset_add_le h hk
    have := hpos k
    rcases hws w hw with hw | hw
    · exact .inr (by omega)
    · exact .inl (by omega)
  · rw [hf, slice_writeAll_of_apart _ fun w hw => ?_, (hidx.items j hj).2]
    have := hidx.item_end_le hj
    have := hpos (j / 16)
    rcases hws w hw with hw | hw
    · exact .inr (by omega)
    · exact .inl (by omega)

/-- Allocating a block. The new block starts at the first free offset; the allocation byte lies
behind the old last block wherever its 32-bit offset ends up, so the index does not depend on it. -/
theorem growPage (hidx : Index h b p) (hb : 16 * (b + 1) = h.length)
    (hfree : freeOffset h b + 772 < 2 ^ 32) : Index h (b + 1) p.growPage := by
  have hfree' : p.firstFree + 772 < 2 ^ 32 := hidx.firstFree ▸ hfree
  have hnext : freeOffset h b = blockOffset h (b + 1) := freeOffset_eq_blockOffset h hb
  obtain ⟨hcfree, hclast⟩ := p.growPage_counters hidx.grow hfree'
  have hfile := p.growPage_file hidx.grow hidx.itemSize hfree'
  have hbelow : blockOffset h b + 772 ≤ freeOffset h b :=
    blockOffset_add_le_freeOffset h hidx.blocks le_rfl
  have houtside : ∀ w ∈ p.growWrites,
      w.1 + w.2.length ≤ 28 ∨ blockOffset h b + 768 ≤ w.1 := by
    simp only [Filepage.growWrites, hidx.firstFree, hidx.lastIndex, List.mem_cons,
      List.not_mem_nil, or_false, forall_eq_or_imp, forall_eq, length_le,
      Filepage.length_encode_header]
    omega
  obtain ⟨hchain, hitems⟩ := hidx.frame hfile houtside
  refine
    { grow := hidx.grow
      itemSize := hidx.itemSize
      pageFull := hidx.pageFull
      elements := hidx.elements
      contents := hidx.contents
      lastIndex := ?_
      firstFree := ?_
      size := ?_
      blocks := hb.le
      chain := ?_
      items := fun j hj => ⟨by omega, hitems j hj⟩ }
  · rw [hclast, hidx.firstFree, hnext]
  · rw [hcfree, hidx.firstFree, freeOffset_succ]
  · -- the pointer behind the new block is the last allocated word
    rw [hfile, freeOffset_succ, ← hidx.firstFree]
    exact le_size_writeAll p.file (w := (p.firstFree + 768, le 4 indexNextEmpty))
      (by simp [Filepage.growWrites]) (by simp [le])
  · intro k hk
    rcases Nat.lt_succ_iff_lt_or_eq.mp hk with hk | rfl
    · exact hchain k hk
    · -- the pointer of the old last block, which the allocation byte and the header miss
      rw [hfile, ← hnext, ← hidx.firstFree, ← hidx.lastIndex]
      refine slice_writeAll_of_mem p.file [(p.firstFree + 768, le 4 indexNextEmpty)]
        (length_le 4 _) ?_
      simp only [List.mem_cons, List.not_mem_nil, or_false, forall_eq_or_imp, forall_eq,
        Filepage.length_encode_header, Apart, hidx.lastIndex, blockOffset]
      omega

/-- The writes of `appendItem` miss every range between the header and the first free offset but the
slot of the new index item. -/
theorem apart_appendWrites (hidx : Index h b p) {a n : ℕ} (hhead : 28 ≤ a)
    (hend : a + n ≤ freeOffset h b)
    (hslot : Apart a n (blockOffset h b + 48 * (h.length % 16)) 48) :
    ∀ w ∈ p.appendWrites name data, Apart a n w.1 w.2.length := by
  simp only [Filepage.appendWrites, hidx.firstFree, hidx.lastIndex, hidx.elements, List.mem_cons,
    List.not_mem_nil, or_false, forall_eq_or_imp, forall_eq, Filepage.length_encode_item,
    Filepage.length_encode_header]
  exact ⟨hslot, .inl hend, .inr hhead⟩

/-- The data of an item does not meet the last block and its pointer. -/
theorem data_apart_block (hidx : Index h b p) {j : ℕ} (hj : j < h.length) :
    Apart (itemOffset h j) (h.getD j ([], [])).2.length (blockOffset h b) 772 := by
  rcases (hidx.items j hj).1.lt_or_eq with hlt | heq
  · exact .inl (itemOffset_add_le_blockOffset h hj hlt)
  · exact .inr (blockOffset_add_le_itemOffset h heq.ge)

/-- An older item lies in an older block, or in an earlier slot of the last one. -/
theorem item_apart_slot (h : History) {j : ℕ} (hj : j < h.length) :
    Apart (blockOffset h (j / 16) + 48 * (j % 16)) 48
      (blockOffset h (h.length / 16) + 48 * (h.length % 16)) 48 := by
  have hlt : j / 16 < h.length / 16 ∨ j / 16 = h.length / 16 ∧ j % 16 < h.length % 16 := by omega
  rcases hlt with hlt | ⟨heq, hlt⟩
  · have := blockOffset_add_le h hlt
    exact .inl (by omega)
  · rw [heq]
    exact .inl (by omega)

/-- The items of the index after one was added to the last block. -/
theorem appendItem_items (hidx : Index h (h.length / 16) p) (hsize : data.length < 2 ^ 32) {j : ℕ}
    (hj : j < (h ++ [(name, data)]).length) :
    j / 16 ≤ h.length / 16 ∧
    (p.file.writeAll (p.appendWrites name data)).slice
      (blockOffset (h ++ [(name, data)]) (j / 16) + 48 * (j % 16)) 48
        = (itemAt (h ++ [(name, data)]) j).encode := by
  have hbelow : blockOffset h (h.length / 16) + 772 ≤ freeOffset h (h.length / 16) :=
    blockOffset_add_le_freeOffset h hidx.blocks le_rfl
  have hlen : j < h.length + 1 := by simpa using hj
  have hdiv : j / 16 ≤ h.length / 16 := by omega
  refine ⟨hdiv, ?_⟩
  rw [blockOffset_append h _ (by omega)]
  rcases Nat.lt_succ_iff_lt_or_eq.mp hlen with hj | rfl
  · have hpos : 28 ≤ blockOffset h (j / 16) := by simp only [blockOffset]; omega
    have hlast := hidx.item_end_le hj
    rw [itemAt_append h _ hj, slice_writeAll_of_apart, (hidx.items j hj).2]
    exact hidx.apart_appendWrites (by omega) (by omega) (item_apart_slot h hj)
  · -- the new item, which the data and the header miss
    have hnew : p.newItem name data
        = { name := cstr name, size := data.length, item := freeOffset h (h.length / 16),
            flags := indexFlagNil } := by
      simp [Filepage.newItem, u32_of_lt hsize, hidx.firstFree]
    have hslot : h.length % 16 < 16 := Nat.mod_lt _ (by decide)
    rw [itemAt_append_length, itemOffset_length, ← hnew, ← hidx.lastIndex, ← hidx.elements]
    apply slice_writeAll_of_mem p.file [] (Filepage.length_encode_item _)
    simp only [List.mem_cons, List.not_mem_nil, or_false, forall_eq_or_imp, forall_eq,
      Filepage.length_encode_header, Apart, hidx.lastIndex, hidx.firstFree, hidx.elements]
    simp only [blockOffset] at *
    omega

/-- Adding an item to the last block. -/
theorem appendItem (hidx : Index h (h.length / 16) p) (hcount : h.length + 1 < 2 ^ 16)
    (hfree : freeOffset h (h.length / 16) + data.length < 2 ^ 32) :
    Index (h ++ [(name, data)]) (h.length / 16) (p.appendItem name data) := by
  have hsize : data.length < 2 ^ 32 := by omega
  have hblock : ∀ k ≤ h.length / 16, blockOffset (h ++ [(name, data)]) k = blockOffset h k :=
    fun k hk => blockOffset_append h _ (by omega)
  have hend : freeOffset (h ++ [(name, data)]) (h.length / 16)
      = freeOffset h (h.length / 16) + data.length := freeOffset_append h _ _
  have hfree' : p.firstFree + data.length < 2 ^ 32 := hidx.firstFree ▸ hfree
  rw [p.appendItem_eq name data hidx.grow]
  refine
    { grow := hidx.grow
      itemSize := hidx.itemSize
      pageFull := hidx.pageFull
      elements := ?_
      contents := ?_
      lastIndex := ?_
      firstFree := ?_
      size := ?_
      blocks := by simpa using hidx.blocks.trans (Nat.le_succ _)
      chain := ?_
      items := fun j hj => hidx.appendItem_items hsize hj }
  · simp [hidx.elements, u16_of_lt hcount]
  · rw [contentsOf_append, itemOffset_length, u32_of_lt hsize, hidx.contents, hidx.firstFree]
  · rw [hblock _ le_rfl, ← hidx.lastIndex]
  · rw [hend, u32_of_lt hfree', hidx.firstFree]
  · rw [hend]
    by_cases hdata : data = []
    · have hold : freeOffset h (h.length / 16) + data.length ≤ p.file.size := by
        simpa [hdata] using hidx.size
      exact hold.trans (size_le_size_writeAll _ _)
    · rw [← hidx.firstFree]
      exact le_size_writeAll p.file (w := (p.firstFree, data))
        (by simp [Filepage.appendWrites]) hdata
  · intro k hk
    have hbelow : blockOffset h (h.length / 16) + 772 ≤ freeOffset h (h.length / 16) :=
      blockOffset_add_le_freeOffset h hidx.blocks le_rfl
    have hnext := blockOffset_add_le h hk
    have hpos : 28 ≤ blockOffset h k := by simp only [blockOffset]; omega
    rw [hblock k hk.le, hblock (k + 1) hk, slice_writeAll_of_apart, hidx.chain k hk]
    exact hidx.apart_appendWrites (by omega) (by omega) (.inl (by omega))

end Index

/-! ## The data area -/

/-- The data area of page `p` holds the data of history `h`, and the last block `b` has no
successor. -/
structure Data (h : History) (b : ℕ) (p : Filepage) : Prop where
  data : ∀ j < h.length,
    p.file.slice (itemOffset h j) (h.getD j ([], [])).2.length = (h.getD j ([], [])).2
  tail : p.file.slice (blockOffset h b + 768) 4 = le 4 indexNextEmpty

namespace Data

variable {h : History} {b : ℕ} {p : Filepage} {name data : Bytes}

/-- Allocating a block leaves the data alone when the allocation byte is written behind it. -/
theorem growPage (hd : Data h b p) (hidx : Index h b p) (hb : 16 * (b + 1) = h.length)
    (halloc : freeOffset h b + 772 + 2 ^ 27 < 2 ^ 32) : Data h (b + 1) p.growPage := by
  have hfree' : p.firstFree + 772 < 2 ^ 32 := hidx.firstFree ▸ (by omega)
  have hnext : freeOffset h b = blockOffset h (b + 1) := freeOffset_eq_blockOffset h hb
  have hfile := p.growPage_file hidx.grow hidx.itemSize hfree'
  have hnowrap : u32 (freeOffset h b + 772 + 2 ^ 27) = freeOffset h b + 772 + 2 ^ 27 :=
    u32_of_lt halloc
  refine ⟨fun j hj => ?_, ?_⟩
  · rw [hfile, slice_writeAll_of_apart, hd.data j hj]
    have hbelow := itemOffset_add_le_freeOffset h hj (hidx.items j hj).1
    have hblock := hidx.data_apart_block hj
    have hpos : 800 ≤ itemOffset h j := by simp only [itemOffset]; omega
    simp only [Filepage.growWrites, hidx.firstFree, hidx.lastIndex, hnowrap, List.mem_cons,
      List.not_mem_nil, or_false, forall_eq_or_imp, forall_eq, length_le,
      Filepage.length_encode_header, Apart] at hblock ⊢
    omega
  · rw [hfile, ← hnext, ← hidx.firstFree]
    apply slice_writeAll_of_mem p.file [] (length_le 4 _)
    have hbelow : blockOffset h b + 772 ≤ freeOffset h b :=
      blockOffset_add_le_freeOffset h hidx.blocks le_rfl
    have hpos : 28 ≤ blockOffset h b := by simp only [blockOffset]; omega
    simp only [List.mem_cons, List.not_mem_nil, or_false, forall_eq_or_imp, forall_eq,
      length_le, Filepage.length_encode_header, Apart, hidx.lastIndex, hidx.firstFree, hnowrap]
    omega

/-- Adding an item writes its data behind everything stored so far. -/
theorem appendItem (hd : Data h (h.length / 16) p) (hidx : Index h (h.length / 16) p) :
    Data (h ++ [(name, data)]) (h.length / 16) (p.appendItem name data) := by
  have hbelow : blockOffset h (h.length / 16) + 772 ≤ freeOffset h (h.length / 16) :=
    blockOffset_add_le_freeOffset h hidx.blocks le_rfl
  have hpos : 28 ≤ blockOffset h (h.length / 16) := by simp only [blockOffset]; omega
  have hslot : h.length % 16 < 16 := Nat.mod_lt _ (by decide)
  rw [p.appendItem_eq name data hidx.grow]
  refine ⟨fun j hj => ?_, ?_⟩
  · rcases Nat.lt_succ_iff_lt_or_eq.mp (by simpa using hj : j < h.length + 1) with hj | rfl
    · have hend := itemOffset_add_le_freeOffset h hj (hidx.items j hj).1
      have hfirst : 800 ≤ itemOffset h j := by simp only [itemOffset]; omega
      have hblock := hidx.data_apart_block hj
      rw [List.getD_append _ _ _ _ hj, itemOffset_append h _ hj.le, slice_writeAll_of_apart,
        hd.data j hj]
      apply hidx.apart_appendWrites (by omega) hend
      unfold Apart at hblock ⊢
      omega
    · have hget : (h ++ [(name, data)]).getD h.length ([], []) = (name, data) := by simp
      rw [hget, itemOffset_append h _ le_rfl, itemOffset_length, ← hidx.firstFree]
      apply slice_writeAll_of_mem p.file
        [(p.lastIndex + 48 * (p.elements % 16), (p.newItem name data).encode)] rfl
      simp only [List.mem_cons, List.not_mem_nil, or_false, forall_eq,
        Filepage.length_encode_header, Apart, hidx.firstFree]
      omega
  · rw [blockOffset_append h _ (by omega), slice_writeAll_of_apart, hd.tail]
    exact hidx.apart_appendWrites (by omega) (by omega) (.inr (by omega))

end Data

end Mavicona.Cynder
