import Mathlib.Algebra.BigOperators.Group.List.Basic
import Mathlib.Algebra.Order.BigOperators.Group.List
import Mavicona.Cynder.Filepage

/-!
# The layout of a page as a function of its history

What a default page looks like after the items `h` were stored, in order, depends only on the sizes
of the items. Block `k` of the index starts behind the data of the first `16 * k` items
(`blockOffset`), item `j` behind the data of the first `j` items and behind the index blocks allocated
so far (`itemOffset`). This module is the abstract side: offsets, the index items, and the contents
map they induce. `PageInvariant` shows that the page object keeps its file in this shape.
-/

namespace Mavicona.Cynder

open Bytes

/-- The items stored in a page, oldest first: name and data. -/
abbrev History := List (Bytes × Bytes)

namespace Layout

/-! ## Offsets -/

/-- How many bytes the first `n` items of a history hold together. -/
def dataBefore (h : History) (n : ℕ) : ℕ := ((h.take n).map fun op => op.2.length).sum

/-- The start of index block `k`: a header of 28 bytes, `k` index blocks of 768 + 4 bytes and the data
of `16 * k` items lie before it. -/
def blockOffset (h : History) (k : ℕ) : ℕ := 28 + 772 * k + dataBefore h (16 * k)

/-- The start of the data of item `j`. -/
def itemOffset (h : History) (j : ℕ) : ℕ := 800 + 772 * (j / 16) + dataBefore h j

/-- The first free offset when the history is stored and the blocks `0 … b` are allocated. -/
def freeOffset (h : History) (b : ℕ) : ℕ := 800 + 772 * b + dataBefore h h.length

theorem dataBefore_mono (h : History) {m n : ℕ} (hmn : m ≤ n) :
    dataBefore h m ≤ dataBefore h n := by
  rw [dataBefore, dataBefore, ← Nat.add_sub_cancel' hmn, List.take_add, List.map_append,
    List.sum_append]
  exact Nat.le_add_right _ _

/-- Storing another item does not move what was stored before. -/
theorem dataBefore_append (h : History) (op : Bytes × Bytes) {n : ℕ} (hn : n ≤ h.length) :
    dataBefore (h ++ [op]) n = dataBefore h n := by
  rw [dataBefore, List.take_append_of_le_length hn, dataBefore]

theorem dataBefore_append_length (h : History) (op : Bytes × Bytes) :
    dataBefore (h ++ [op]) (h.length + 1) = dataBefore h h.length + op.2.length := by
  simp [dataBefore, List.take_of_length_le]

theorem dataBefore_succ (h : History) {j : ℕ} (hj : j < h.length) :
    dataBefore h (j + 1) = dataBefore h j + (h.getD j ([], [])).2.length := by
  rw [dataBefore, List.take_succ_eq_append_getElem hj, List.map_append, List.sum_append,
    List.getD_eq_getElem _ _ hj]
  simp [dataBefore]

theorem blockOffset_append (h : History) (op : Bytes × Bytes) {k : ℕ} (hk : 16 * k ≤ h.length) :
    blockOffset (h ++ [op]) k = blockOffset h k := by
  rw [blockOffset, blockOffset, dataBefore_append h op hk]

theorem itemOffset_append (h : History) (op : Bytes × Bytes) {j : ℕ} (hj : j ≤ h.length) :
    itemOffset (h ++ [op]) j = itemOffset h j := by
  rw [itemOffset, itemOffset, dataBefore_append h op hj]

/-- Each index block, with its pointer, ends before the next one starts. -/
theorem blockOffset_add_le (h : History) {k l : ℕ} (hkl : k < l) :
    blockOffset h k + 772 ≤ blockOffset h l := by
  have := dataBefore_mono h (show 16 * k ≤ 16 * l by omega)
  simp only [blockOffset]
  omega

theorem blockOffset_mono (h : History) {k l : ℕ} (hkl : k ≤ l) :
    blockOffset h k ≤ blockOffset h l := by
  have := dataBefore_mono h (show 16 * k ≤ 16 * l by omega)
  simp only [blockOffset]
  omega

/-- An index block ends before the data of every item it or a later block describes. -/
theorem blockOffset_add_le_itemOffset (h : History) {k j : ℕ} (hkj : k ≤ j / 16) :
    blockOffset h k + 772 ≤ itemOffset h j := by
  have := dataBefore_mono h (show 16 * k ≤ j by omega)
  simp only [blockOffset, itemOffset]
  omega

/-- The data of an item ends before every later index block. -/
theorem itemOffset_add_le_blockOffset (h : History) {j k : ℕ} (hj : j < h.length)
    (hjk : j / 16 < k) :
    itemOffset h j + (h.getD j ([], [])).2.length ≤ blockOffset h k := by
  have := dataBefore_mono h (show j + 1 ≤ 16 * k by omega)
  rw [dataBefore_succ h hj] at this
  simp only [blockOffset, itemOffset]
  omega

/-- The data of an item ends before the data of every later item. -/
theorem itemOffset_add_le (h : History) {i j : ℕ} (hij : i < j) (hi : i < h.length) :
    itemOffset h i + (h.getD i ([], [])).2.length ≤ itemOffset h j := by
  have := dataBefore_mono h (show i + 1 ≤ j by omega)
  rw [dataBefore_succ h hi] at this
  simp only [itemOffset]
  omega

theorem blockOffset_add_le_freeOffset (h : History) {k b : ℕ} (hk : 16 * k ≤ h.length)
    (hkb : k ≤ b) : blockOffset h k + 772 ≤ freeOffset h b := by
  have := dataBefore_mono h hk
  simp only [blockOffset, freeOffset]
  omega

theorem itemOffset_add_le_freeOffset (h : History) {j b : ℕ} (hj : j < h.length)
    (hjb : j / 16 ≤ b) :
    itemOffset h j + (h.getD j ([], [])).2.length ≤ freeOffset h b := by
  have := dataBefore_mono h (show j + 1 ≤ h.length by omega)
  rw [dataBefore_succ h hj] at this
  simp only [itemOffset, freeOffset]
  omega

/-- The block that is allocated next starts at the first free offset. -/
theorem freeOffset_eq_blockOffset (h : History) {b : ℕ} (hb : 16 * (b + 1) = h.length) :
    freeOffset h b = blockOffset h (b + 1) := by
  simp only [freeOffset, blockOffset, hb]
  omega

theorem freeOffset_succ (h : History) (b : ℕ) : freeOffset h (b + 1) = freeOffset h b + 772 := by
  simp only [freeOffset]
  omega

/-- The next item goes to the first free offset. -/
theorem itemOffset_length (h : History) : itemOffset h h.length = freeOffset h (h.length / 16) := rfl

theorem freeOffset_append (h : History) (op : Bytes × Bytes) (b : ℕ) :
    freeOffset (h ++ [op]) b = freeOffset h b + op.2.length := by
  simp only [freeOffset, List.length_append, List.length_singleton, dataBefore_append_length]
  omega

/-! ## Index items and the contents map -/

/-- The index item of item `j`. -/
def itemAt (h : History) (j : ℕ) : PageIndexItem where
  name := cstr (h.getD j ([], [])).1
  size := (h.getD j ([], [])).2.length
  item := itemOffset h j
  flags := indexFlagNil

theorem itemAt_append (h : History) (op : Bytes × Bytes) {j : ℕ} (hj : j < h.length) :
    itemAt (h ++ [op]) j = itemAt h j := by
  simp only [itemAt, itemOffset_append h op hj.le, List.getD_append _ _ _ _ hj]

theorem itemAt_append_length (h : History) (op : Bytes × Bytes) :
    itemAt (h ++ [op]) h.length
      = { name := cstr op.1, size := op.2.length, item := itemOffset h h.length,
          flags := indexFlagNil } := by
  simp [itemAt, itemOffset_append h op le_rfl]

/-- The contents map after the first `n` items of a history were entered, oldest first. -/
def contentsUpTo (h : History) : ℕ → Bytes → Option (ℕ × ℕ)
  | 0 => fun _ => none
  | n + 1 => Function.update (contentsUpTo h n) (h.getD n ([], [])).1
      (some (itemOffset h n, (h.getD n ([], [])).2.length))

/-- The contents map of a history. -/
def contentsOf (h : History) : Bytes → Option (ℕ × ℕ) := contentsUpTo h h.length

theorem contentsUpTo_append (h : History) (op : Bytes × Bytes) {n : ℕ} (hn : n ≤ h.length) :
    contentsUpTo (h ++ [op]) n = contentsUpTo h n := by
  induction n with
  | zero => rfl
  | succ n ih =>
    rw [contentsUpTo, contentsUpTo, ih (by omega), List.getD_append _ _ _ _ hn,
      itemOffset_append h op (by omega)]

theorem contentsOf_append (h : History) (op : Bytes × Bytes) :
    contentsOf (h ++ [op])
      = Function.update (contentsOf h) op.1 (some (itemOffset h h.length, op.2.length)) := by
  have hget : (h ++ [op]).getD h.length ([], []) = op := by simp
  rw [contentsOf, List.length_append, List.length_singleton, contentsUpTo, hget,
    contentsUpTo_append h op le_rfl, itemOffset_append h op le_rfl, contentsOf]

/-- The data of the last item stored under a name. -/
def lastStored (h : History) (name : Bytes) : Option Bytes :=
  h.foldl (fun acc op => if op.1 = name then some op.2 else acc) none

theorem lastStored_append (h : History) (op : Bytes × Bytes) (name : Bytes) :
    lastStored (h ++ [op]) name = if op.1 = name then some op.2 else lastStored h name := by
  simp [lastStored]

/-- The contents map leads a name to its last item. -/
theorem contentsOf_cases (h : History) (name : Bytes) :
    (contentsOf h name = none ∧ lastStored h name = none) ∨
    ∃ j, j < h.length ∧ lastStored h name = some (h.getD j ([], [])).2 ∧
      contentsOf h name = some (itemOffset h j, (h.getD j ([], [])).2.length) := by
  induction h using List.reverseRecOn with
  | nil => exact .inl ⟨rfl, rfl⟩
  | append_singleton h op ih =>
    rw [contentsOf_append, lastStored_append]
    by_cases hname : op.1 = name
    · refine .inr ⟨h.length, by simp, ?_, ?_⟩
      · simp [hname]
      · simp [hname, itemOffset_append h op le_rfl]
    · rw [Function.update_of_ne (Ne.symm hname), if_neg hname]
      rcases ih with ih | ⟨j, hj, hlast, hcont⟩
      · exact .inl ih
      · refine .inr ⟨j, by simp; omega, ?_, ?_⟩
        · rw [List.getD_append _ _ _ _ hj, hlast]
        · rw [List.getD_append _ _ _ _ hj, itemOffset_append h op hj.le, hcont]

end Layout

end Mavicona.Cynder
