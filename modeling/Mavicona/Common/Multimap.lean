import Mathlib.Order.Lattice
import Mathlib.Data.List.Basic

/-!
# Ordered maps with several entries for a key

`std::multimap` as an association list in key order. An entry is inserted behind those with the same
key, so that `equal_range` lists the values of a key in the order in which they came.
-/

/-- `std::multimap`. -/
structure Multimap (κ α : Type*) [LinearOrder κ] where
  entries : List (κ × α)
  sorted : entries.Pairwise fun e f => e.1 ≤ f.1

namespace Multimap

variable {κ α : Type*} [LinearOrder κ]

def empty : Multimap κ α := ⟨[], .nil⟩

/-- An entry in front of the first larger key. -/
def insertEntry (k : κ) (a : α) : List (κ × α) → List (κ × α)
  | [] => [(k, a)]
  | e :: m => if k < e.1 then (k, a) :: e :: m else e :: insertEntry k a m

theorem insertEntry_perm (k : κ) (a : α) (m : List (κ × α)) :
    (insertEntry k a m).Perm ((k, a) :: m) := by
  induction m with
  | nil => exact .refl _
  | cons e m ih =>
    rw [insertEntry]
    split_ifs with hlt
    · exact .refl _
    · exact (ih.cons e).trans (.swap _ _ _)

theorem insertEntry_sorted {k : κ} {a : α} {m : List (κ × α)}
    (h : m.Pairwise fun e f => e.1 ≤ f.1) :
    (insertEntry k a m).Pairwise fun e f => e.1 ≤ f.1 := by
  induction m with
  | nil => exact List.pairwise_singleton _ _
  | cons e m ih =>
    obtain ⟨hfirst, hrest⟩ := List.pairwise_cons.mp h
    rw [insertEntry]
    split_ifs with hlt
    · refine List.pairwise_cons.mpr ⟨fun f hf => ?_, h⟩
      rcases List.mem_cons.mp hf with rfl | hf
      · exact hlt.le
      · exact hlt.le.trans (hfirst f hf)
    · refine List.pairwise_cons.mpr ⟨fun f hf => ?_, ih hrest⟩
      rcases List.mem_cons.mp ((insertEntry_perm k a m).mem_iff.mp hf) with rfl | hf
      · exact not_lt.mp hlt
      · exact hfirst f hf

/-- `m.insert(std::pair(k, a))`. -/
def insert (k : κ) (a : α) (m : Multimap κ α) : Multimap κ α :=
  ⟨insertEntry k a m.entries, insertEntry_sorted m.sorted⟩

/-- The values of `m.equal_range(k)`. -/
def equalRange (k : κ) (m : Multimap κ α) : List α :=
  (m.entries.filter fun e => e.1 = k).map Prod.snd

section Insert

variable {k k' : κ} {a : α}

/-- A new value of a key comes after the others. -/
theorem equalRange_insert (k k' : κ) (a : α) (m : Multimap κ α) :
    (m.insert k a).equalRange k' = m.equalRange k' ++ if k = k' then [a] else [] := by
  obtain ⟨entries, hsorted⟩ := m
  rw [equalRange, equalRange, insert]
  dsimp only
  induction entries with
  | nil => by_cases h : k = k' <;> simp [insertEntry, h]
  | cons e m ih =>
    obtain ⟨hfirst, hrest⟩ := List.pairwise_cons.mp hsorted
    rw [insertEntry]
    by_cases hlt : k < e.1
    · rw [if_pos hlt]
      by_cases heq : k = k'
      · -- every key behind the new one is larger
        have hnone : (e :: m).filter (fun e => e.1 = k') = [] := by
          refine List.filter_eq_nil_iff.mpr fun f hf h => ?_
          have hle : k < f.1 := by
            rcases List.mem_cons.mp hf with rfl | hf
            · exact hlt
            · exact hlt.trans_le (hfirst f hf)
          exact absurd (of_decide_eq_true h) (heq ▸ hle.ne')
        rw [List.filter_cons_of_pos (by simpa using heq), hnone, if_pos heq]
        rfl
      · rw [List.filter_cons_of_neg (by simpa using heq), if_neg heq, List.append_nil]
    · have htail := ih hrest
      rw [if_neg hlt, List.filter_cons, List.filter_cons]
      by_cases hkey : decide (e.1 = k') = true
      · rw [if_pos hkey, if_pos hkey, List.map_cons, List.map_cons, htail, List.cons_append]
      · rw [if_neg hkey, if_neg hkey, htail]

end Insert

end Multimap
