import Mathlib.Order.Lattice
import Mathlib.Data.List.Basic

/-!
# Ordered maps

`std::map`, or a table of an ordered key-value store, as an association list in key order. Insertion
goes to the first position whose key is not smaller, and replaces an equal key there. Up to the order
of the entries an insertion is an erasure and one entry more (`insert_perm`).
-/

namespace OrderedMap

variable {κ α : Type*} [LinearOrder κ]

/-- `m[k] = a`. -/
def insert (k : κ) (a : α) : List (κ × α) → List (κ × α)
  | [] => [(k, a)]
  | (k', a') :: m =>
    if k < k' then (k, a) :: (k', a') :: m
    else if k = k' then (k, a) :: m
    else (k', a') :: insert k a m

/-- `m.find(k)`. -/
def find (k : κ) : List (κ × α) → Option α
  | [] => none
  | (k', a') :: m => if k = k' then some a' else find k m

/-- `m.erase(k)`. -/
def erase (k : κ) (m : List (κ × α)) : List (κ × α) := m.filter fun e => e.1 ≠ k

section Find

variable {k k' : κ} {a : α} {m : List (κ × α)}

@[simp] theorem find_insert_self : find k (insert k a m) = some a := by
  induction m with
  | nil => simp [insert, find]
  | cons e m ih =>
    rw [insert]
    split_ifs with hlt heq
    · simp [find]
    · simp [find]
    · rw [find, if_neg heq, ih]

theorem find_insert_of_ne (h : k ≠ k') : find k (insert k' a m) = find k m := by
  induction m with
  | nil => simp [insert, find, h]
  | cons e m ih =>
    rw [insert]
    split_ifs with hlt heq
    · rw [find, if_neg h]
    · subst heq
      rw [find, if_neg h, find, if_neg h]
    · rw [find, find, ih]

/-- A key above all others goes to the end. -/
theorem insert_of_lt (h : ∀ e ∈ m, e.1 < k) : insert k a m = m ++ [(k, a)] := by
  induction m with
  | nil => rfl
  | cons e m ih =>
    have hfirst : e.1 < k := h e (by simp)
    rw [insert, if_neg hfirst.not_gt, if_neg hfirst.ne', ih fun e he => h e (List.mem_cons_of_mem _ he),
      List.cons_append]

theorem mem_of_find_eq_some (h : find k m = some a) : (k, a) ∈ m := by
  induction m with
  | nil => simp [find] at h
  | cons e m ih =>
    rw [find] at h
    split_ifs at h with heq
    · simp only [Option.some.injEq] at h
      exact List.mem_cons.mpr (.inl (Prod.ext heq h.symm))
    · exact List.mem_cons_of_mem _ (ih h)

theorem mem_of_mem_insert {e : κ × α} (h : e ∈ insert k a m) : e = (k, a) ∨ e ∈ m := by
  induction m with
  | nil => exact .inl (by simpa [insert] using h)
  | cons e' m ih =>
    rw [insert] at h
    split_ifs at h with hlt heq
    · exact List.mem_cons.mp h
    · rcases List.mem_cons.mp h with rfl | hmem
      · exact .inl rfl
      · exact .inr (List.mem_cons_of_mem _ hmem)
    · rcases List.mem_cons.mp h with rfl | hmem
      · exact .inr (by simp)
      · rcases ih hmem with rfl | hmem
        · exact .inl rfl
        · exact .inr (List.mem_cons_of_mem _ hmem)

theorem find_ne_none {e : κ × α} (h : e ∈ m) : find e.1 m ≠ none := by
  induction m with
  | nil => simp at h
  | cons e' m ih =>
    rw [find]
    split_ifs with heq
    · simp
    · rcases List.mem_cons.mp h with rfl | hmem
      · exact absurd rfl heq
      · exact ih hmem

end Find

/-- The keys ascend. -/
def Sorted (m : List (κ × α)) : Prop := m.Pairwise fun e f => e.1 < f.1

section Sorted

variable {k : κ} {a : α} {e : κ × α} {m : List (κ × α)}

theorem mem_erase : e ∈ erase k m ↔ e ∈ m ∧ e.1 ≠ k := by simp [erase]

theorem sorted_nil : Sorted ([] : List (κ × α)) := List.Pairwise.nil

theorem Sorted.erase (hm : Sorted m) (k : κ) : Sorted (erase k m) := hm.filter _

/-- A key below the first one is below all. -/
theorem Sorted.lt_of_lt_head {k' : κ} {a' : α} (hm : Sorted ((k', a') :: m)) (hk : k < k') :
    ∀ e ∈ (k', a') :: m, k < e.1 := by
  intro e he
  rcases List.mem_cons.mp he with rfl | he
  · exact hk
  · exact hk.trans ((List.pairwise_cons.mp hm).1 e he)

/-- Nothing is erased below the first key. -/
theorem erase_eq_self (hk : ∀ e ∈ m, k < e.1) : OrderedMap.erase k m = m := by
  refine List.filter_eq_self.mpr fun e he => ?_
  exact decide_eq_true (hk e he).ne'

/-- An insertion replaces the entry of the key. -/
theorem insert_perm (hm : Sorted m) (k : κ) (a : α) :
    (insert k a m).Perm ((k, a) :: OrderedMap.erase k m) := by
  induction m with
  | nil => rfl
  | cons e m ih =>
    obtain ⟨k', a'⟩ := e
    obtain ⟨hfirst, hrest⟩ := List.pairwise_cons.mp hm
    rw [insert]
    -- The key comes before the first one, is the first one, or goes on.
    split_ifs with hlt heq
    · rw [erase_eq_self (hm.lt_of_lt_head hlt)]
    · subst heq
      have hsame : OrderedMap.erase k ((k, a') :: m) = OrderedMap.erase k m := by
        simp [OrderedMap.erase]
      rw [hsame, erase_eq_self hfirst]
    · have hother : OrderedMap.erase k ((k', a') :: m) = (k', a') :: OrderedMap.erase k m := by
        simp [OrderedMap.erase, Ne.symm heq]
      rw [hother]
      exact ((ih hrest).cons (k', a')).trans (List.Perm.swap _ _ _)

theorem Sorted.insert (hm : Sorted m) (k : κ) (a : α) : Sorted (insert k a m) := by
  induction m with
  | nil => exact List.pairwise_singleton _ _
  | cons e m ih =>
    obtain ⟨k', a'⟩ := e
    obtain ⟨hfirst, hrest⟩ := List.pairwise_cons.mp hm
    rw [OrderedMap.insert]
    split_ifs with hlt heq
    · exact List.pairwise_cons.mpr ⟨hm.lt_of_lt_head hlt, hm⟩
    · subst heq
      exact List.pairwise_cons.mpr ⟨hfirst, hrest⟩
    · refine List.pairwise_cons.mpr ⟨?_, ih hrest⟩
      intro e he
      rcases List.mem_cons.mp ((insert_perm hrest k a).mem_iff.mp he) with rfl | he
      · exact lt_of_le_of_ne (not_lt.mp hlt) (Ne.symm heq)
      · exact hfirst e (mem_erase.mp he).1

end Sorted

end OrderedMap
