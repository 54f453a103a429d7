import Mathlib.Data.List.Sort
import Mavicona.Common.OrderedMap

/-!
# Circular search in an ordered map

The keys of an ordered map are read as points of a circle. From a start `k` the circle is walked
upward, past the largest key and on from the smallest; `Before k` is the order in which the walk
meets the points, and `next k m` is the entry it meets first. The module has what writing and
erasing several points at once do to the entries, and what that does to the first one met.
-/

namespace OrderedMap

variable {κ α : Type*} [LinearOrder κ] {k p x y : κ} {e f : κ × α} {m n : List (κ × α)}

/-! ## The order of a walk -/

/-- The walk upward from `k` and around meets `x` no later than `y`. -/
def Before (k x y : κ) : Prop := if k ≤ x then k ≤ y → x ≤ y else y < k ∧ x ≤ y

theorem Before.antisymm (hxy : Before k x y) (hyx : Before k y x) : x = y := by
  unfold Before at hxy hyx
  split_ifs at hxy hyx with hx hy hy
  · exact le_antisymm (hxy hy) (hyx hx)
  · exact absurd hyx.1 (not_lt.mpr hx)
  · exact absurd hxy.1 (not_lt.mpr hy)
  · exact le_antisymm hxy.2 hyx.2

/-- A walk may be started again at a point that comes before both. -/
theorem before_rotate (hx : Before k p x) (hy : Before k p y) : Before p x y ↔ Before k x y := by
  unfold Before at *
  -- Each of the three points is above the start or below it; `grind` closes the orders that remain.
  by_cases hkp : k ≤ p <;> by_cases hkx : k ≤ x <;> by_cases hky : k ≤ y <;>
    simp only [hkp, hkx, hky, if_true, if_false, forall_true_left, false_imp_iff] at hx hy ⊢ <;>
    grind

/-! ## The first entry of a walk -/

/-- `m.lower_bound(k)`. -/
def lowerBound (k : κ) (m : List (κ × α)) : Option (κ × α) := m.find? fun e => k ≤ e.1

/-- The first entry at or above `k`, or the first one of all. -/
def next (k : κ) (m : List (κ × α)) : Option (κ × α) := (lowerBound k m).or m.head?

theorem next_eq_none_iff : next k m = none ↔ m = [] := by
  constructor
  · intro h
    exact List.head?_eq_none_iff.mp (Option.or_eq_none_iff.mp h).2
  · rintro rfl
    rfl

/-- A key has one entry. -/
theorem Sorted.eq_of_key_eq (hm : Sorted m) (he : e ∈ m) (hf : f ∈ m) (hkey : e.1 = f.1) : e = f := by
  induction m with
  | nil => exact absurd he List.not_mem_nil
  | cons g m ih =>
    obtain ⟨hfirst, hrest⟩ := List.pairwise_cons.mp hm
    rcases List.mem_cons.mp he with rfl | he' <;> rcases List.mem_cons.mp hf with rfl | hf'
    · rfl
    · exact absurd hkey (hfirst f hf').ne
    · exact absurd hkey.symm (hfirst e he').ne
    · exact ih hrest he' hf'

/-- The first entry of a walk comes before all. -/
theorem before_of_next (hm : Sorted m) (h : next k m = some e) :
    e ∈ m ∧ ∀ f ∈ m, Before k e.1 f.1 := by
  rcases Option.or_eq_some_iff.mp h with hbound | ⟨hnone, hhead⟩
  · -- An entry at or above the start: what stands before it in the map is below the start.
    obtain ⟨hk, before, after, rfl, hbefore⟩ := List.find?_eq_some_iff_append.mp hbound
    have hk : k ≤ e.1 := by simpa using hk
    refine ⟨by simp, fun f hf => ?_⟩
    rw [Before, if_pos hk]
    intro hkf
    rcases List.mem_append.mp hf with hf | hf
    · have := hbefore f hf
      simp [hkf] at this
    · rcases List.mem_cons.mp hf with rfl | hf
      · exact le_rfl
      · exact ((List.pairwise_cons.mp (List.pairwise_append.mp hm).2.1).1 f hf).le
  · -- No entry at or above the start.
    have hbelow : ∀ f ∈ m, f.1 < k := by
      intro f hf
      simpa using List.find?_eq_none.mp hnone f hf
    obtain ⟨rest, rfl⟩ : ∃ rest, m = e :: rest := List.head?_eq_some_iff.mp hhead
    refine ⟨by simp, fun f hf => ?_⟩
    rw [Before, if_neg (not_le.mpr (hbelow e (by simp)))]
    refine ⟨hbelow f hf, ?_⟩
    rcases List.mem_cons.mp hf with rfl | hf
    · exact le_rfl
    · exact ((List.pairwise_cons.mp hm).1 f hf).le

/-- The first entry of a walk is the one that comes before all. -/
theorem next_eq_some_iff (hm : Sorted m) :
    next k m = some e ↔ e ∈ m ∧ ∀ f ∈ m, Before k e.1 f.1 := by
  refine ⟨before_of_next hm, ?_⟩
  rintro ⟨he, hmin⟩
  cases hnext : next k m with
  | none =>
    rw [next_eq_none_iff.mp hnext] at he
    exact absurd he List.not_mem_nil
  | some f =>
    obtain ⟨hf, hmin'⟩ := before_of_next hm hnext
    rw [hm.eq_of_key_eq hf he ((hmin' e he).antisymm (hmin f hf))]

/-- A walk over some of the entries meets the same ones from the start and from the first of all. -/
theorem next_of_subset (hm : Sorted m) (hn : Sorted n) (hsub : ∀ f ∈ n, f ∈ m)
    (h : next k m = some e) :
    next k n = next e.1 n := by
  obtain ⟨-, hmin⟩ := before_of_next hm h
  have hsame : ∀ f, next e.1 n = some f ↔ next k n = some f := by
    intro f
    rw [next_eq_some_iff hn, next_eq_some_iff hn]
    refine and_congr_right fun hf => forall₂_congr fun g hg => ?_
    exact before_rotate (hmin f (hsub f hf)) (hmin g (hsub g hg))
  exact Option.ext fun f => (hsame f).symm

/-! ## Several points at once -/

/-- `m[p] = a` for all the points. -/
def insertAll (ps : List κ) (a : α) (m : List (κ × α)) : List (κ × α) :=
  ps.foldl (fun m p => insert p a m) m

/-- `m.erase(p)` for all the points. -/
def eraseAll (ps : List κ) (m : List (κ × α)) : List (κ × α) := ps.foldl (fun m p => erase p m) m

theorem mem_insert (hm : Sorted m) {a : α} : e ∈ insert k a m ↔ e = (k, a) ∨ e ∈ m ∧ e.1 ≠ k := by
  rw [(insert_perm hm k a).mem_iff, List.mem_cons, mem_erase]

theorem Sorted.insertAll (hm : Sorted m) (ps : List κ) (a : α) : Sorted (insertAll ps a m) := by
  induction ps generalizing m with
  | nil => exact hm
  | cons p ps ih => exact ih (hm.insert p a)

theorem Sorted.eraseAll (hm : Sorted m) (ps : List κ) : Sorted (eraseAll ps m) := by
  induction ps generalizing m with
  | nil => exact hm
  | cons p ps ih => exact ih (hm.erase p)

/-- The entries are those written and those at other points. -/
theorem mem_insertAll (hm : Sorted m) {ps : List κ} {a : α} :
    e ∈ insertAll ps a m ↔ e.1 ∈ ps ∧ e.2 = a ∨ e ∈ m ∧ e.1 ∉ ps := by
  induction ps generalizing m with
  | nil => simp [insertAll]
  | cons p ps ih =>
    obtain ⟨x, b⟩ := e
    have hstep : OrderedMap.insertAll (p :: ps) a m = OrderedMap.insertAll ps a (insert p a m) := rfl
    rw [hstep, ih (hm.insert p a), mem_insert hm]
    simp only [List.mem_cons, Prod.mk.injEq]
    tauto

/-- The entries that are left are those at other points. -/
theorem mem_eraseAll {ps : List κ} : e ∈ eraseAll ps m ↔ e ∈ m ∧ e.1 ∉ ps := by
  induction ps generalizing m with
  | nil => simp [eraseAll]
  | cons p ps ih =>
    have hstep : eraseAll (p :: ps) m = eraseAll ps (erase p m) := rfl
    rw [hstep, ih, mem_erase, List.mem_cons]
    tauto

/-- What is written does not come between the walk and an entry at another point. -/
theorem next_insertAll (hm : Sorted m) (h : next k m = some e) (ps : List κ) (a : α) :
    ∃ f, next k (insertAll ps a m) = some f ∧ (f.2 = a ∨ f = e) := by
  obtain ⟨he, hmin⟩ := before_of_next hm h
  -- At the point of `e` there is still an entry, `e` itself or one that was written over it.
  obtain ⟨e', he', hpoint⟩ : ∃ e' ∈ insertAll ps a m, e'.1 = e.1 := by
    by_cases hp : e.1 ∈ ps
    · exact ⟨(e.1, a), (mem_insertAll hm).mpr (Or.inl ⟨hp, rfl⟩), rfl⟩
    · exact ⟨e, (mem_insertAll hm).mpr (Or.inr ⟨he, hp⟩), rfl⟩
  have hfull : insertAll ps a m ≠ [] := List.ne_nil_of_mem he'
  obtain ⟨f, hnext⟩ := Option.ne_none_iff_exists'.mp (mt next_eq_none_iff.mp hfull)
  obtain ⟨hf, hmin'⟩ := before_of_next (hm.insertAll ps a) hnext
  refine ⟨f, hnext, ?_⟩
  rcases (mem_insertAll hm).mp hf with ⟨-, hnew⟩ | ⟨hold, -⟩
  · exact Or.inl hnew
  · have hfe : Before k f.1 e.1 := hpoint ▸ hmin' e' he'
    exact Or.inr (hm.eq_of_key_eq hold he (hfe.antisymm (hmin f hold)))

/-- An entry that is not erased stays the first one. -/
theorem next_eraseAll (hm : Sorted m) {ps : List κ} (h : next k m = some e) (he : e.1 ∉ ps) :
    next k (eraseAll ps m) = some e := by
  obtain ⟨hmem, hmin⟩ := before_of_next hm h
  refine (next_eq_some_iff (hm.eraseAll ps)).mpr ⟨mem_eraseAll.mpr ⟨hmem, he⟩, fun f hf => ?_⟩
  exact hmin f (mem_eraseAll.mp hf).1

/-- The walk from the point of an entry meets it first. -/
theorem next_self (hm : Sorted m) (he : e ∈ m) : next e.1 m = some e := by
  refine (next_eq_some_iff hm).mpr ⟨he, fun f _ => ?_⟩
  rw [Before, if_pos le_rfl]
  exact id

/-- A map is its entries. -/
theorem Sorted.ext (hm : Sorted m) (hn : Sorted n) (h : ∀ e, e ∈ m ↔ e ∈ n) : m = n := by
  have : Std.Irrefl fun e f : κ × α => e.1 < f.1 := ⟨fun e => lt_irrefl e.1⟩
  have : Std.Antisymm fun e f : κ × α => e.1 < f.1 := ⟨fun _ _ h h' => absurd h' h.not_gt⟩
  exact List.Pairwise.eq_of_mem_iff hm hn h

end OrderedMap
