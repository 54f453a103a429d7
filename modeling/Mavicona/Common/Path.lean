import Mathlib.Data.List.DropRight
import Mavicona.Common.Bytes

/-!
# Names of files

A name is a byte string, cut at its slashes into components. The components that are not empty are
the steps the name takes from directory to directory; `dirname` is the name of the directory a name
stands in.
-/

namespace Path

/-- The components of a name. -/
def components (s : Bytes) : List Bytes := s.splitOn 47

/-- The component `..`. -/
def dotDot : Bytes := [46, 46]

/-- The components of a name that are not empty. -/
def steps (s : Bytes) : List Bytes := (components s).filter (· ≠ [])

/-- A name without the slashes at its end. -/
def trim (s : Bytes) : Bytes := s.rdropWhile (· = 47)

/-- `dirname`: the name without its last component and the slashes around that. -/
def dirname (s : Bytes) : Bytes :=
  if s = [] then [46]
  else if trim s = [] then [47]
  else if (trim s).rdropWhile (· ≠ 47) = [] then [46]
  else if trim ((trim s).rdropWhile (· ≠ 47)) = [] then [47]
  else trim ((trim s).rdropWhile (· ≠ 47))

/-! ## Components -/

section Components

variable {c r s t : Bytes}

theorem components_ne_nil : components s ≠ [] := List.splitOn_ne_nil _ _

theorem components_last (h : 47 ∉ c) : components c = [c] := List.splitOn_eq_singleton h

theorem components_cut (h : 47 ∉ c) (r : Bytes) : components (c ++ 47 :: r) = c :: components r :=
  List.splitOn_append_cons_self_of_not_mem h r

theorem components_slash (s : Bytes) : components (47 :: s) = [] :: components s :=
  components_cut List.not_mem_nil s

theorem components_append (s t : Bytes) : components (s ++ 47 :: t) = components s ++ components t :=
  List.splitOn_append_cons_self s t

/-- A name is one component, or a component, a slash and a name. -/
@[elab_as_elim]
theorem component_induction {motive : Bytes → Prop} (last : ∀ c, 47 ∉ c → motive c)
    (cut : ∀ c r, 47 ∉ c → motive r → motive (c ++ 47 :: r)) (s : Bytes) : motive s := by
  induction hn : s.length using Nat.strong_induction_on generalizing s with
  | _ n ih =>
    by_cases hmem : 47 ∈ s
    · obtain ⟨c, r, rfl, hc⟩ := List.eq_append_cons_of_mem hmem
      refine cut c r hc (ih r.length ?_ r rfl)
      rw [← hn, List.length_append, List.length_cons]
      omega
    · exact last s hmem

theorem slash_notMem (h : c ∈ components s) : 47 ∉ c := by
  induction s using component_induction with
  | last d hd =>
    rw [components_last hd, List.mem_singleton] at h
    exact h ▸ hd
  | cut d r hd ih =>
    rw [components_cut hd, List.mem_cons] at h
    rcases h with rfl | h
    · exact hd
    · exact ih h

end Components

/-! ## Steps -/

section Steps

variable {c s t : Bytes}

@[simp] theorem steps_nil : steps [] = [] := rfl

theorem steps_append (s t : Bytes) : steps (s ++ 47 :: t) = steps s ++ steps t := by
  rw [steps, components_append, List.filter_append]
  rfl

theorem steps_component (hne : c ≠ []) (h : 47 ∉ c) : steps c = [c] := by
  rw [steps, components_last h, List.filter_cons_of_pos (by simpa using hne), List.filter_nil]

theorem mem_steps (h : c ∈ steps s) : c ∈ components s := (List.mem_filter.mp h).1

theorem trim_concat (s : Bytes) : trim (s ++ [47]) = trim s :=
  List.rdropWhile_concat_pos _ _ _ (by simp)

theorem steps_trim (s : Bytes) : steps (trim s) = steps s := by
  induction s using List.reverseRecOn with
  | nil => rfl
  | append_singleton s b ih =>
    by_cases hb : b = 47
    · rw [hb, trim_concat, ih, steps_append, steps_nil, List.append_nil]
    · rw [trim, List.rdropWhile_concat_neg _ _ _ (by simpa using hb)]

theorem trim_append (t : Bytes) (h : trim s ≠ []) : trim (t ++ s) = t ++ trim s := by
  induction s using List.reverseRecOn with
  | nil => exact absurd rfl h
  | append_singleton s b ih =>
    by_cases hb : b = 47
    · rw [hb, trim_concat] at h
      rw [hb, ← List.append_assoc, trim_concat, trim_concat, ih h]
    · have hkeep : ∀ r : Bytes, trim (r ++ [b]) = r ++ [b] :=
        fun r => List.rdropWhile_concat_neg _ _ _ (by simpa using hb)
      rw [hkeep, ← List.append_assoc, hkeep]

theorem getLast_trim (h : trim s ≠ []) : (trim s).getLast h ≠ 47 := by
  intro hlast
  exact List.rdropWhile_last_not (fun b : UInt8 => b = 47) s h (decide_eq_true hlast)

/-- What stands before the last slash. -/
theorem rdropWhile_cut (d : Bytes) (h : 47 ∉ c) : (d ++ 47 :: c).rdropWhile (· ≠ 47) = d ++ [47] := by
  induction c using List.reverseRecOn with
  | nil => exact List.rdropWhile_concat_neg _ _ _ (by simp)
  | append_singleton c b ih =>
    have hb : b ≠ 47 := fun hb => h (hb ▸ List.mem_append_right c (List.mem_singleton_self b))
    rw [← List.cons_append, ← List.append_assoc, List.rdropWhile_concat_pos _ _ _ (by simpa using hb)]
    exact ih fun hc => h (List.mem_append_left _ hc)

/-- A name with a slash inside is a directory, a slash and a component that is not empty. -/
theorem trim_eq_append (h : 47 ∈ trim s) : ∃ d c, 47 ∉ c ∧ c ≠ [] ∧ trim s = d ++ 47 :: c := by
  obtain ⟨c, d, hcut, hc⟩ := List.eq_append_cons_of_mem (List.mem_reverse.mpr h)
  have hs : trim s = d.reverse ++ 47 :: c.reverse := by
    rw [← List.reverse_reverse (trim s), hcut]
    simp
  refine ⟨d.reverse, c.reverse, by simpa using hc, fun hnil => ?_, hs⟩
  have hne : trim s ≠ [] := List.ne_nil_of_mem h
  apply getLast_trim hne
  simp [hs, hnil]

/-- The name of a directory, for a name with a slash inside. -/
theorem dirname_eq {d : Bytes} (hc : 47 ∉ c) (hs : trim s = d ++ 47 :: c) :
    dirname s = if trim d = [] then [47] else trim d := by
  have hne : s ≠ [] := by
    rintro rfl
    simp [trim] at hs
  have htrim : trim s ≠ [] := by simp [hs]
  have hcut : (trim s).rdropWhile (· ≠ 47) = d ++ [47] := hs ▸ rdropWhile_cut d hc
  rw [dirname, if_neg hne, if_neg htrim, hcut, if_neg (by simp), trim_concat]

/-- **A directory is one step less.** -/
theorem steps_dirname (h : 47 ∈ trim s) : steps (dirname s) = (steps s).dropLast := by
  obtain ⟨d, c, hc, hne, hs⟩ := trim_eq_append h
  have hsteps : steps s = steps d ++ [c] := by
    rw [← steps_trim s, hs, steps_append, steps_component hne hc]
  rw [dirname_eq hc hs, hsteps, List.dropLast_concat]
  by_cases hd : trim d = []
  · rw [if_pos hd, ← steps_trim d, hd]
    rfl
  · rw [if_neg hd, steps_trim]

theorem head?_trim (h : trim s ≠ []) : (trim s).head? = s.head? := by
  obtain ⟨r, hr⟩ : trim s <+: s := List.rdropWhile_prefix _ s
  conv_rhs => rw [← hr]
  rw [List.head?_append_of_ne_nil _ h]

theorem head?_dirname (h : 47 ∈ trim s) : (dirname s).head? = some 47 ↔ s.head? = some 47 := by
  obtain ⟨d, c, hc, -, hs⟩ := trim_eq_append h
  rw [← head?_trim (List.ne_nil_of_mem h), dirname_eq hc hs, hs]
  by_cases hd : trim d = []
  · rw [if_pos hd]
    -- The directory has slashes only.
    have hall : ∀ b ∈ d, b = 47 := by
      intro b hb
      simpa using List.rdropWhile_eq_nil_iff.mp hd b hb
    cases d with
    | nil => exact Iff.rfl
    | cons b d => rw [List.cons_append, hall b List.mem_cons_self]; exact Iff.rfl
  · have hne : d ≠ [] := by
      rintro rfl
      exact hd rfl
    rw [if_neg hd, head?_trim hd, List.head?_append_of_ne_nil _ hne]

/-- A name without a slash inside stands in the directory `.`. -/
theorem dirname_of_notMem (hne : trim s ≠ []) (h : 47 ∉ trim s) : dirname s = [46] := by
  have hs : s ≠ [] := by
    rintro rfl
    exact hne rfl
  have hcut : (trim s).rdropWhile (· ≠ 47) = [] := by
    refine List.rdropWhile_eq_nil_iff.mpr fun b hb => ?_
    simpa using fun hb47 : b = 47 => h (hb47 ▸ hb)
  rw [dirname, if_neg hs, if_neg hne, if_pos hcut]

end Steps

end Path
