import Mavicona.Common.Path

/-!
# The names a package may use

Reference: `par/decode.c`.

A package comes from a client, and its names are taken for names below the directory it is unpacked
in. `safer_name_suffix` cuts a name for that: leading slashes go, and so does everything up to the
last `../`.
-/

namespace Mavicona.Par

open Path

/-! ## The scan -/

/-- The inner loop: `p` and `t` move over every `../` that stands at `p`. -/
def skipDots : Bytes → Bytes → Bytes × Bytes
  | a :: b :: c :: p, t => if a = 46 ∧ a = b ∧ c = 47 then skipDots p p else (a :: b :: c :: p, t)
  | p, t => (p, t)

/-- Advance past the next slash. -/
def skipPart : Bytes → Bytes
  | [] => []
  | b :: p => if b ≠ 47 then skipPart p else p

/-- The outer loop, at most `n` times round: where `t` stands in the end. -/
def scan : ℕ → Bytes → Bytes → Bytes
  | 0, _, t => t
  | n + 1, p, t => if p = [] then t else scan n (skipPart (skipDots p t).1) (skipDots p t).2

/-- `safer_name_suffix`; every round takes at least one byte. -/
def saferNameSuffix (fileName : Bytes) : Bytes :=
  let p := fileName.dropWhile (· = 47)
  let t := scan p.length p p
  if t = [] then [46] else t

/-! ## What is left of a name -/

local instance lawfulBytes : LawfulBEq Bytes := inferInstance

/-- The components after the last `..` that a slash follows. -/
def kept : List Bytes → List Bytes
  | [] => []
  | c :: cs => if dotDot ∈ (c :: cs).dropLast then kept cs else c :: cs

/-- The names with these components. -/
def join (cs : List Bytes) : Bytes := [47].intercalate cs

section Kept

variable {c : Bytes} {as bs cs : List Bytes}

theorem kept_of_notMem (h : dotDot ∉ cs.dropLast) : kept cs = cs := by
  cases cs with
  | nil => rfl
  | cons c cs => rw [kept, if_neg h]

theorem kept_append (hbs : bs ≠ []) : kept (as ++ dotDot :: bs) = kept bs := by
  obtain ⟨b, bs, rfl⟩ := List.exists_cons_of_ne_nil hbs
  induction as with
  | nil => rw [List.nil_append, kept, if_pos (by simp)]
  | cons a as ih =>
    rw [List.cons_append, kept, if_pos, ih]
    rw [List.dropLast_cons_of_ne_nil (by simp), List.dropLast_append_of_ne_nil (by simp)]
    simp

/-- Nothing is cut, or something that ends with `..`. -/
theorem kept_cases (hcs : cs ≠ []) :
    dotDot ∉ (kept cs).dropLast ∧ kept cs ≠ [] ∧
    (kept cs = cs ∨ ∃ as, cs = as ++ dotDot :: kept cs) := by
  by_cases hmem : dotDot ∈ cs.dropLast
  · induction cs with
    | nil => exact absurd rfl hcs
    | cons c cs ih =>
      have hne : cs ≠ [] := by
        rintro rfl
        simp at hmem
      rw [kept, if_pos hmem]
      rw [List.dropLast_cons_of_ne_nil hne, List.mem_cons] at hmem
      by_cases hrest : dotDot ∈ cs.dropLast
      · obtain ⟨hnot, hkept, hcut⟩ := ih hne hrest
        refine ⟨hnot, hkept, .inr ?_⟩
        rcases hcut with hall | ⟨as, has⟩
        · rw [hall] at hnot
          exact absurd hrest hnot
        · exact ⟨c :: as, congrArg (c :: ·) has⟩
      · rw [kept_of_notMem hrest]
        exact ⟨hrest, hne, .inr ⟨[], by rw [List.nil_append, hmem.resolve_right hrest]⟩⟩
  · rw [kept_of_notMem hmem]
    exact ⟨hmem, hcs, .inl rfl⟩

theorem getLast_kept (hcs : cs ≠ []) : (kept cs).getLast? = cs.getLast? := by
  obtain ⟨-, hne, hall | ⟨as, has⟩⟩ := kept_cases hcs
  · rw [hall]
  · conv_rhs => rw [has]
    rw [List.getLast?_append_of_ne_nil _ (List.cons_ne_nil _ _), List.getLast?_cons_of_ne_nil hne]

end Kept

/-! ## The scan finds it -/

/-- What the scan leaves of the components of `p`, from `t` on. -/
def scanned (p t : Bytes) : Bytes :=
  if dotDot ∈ (components p).dropLast then join (kept (components p)) else t

section Scan

variable {c p t : Bytes}

theorem join_components (p : Bytes) : join (components p) = p := List.intercalate_splitOn 47

theorem components_join {cs : List Bytes} (hcs : cs ≠ []) (h : ∀ c ∈ cs, 47 ∉ c) :
    components (join cs) = cs :=
  List.splitOn_intercalate 47 h hcs

theorem scanned_last (h : 47 ∉ c) : scanned c t = t := by
  rw [scanned, components_last h, if_neg (by simp)]

theorem scanned_dots (p t : Bytes) : scanned (dotDot ++ 47 :: p) t = scanned p p := by
  have hnot : 47 ∉ dotDot := by decide
  rw [scanned, components_cut hnot, if_pos, ← List.nil_append (dotDot :: _),
    kept_append components_ne_nil, scanned]
  · by_cases hmem : dotDot ∈ (components p).dropLast
    · rw [if_pos hmem]
    · rw [if_neg hmem, kept_of_notMem hmem, join_components]
  · rw [List.dropLast_cons_of_ne_nil components_ne_nil]
    exact List.mem_cons_self

theorem scanned_cut (h : 47 ∉ c) (hdots : c ≠ dotDot) (r t : Bytes) :
    scanned (c ++ 47 :: r) t = scanned r t := by
  have hmem : dotDot ∈ (c :: components r).dropLast ↔ dotDot ∈ (components r).dropLast := by
    rw [List.dropLast_cons_of_ne_nil components_ne_nil, List.mem_cons]
    exact or_iff_right (Ne.symm hdots)
  rw [scanned, scanned, components_cut h]
  by_cases hr : dotDot ∈ (components r).dropLast
  · rw [if_pos (hmem.mpr hr), if_pos hr, kept, if_pos (hmem.mpr hr)]
  · rw [if_neg (hr ∘ hmem.mp), if_neg hr]

/-- The inner loop stops where no `../` stands, and has lost nothing. -/
theorem skipDots_spec (p t : Bytes) :
    scanned (skipDots p t).1 (skipDots p t).2 = scanned p t ∧ (skipDots p t).1.length ≤ p.length ∧
      ∀ r, (skipDots p t).1 ≠ dotDot ++ 47 :: r := by
  fun_induction skipDots p t with
  | case1 a b c p t h ih =>
    obtain ⟨ha, hb, hc⟩ := h
    subst hb ha hc
    refine ⟨ih.1.trans (scanned_dots p t).symm, ih.2.1.trans ?_, ih.2.2⟩
    simp only [List.length_cons]
    omega
  | case2 a b c p t h =>
    refine ⟨rfl, le_rfl, fun r hr => h ?_⟩
    simp only [dotDot, List.cons_append, List.nil_append, List.cons.injEq] at hr
    exact ⟨hr.1, hr.1.trans hr.2.1.symm, hr.2.2.1⟩
  | case3 p t h =>
    refine ⟨rfl, le_rfl, fun r hr => ?_⟩
    exact h 46 46 47 r hr

theorem skipPart_of_notMem (h : 47 ∉ c) : skipPart c = [] := by
  induction c with
  | nil => rfl
  | cons b c ih =>
    rw [List.mem_cons, not_or] at h
    rw [skipPart, if_pos (Ne.symm h.1), ih h.2]

theorem skipPart_cut (h : 47 ∉ c) (r : Bytes) : skipPart (c ++ 47 :: r) = r := by
  induction c with
  | nil => exact if_neg fun h => h rfl
  | cons b c ih =>
    rw [List.mem_cons, not_or] at h
    rw [List.cons_append, skipPart, if_pos (Ne.symm h.1), ih h.2]

/-- The next round starts at the next component. -/
theorem skipPart_spec (h : ∀ r, p ≠ dotDot ++ 47 :: r) :
    scanned (skipPart p) t = scanned p t ∧ (p ≠ [] → (skipPart p).length < p.length) := by
  induction p using component_induction with
  | last c hc =>
    rw [skipPart_of_notMem hc, scanned_last List.not_mem_nil, scanned_last hc]
    exact ⟨rfl, List.length_pos_iff.mpr⟩
  | cut c r hc =>
    rw [skipPart_cut hc, scanned_cut hc fun hdots => h r (by rw [hdots])]
    refine ⟨rfl, fun _ => ?_⟩
    rw [List.length_append, List.length_cons]
    omega

theorem scan_eq {n : ℕ} (h : p.length ≤ n) : scan n p t = scanned p t := by
  induction n generalizing p t with
  | zero =>
    obtain rfl := List.eq_nil_of_length_eq_zero (Nat.le_zero.mp h)
    exact (scanned_last List.not_mem_nil).symm
  | succ n ih =>
    rw [scan]
    by_cases hp : p = []
    · rw [if_pos hp, hp, scanned_last List.not_mem_nil]
    · obtain ⟨hsame, hle, hstop⟩ := skipDots_spec p t
      obtain ⟨hnext, hlt⟩ := skipPart_spec (t := (skipDots p t).2) hstop
      rw [if_neg hp, ih, hnext, hsame]
      by_cases hdone : (skipDots p t).1 = []
      · rw [hdone]
        exact Nat.zero_le n
      · have := hlt hdone
        omega

/-- A name is cut to what its components keep. -/
theorem saferNameSuffix_eq (s : Bytes) :
    saferNameSuffix s = if join (kept (components (s.dropWhile (· = 47)))) = [] then [46]
      else join (kept (components (s.dropWhile (· = 47)))) := by
  have hscan : ∀ p : Bytes, scan p.length p p = join (kept (components p)) := by
    intro p
    rw [scan_eq le_rfl, scanned]
    by_cases hmem : dotDot ∈ (components p).dropLast
    · rw [if_pos hmem]
    · rw [if_neg hmem, kept_of_notMem hmem, join_components]
  rw [saferNameSuffix, hscan]

end Scan

/-! ## Names that are safe -/

/-- A name that is not absolute and has no component `..`. -/
def Safe (s : Bytes) : Prop := s.head? ≠ some 47 ∧ dotDot ∉ components s

instance (s : Bytes) : Decidable (Safe s) := inferInstanceAs (Decidable (_ ∧ _))

/-- The components do not end with `..`, and a `..` before an empty component that is not the
last one has another `..` after it. -/
def Cleanable (cs : List Bytes) : Prop :=
  cs.getLast? ≠ some dotDot ∧ ∀ as bs, cs = as ++ dotDot :: [] :: bs → bs = [] ∨ dotDot ∈ bs

section Safe

variable {cs : List Bytes} {s : Bytes}

/-- The name starts with a slash if the first component is empty and not the last one. -/
theorem head?_join (h : ∀ c ∈ cs, 47 ∉ c) :
    (join cs).head? = some 47 ↔ ∃ d ds, cs = [] :: d :: ds := by
  rcases cs with _ | ⟨_ | ⟨b, c⟩, _ | ⟨d, ds⟩⟩
  · simp [join]
  · simp [join]
  · simp [join]
  · have hb : b ≠ 47 := fun hb => h (b :: c) List.mem_cons_self (hb ▸ List.mem_cons_self)
    simp [join, hb]
  · have hb : b ≠ 47 := fun hb => h (b :: c) List.mem_cons_self (hb ▸ List.mem_cons_self)
    simp [join, hb]

theorem dotDot_notMem_kept (hcs : cs ≠ []) : dotDot ∉ kept cs ↔ cs.getLast? ≠ some dotDot := by
  obtain ⟨hnot, hne, -⟩ := kept_cases hcs
  rw [← getLast_kept hcs, List.getLast?_eq_some_getLast hne, ne_eq, Option.some.injEq]
  conv_lhs => rw [← List.dropLast_append_getLast hne]
  rw [List.mem_append, List.mem_singleton, not_or]
  exact ⟨fun h hlast => h.2 hlast.symm, fun h => ⟨hnot, fun hlast => h hlast.symm⟩⟩

/-- The rest of a name that does not end with `..` starts with a slash after a `..` before an empty
component, if that is the last `..`. -/
theorem kept_eq_cons_iff (hcs : cs ≠ []) (hhead : ∀ d ds, cs ≠ [] :: d :: ds)
    (hlast : cs.getLast? ≠ some dotDot) :
    (∃ d ds, kept cs = [] :: d :: ds) ↔ ∃ as bs, cs = as ++ dotDot :: [] :: bs ∧ bs ≠ [] ∧
    dotDot ∉ bs := by
  have hnot : dotDot ∉ kept cs := (dotDot_notMem_kept hcs).mpr hlast
  constructor
  · rintro ⟨d, ds, hkept⟩
    obtain ⟨-, -, hall | ⟨as, has⟩⟩ := kept_cases hcs
    · exact absurd (hall.symm.trans hkept) (hhead d ds)
    · rw [hkept] at has hnot
      refine ⟨as, d :: ds, has, List.cons_ne_nil d ds, fun hmem => hnot ?_⟩
      exact List.mem_cons_of_mem _ hmem
  · rintro ⟨as, bs, rfl, hbs, hmem⟩
    obtain ⟨b, bs, rfl⟩ := List.exists_cons_of_ne_nil hbs
    refine ⟨b, bs, ?_⟩
    rw [kept_append (List.cons_ne_nil _ _), kept_of_notMem]
    intro h
    rcases List.mem_cons.mp (List.dropLast_subset _ h) with h | h
    · exact List.cons_ne_nil _ _ h
    · exact hmem h

/-- Slashes in front of a name do not count. -/
theorem cleanable_cons (hcs : cs ≠ []) : Cleanable ([] :: cs) ↔ Cleanable cs := by
  rw [Cleanable, Cleanable, List.getLast?_cons_of_ne_nil hcs]
  refine and_congr_right fun _ => ⟨fun h as bs hsplit => h ([] :: as) bs ?_, fun h as bs hsplit => ?_⟩
  · rw [hsplit, List.cons_append]
  · cases as with
    | nil => exact absurd (List.cons.inj hsplit).1 (by decide)
    | cons a as => exact h as bs (List.cons.inj hsplit).2

theorem cleanable_dropWhile (s : Bytes) :
    Cleanable (components (s.dropWhile (· = 47))) ↔ Cleanable (components s) := by
  induction s with
  | nil => rfl
  | cons b s ih =>
    by_cases hb : b = 47
    · rw [hb, List.dropWhile_cons_of_pos (by simp), components_slash,
        cleanable_cons components_ne_nil, ih]
    · rw [List.dropWhile_cons_of_neg (by simpa using hb)]

/-- **A name is made safe if and only if it does not end with `..` and its last `..` is not
followed by two slashes and more.** -/
theorem safe_saferNameSuffix (s : Bytes) : Safe (saferNameSuffix s) ↔ Cleanable (components s) := by
  rw [← cleanable_dropWhile s, saferNameSuffix_eq]
  set cs := components (s.dropWhile (· = 47)) with hdef
  have hcs : cs ≠ [] := components_ne_nil
  have hslash : ∀ c ∈ cs, 47 ∉ c := fun c hc => slash_notMem hc
  have hkept : ∀ c ∈ kept cs, 47 ∉ c := by
    obtain ⟨-, -, hall | ⟨as, has⟩⟩ := kept_cases hcs
    · rwa [hall]
    · intro c hc
      apply hslash
      rw [has]
      exact List.mem_append_right _ (List.mem_cons_of_mem _ hc)
  have hhead : ∀ d ds, cs ≠ [] :: d :: ds := by
    intro d ds hstart
    have hfirst := (head?_join hslash).mpr ⟨d, ds, hstart⟩
    have hstop := List.head?_dropWhile_not (fun b : UInt8 => decide (b = 47)) s
    rw [hdef, join_components] at hfirst
    rw [hfirst] at hstop
    exact absurd (show decide ((47 : UInt8) = 47) = false from hstop) (by simp)
  have hsafe : Safe (join (kept cs)) ↔ Cleanable cs := by
    rw [Safe, components_join (kept_cases hcs).2.1 hkept, dotDot_notMem_kept hcs, Cleanable, and_comm]
    refine and_congr_right fun hlast => ?_
    rw [ne_eq, head?_join hkept, kept_eq_cons_iff hcs hhead hlast]
    constructor
    · intro h as bs hsplit
      by_contra hnot
      rw [not_or] at hnot
      exact h ⟨as, bs, hsplit, hnot⟩
    · rintro h ⟨as, bs, hsplit, hbs, hmem⟩
      exact hmem ((h as bs hsplit).resolve_left hbs)
  by_cases hnil : join (kept cs) = []
  · rw [hnil] at hsafe
    rw [if_pos hnil, ← hsafe]
    exact iff_of_true (by decide) (by decide)
  · rw [if_neg hnil, hsafe]

end Safe

end Mavicona.Par
