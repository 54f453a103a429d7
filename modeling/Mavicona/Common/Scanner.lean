import Mathlib.Data.List.TakeWhile
import Mathlib.Data.List.MinMax

/-!
# Scanners

A scanner cuts a text into lexemes by a list of rules, each with a pattern: at every place it takes
the longest match, and the first rule among those that have it. `Lexes` says so, and `scan` computes
it. The patterns are sequences of characters and of runs of characters, of some class each. Where no
run can go on with what follows it, the longest match takes every run as far as it goes.
-/

namespace Scanner

variable {α β : Type}

/-! ## Patterns -/

/-- A part of a pattern: one character of a class, or any number of them. -/
inductive Part (α : Type)
  | one (p : α → Bool)
  | many (p : α → Bool)

/-- A pattern, part by part. -/
abbrev Pattern (α : Type) := List (Part α)

namespace Pattern

/-- The words of a pattern. -/
def Matches : Pattern α → List α → Prop
  | [], w => w = []
  | .one p :: parts, w => ∃ c v, w = c :: v ∧ p c = true ∧ Matches parts v
  | .many p :: parts, w => ∃ u v, w = u ++ v ∧ (∀ c ∈ u, p c = true) ∧ Matches parts v

/-- The length of the match that takes every run as far as it goes. -/
def greedy : Pattern α → List α → Option ℕ
  | [], _ => some 0
  | .one _ :: _, [] => none
  | .one p :: parts, c :: s => if p c then (greedy parts s).map (· + 1) else none
  | .many p :: parts, s => (greedy parts (s.dropWhile p)).map (· + (s.takeWhile p).length)

/-- No run can go on with what follows it. -/
def Exclusive : Pattern α → Prop
  | [] => True
  | .one _ :: parts => Exclusive parts
  | .many _ :: [] => True
  | .many p :: .one q :: parts => (∀ c, p c = true → q c = false) ∧ Exclusive parts
  | .many _ :: .many _ :: _ => False

/-- The longest match of a pattern at the start of a text has this length. -/
def IsLongest (parts : Pattern α) (s : List α) (n : ℕ) : Prop :=
  (∃ w r, s = w ++ r ∧ w.length = n ∧ Matches parts w) ∧
    ∀ w r, s = w ++ r → Matches parts w → w.length ≤ n

/-- A run goes as far as it can, if something of another class follows. -/
theorem append_eq_of_run {p q : α → Bool} (hpq : ∀ c, p c = true → q c = false) {s u r : List α}
    {c : α} (hs : s = u ++ c :: r) (hu : ∀ c ∈ u, p c = true) (hc : q c = true) :
    s.takeWhile p = u ∧ s.dropWhile p = c :: r := by
  have hpc : p c ≠ true := fun h => by rw [hpq c h] at hc; exact Bool.false_ne_true hc
  subst hs
  rw [List.takeWhile_append_of_pos hu, List.dropWhile_append_of_pos hu,
    List.takeWhile_cons_of_neg hpc, List.dropWhile_cons_of_neg hpc, List.append_nil]
  exact ⟨rfl, rfl⟩

/-- Every match has the length that `greedy` finds, or is shorter. -/
theorem le_greedy {parts : Pattern α} (hex : Exclusive parts) {s w r : List α} (hs : s = w ++ r)
    (hw : Matches parts w) : ∃ n, greedy parts s = some n ∧ w.length ≤ n := by
  induction parts generalizing s w r with
  | nil =>
    obtain rfl : w = [] := hw
    exact ⟨0, rfl, le_rfl⟩
  | cons part parts ih =>
    cases part with
    | one p =>
      obtain ⟨c, v, rfl, hc, hv⟩ := hw
      obtain ⟨n, hn, hle⟩ := ih hex rfl hv
      subst hs
      refine ⟨n + 1, ?_, by simpa using hle⟩
      rw [List.cons_append, greedy, if_pos hc, hn]
      rfl
    | many p =>
      obtain ⟨u, v, rfl, hu, hv⟩ := hw
      cases parts with
      | nil =>
        -- The last run: it goes on over the whole word.
        obtain rfl : v = [] := hv
        rw [List.append_nil] at hs ⊢
        refine ⟨(s.takeWhile p).length, by simp [greedy], ?_⟩
        rw [hs, List.takeWhile_append_of_pos hu, List.length_append]
        exact Nat.le_add_right _ _
      | cons part parts =>
        cases part with
        | many q => exact absurd hex id
        | one q =>
          obtain ⟨c, v', rfl, hc, hv'⟩ := id hv
          rw [List.append_assoc, List.cons_append] at hs
          obtain ⟨htake, hdrop⟩ := append_eq_of_run hex.1 hs hu hc
          obtain ⟨n, hn, hle⟩ := ih (s := c :: (v' ++ r)) (w := c :: v') (r := r) hex.2 rfl hv
          refine ⟨n + u.length, ?_, ?_⟩
          · rw [greedy, hdrop, hn, htake]
            rfl
          · rw [List.length_append]
            omega

/-- What `greedy` finds is a match. -/
theorem matches_of_greedy {parts : Pattern α} {s : List α} {n : ℕ} (h : greedy parts s = some n) :
    ∃ w r, s = w ++ r ∧ w.length = n ∧ Matches parts w := by
  induction parts generalizing s n with
  | nil => exact ⟨[], s, rfl, Option.some_inj.mp h, rfl⟩
  | cons part parts ih =>
    cases part with
    | one p =>
      cases s with
      | nil => exact absurd h (by simp [greedy])
      | cons c s =>
        rw [greedy] at h
        split_ifs at h with hc
        obtain ⟨m, hm, rfl⟩ := Option.map_eq_some_iff.mp h
        obtain ⟨w, r, rfl, rfl, hw⟩ := ih hm
        exact ⟨c :: w, r, rfl, rfl, c, w, rfl, hc, hw⟩
    | many p =>
      rw [greedy] at h
      obtain ⟨m, hm, rfl⟩ := Option.map_eq_some_iff.mp h
      obtain ⟨w, r, hs, rfl, hw⟩ := ih hm
      refine ⟨s.takeWhile p ++ w, r, ?_, ?_, s.takeWhile p, w, rfl,
        fun c hc => List.mem_takeWhile_imp hc, hw⟩
      · rw [List.append_assoc, ← hs, List.takeWhile_append_dropWhile]
      · rw [List.length_append, Nat.add_comm]

theorem greedy_eq_some_iff {parts : Pattern α} (hex : Exclusive parts) {s : List α} {n : ℕ} :
    greedy parts s = some n ↔ IsLongest parts s n := by
  constructor
  · intro h
    refine ⟨matches_of_greedy h, fun w r hs hw => ?_⟩
    obtain ⟨m, hm, hle⟩ := le_greedy hex hs hw
    rwa [← Option.some_inj.mp (hm.symm.trans h)]
  · rintro ⟨⟨w, r, hs, rfl, hw⟩, hmax⟩
    obtain ⟨m, hm, hle⟩ := le_greedy hex hs hw
    obtain ⟨w', r', hs', rfl, hw'⟩ := matches_of_greedy hm
    rw [hm, Nat.le_antisymm (hmax w' r' hs' hw') hle]

end Pattern

/-! ## Rules -/

/-- The longest match of all rules has the length `n`, and `b` belongs to the first rule that has
it. -/
def Chosen (rules : List (Pattern α × β)) (s : List α) (n : ℕ) (b : β) : Prop :=
  ∃ before parts after, rules = before ++ (parts, b) :: after ∧ parts.IsLongest s n ∧
    (∀ r ∈ rules, ∀ m, r.1.IsLongest s m → m ≤ n) ∧ ∀ r ∈ before, ¬ r.1.IsLongest s n

/-- The lexemes of a text. -/
inductive Lexes (rules : List (Pattern α × β)) : List α → List (β × List α) → Prop
  | nil : Lexes rules [] []
  | cons {s : List α} {n : ℕ} {b : β} {ls : List (β × List α)} : 0 < n → Chosen rules s n b →
      Lexes rules (s.drop n) ls → Lexes rules s ((b, s.take n) :: ls)

/-- The length of the longest match, and the first rule that has it. -/
def longest (rules : List (Pattern α × β)) (s : List α) : Option (ℕ × β) :=
  match (rules.filterMap fun r => r.1.greedy s).max? with
  | none => none
  | some n => (rules.find? fun r => r.1.greedy s = some n).map fun r => (n, r.2)

/-- The lexemes of a text, at most `k` of them. -/
def scan (rules : List (Pattern α × β)) : ℕ → List α → List (β × List α)
  | 0, _ => []
  | _ + 1, [] => []
  | k + 1, c :: s =>
    match longest rules (c :: s) with
    | none => []
    | some (n, b) => (b, (c :: s).take n) :: scan rules k ((c :: s).drop n)

/-- The rules have patterns that can be matched run by run, and match something of every text. -/
structure Lawful (rules : List (Pattern α × β)) : Prop where
  exclusive : ∀ r ∈ rules, r.1.Exclusive
  covering : ∀ c s, ∃ r ∈ rules, ∃ n, 0 < n ∧ r.1.greedy (c :: s) = some n

namespace Lawful

variable {rules : List (Pattern α × β)} (hr : Lawful rules) {s : List α} {n : ℕ} {b : β}
  {ls : List (β × List α)}
include hr

theorem longest_eq_some_iff : longest rules s = some (n, b) ↔ Chosen rules s n b := by
  have hgreedy : ∀ r ∈ rules, ∀ m, r.1.greedy s = some m ↔ r.1.IsLongest s m :=
    fun r hmem m => Pattern.greedy_eq_some_iff (hr.exclusive r hmem)
  have hmax : (rules.filterMap fun r => r.1.greedy s).max? = some n ↔
      (∃ r ∈ rules, r.1.IsLongest s n) ∧ ∀ r ∈ rules, ∀ m, r.1.IsLongest s m → m ≤ n := by
    rw [List.max?_eq_some_iff]
    simp only [List.mem_filterMap, forall_exists_index, and_imp]
    constructor
    · rintro ⟨⟨r, hmem, hn⟩, hle⟩
      exact ⟨⟨r, hmem, (hgreedy r hmem n).mp hn⟩,
        fun q hq m hm => hle m q hq ((hgreedy q hq m).mpr hm)⟩
    · rintro ⟨⟨r, hmem, hn⟩, hle⟩
      exact ⟨⟨r, hmem, (hgreedy r hmem n).mpr hn⟩,
        fun m q hq hm => hle q hq m ((hgreedy q hq m).mp hm)⟩
  constructor
  · intro h
    unfold longest at h
    split at h
    · exact absurd h (by simp)
    · rename_i m hm
      obtain ⟨⟨parts, b'⟩, hfind, heq⟩ := Option.map_eq_some_iff.mp h
      obtain ⟨rfl, rfl⟩ := Prod.mk.inj heq
      obtain ⟨hparts, before, after, hrules, hbefore⟩ := List.find?_eq_some_iff_append.mp hfind
      have hmem : (parts, b') ∈ rules := by rw [hrules]; simp
      refine ⟨before, parts, after, hrules, ?_, (hmax.mp hm).2, fun r hr' hn => ?_⟩
      · exact (hgreedy _ hmem m).mp (of_decide_eq_true hparts)
      · have hrmem : r ∈ rules := by rw [hrules]; exact List.mem_append_left _ hr'
        have hno := hbefore r hr'
        rw [decide_eq_true ((hgreedy r hrmem m).mpr hn)] at hno
        exact absurd hno (by simp)
  · rintro ⟨before, parts, after, hrules, hlong, hle, hbefore⟩
    have hmem : (parts, b) ∈ rules := by rw [hrules]; simp
    have hfind : (rules.find? fun r => r.1.greedy s = some n) = some (parts, b) := by
      refine List.find?_eq_some_iff_append.mpr
        ⟨decide_eq_true ((hgreedy _ hmem n).mpr hlong), before, after, hrules, fun r hr' => ?_⟩
      have hrmem : r ∈ rules := by rw [hrules]; exact List.mem_append_left _ hr'
      rw [decide_eq_false fun h => hbefore r hr' ((hgreedy r hrmem n).mp h)]
      rfl
    rw [longest, hmax.mpr ⟨⟨_, hmem, hlong⟩, hle⟩]
    exact congrArg (Option.map fun r => (n, r.2)) hfind

/-- Every text has a longest match, and it is not empty. -/
theorem exists_longest (c : α) (s : List α) :
    ∃ n b, 0 < n ∧ longest rules (c :: s) = some (n, b) := by
  obtain ⟨r, hmem, m, hpos, hm⟩ := hr.covering c s
  have hlen : m ∈ rules.filterMap fun r => r.1.greedy (c :: s) := List.mem_filterMap.mpr ⟨r, hmem, hm⟩
  obtain ⟨n, hn⟩ := Option.isSome_iff_exists.mp (List.isSome_max?_of_mem hlen)
  obtain ⟨hnmem, hle⟩ := List.max?_eq_some_iff.mp hn
  obtain ⟨q, hq, hqn⟩ := List.mem_filterMap.mp hnmem
  have hsome : (rules.find? fun r => r.1.greedy (c :: s) = some n).isSome :=
    List.find?_isSome.mpr ⟨q, hq, decide_eq_true hqn⟩
  obtain ⟨p, hp⟩ := Option.isSome_iff_exists.mp hsome
  refine ⟨n, p.2, hpos.trans_le (hle m hlen), ?_⟩
  rw [longest, hn]
  exact congrArg (Option.map fun r => (n, r.2)) hp

omit hr in
/-- An empty text has no lexemes. -/
theorem lexes_nil_iff : Lexes rules [] ls ↔ ls = [] := by
  constructor
  · intro h
    cases h with
    | nil => rfl
    | cons hpos hchosen _ =>
      obtain ⟨_, _, _, _, ⟨⟨w, r, hs, hlen, _⟩, _⟩, _⟩ := hchosen
      rw [(List.nil_eq_append_iff.mp hs).1] at hlen
      exact absurd hlen (Nat.ne_of_lt hpos)
  · rintro rfl
    exact .nil

/-- **`scan` finds the lexemes of every text, and there are no others.** -/
theorem lexes_iff {k : ℕ} (hk : s.length ≤ k) : Lexes rules s ls ↔ scan rules k s = ls := by
  induction k generalizing s ls with
  | zero =>
    obtain rfl : s = [] := List.length_eq_zero_iff.mp (Nat.le_zero.mp hk)
    rw [lexes_nil_iff]
    exact eq_comm
  | succ k ih =>
    cases s with
    | nil =>
      rw [lexes_nil_iff]
      exact eq_comm
    | cons c s =>
      obtain ⟨n, b, hpos, hlong⟩ := hr.exists_longest c s
      have hdrop : ((c :: s).drop n).length ≤ k := by
        rw [List.length_drop]
        omega
      rw [scan, hlong]
      constructor
      · intro h
        cases h with
        | cons hpos' hchosen hrest =>
          -- The match is determined, and so is the rest of the text.
          obtain ⟨rfl, rfl⟩ := Prod.mk.inj
            (Option.some_inj.mp (hlong.symm.trans (hr.longest_eq_some_iff.mpr hchosen)))
          exact congrArg _ ((ih hdrop).mp hrest)
      · rintro rfl
        exact .cons hpos (hr.longest_eq_some_iff.mp hlong) ((ih hdrop).mpr rfl)

end Lawful

end Scanner
