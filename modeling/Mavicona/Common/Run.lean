import Mathlib.Data.List.Induction

/-!
# Guarded runs of a step function

`Run step ok s₀ as s` says that `s` is reached from `s₀` by the operations `as`, in order, where
every operation met the guard `ok` in the state it was applied to. The history `as` is part of the
statement, so an invariant may relate a state to everything that happened before it.
-/

namespace Trace

variable {σ α : Type*} {step : σ → α → σ} {ok ok' : σ → α → Prop} {s₀ s : σ} {as : List α}

/-- `s` is reached from `s₀` by the guarded operations `as`. -/
inductive Run (step : σ → α → σ) (ok : σ → α → Prop) (s₀ : σ) : List α → σ → Prop
  | nil : Run step ok s₀ [] s₀
  | snoc {as : List α} {s : σ} {a : α} :
      Run step ok s₀ as s → ok s a → Run step ok s₀ (as ++ [a]) (step s a)

/-- The invariant rule: what holds initially and survives every guarded step holds at the end of
every run, together with the history. -/
theorem Run.invariant {P : List α → σ → Prop} (h : Run step ok s₀ as s) (init : P [] s₀)
    (next : ∀ as s a, P as s → ok s a → P (as ++ [a]) (step s a)) : P as s := by
  induction h with
  | nil => exact init
  | snoc _ hok ih => exact next _ _ _ ih hok

/-- A run of one operation. -/
theorem Run.single {a : α} (h : ok s₀ a) : Run step ok s₀ [a] (step s₀ a) := .snoc .nil h

/-- A stronger guard allows fewer runs. -/
theorem Run.mono (h : Run step ok s₀ as s) (hok : ∀ s a, ok s a → ok' s a) :
    Run step ok' s₀ as s := by
  induction h with
  | nil => exact .nil
  | snoc _ ha ih => exact .snoc ih (hok _ _ ha)

/-- The state a run reaches is the fold of its operations. -/
theorem Run.eq_foldl (h : Run step ok s₀ as s) : s = as.foldl step s₀ := by
  induction h with
  | nil => rfl
  | snoc _ _ ih => rw [List.foldl_append, ← ih]; rfl

/-- Operations that meet a guard of their own make a run. -/
theorem run_foldl {ok : α → Prop} (h : ∀ a ∈ as, ok a) :
    Run step (fun _ a => ok a) s₀ as (as.foldl step s₀) := by
  induction as using List.reverseRecOn with
  | nil => exact .nil
  | append_singleton as a ih =>
    rw [List.foldl_append]
    exact .snoc (ih fun b hb => h b (List.mem_append_left _ hb)) (h a (by simp))

/-! ## Every point of an execution -/

/-- `P` holds at every point of the execution of `as` from `s`, its start and its end included. -/
def Always (step : σ → α → σ) (P : σ → Prop) (s : σ) (as : List α) : Prop :=
  ∀ n, P ((as.take n).foldl step s)

section Always

variable {P : σ → Prop} {bs : List α} {a : α}

theorem always_nil : Always step P s [] ↔ P s := by simp [Always]

theorem always_cons : Always step P s (a :: as) ↔ P s ∧ Always step P (step s a) as := by
  constructor
  · intro h
    exact ⟨h 0, fun n => h (n + 1)⟩
  · rintro ⟨hstart, hrest⟩ n
    cases n with
    | zero => exact hstart
    | succ n => exact hrest n

/-- An execution in two parts. -/
theorem always_append :
    Always step P s (as ++ bs) ↔ Always step P s as ∧ Always step P (as.foldl step s) bs := by
  induction as generalizing s with
  | nil =>
    rw [List.nil_append, always_nil, List.foldl_nil]
    exact ⟨fun h => ⟨h 0, h⟩, fun h => h.2⟩
  | cons a as ih => rw [List.cons_append, always_cons, always_cons, ih, and_assoc, List.foldl_cons]

theorem Always.last (h : Always step P s as) : P (as.foldl step s) := by
  have := h as.length
  rwa [List.take_length] at this

/-- The last step of a run. -/
theorem run_concat_iff :
    Run step ok s₀ (as ++ [a]) s ↔ ∃ s', Run step ok s₀ as s' ∧ ok s' a ∧ step s' a = s := by
  constructor
  · intro h
    generalize hbs : as ++ [a] = bs at h
    cases h with
    | nil => simp at hbs
    | snoc hrun hok =>
      obtain ⟨rfl, hlast⟩ := List.append_inj' hbs rfl
      obtain rfl : a = _ := List.singleton_inj.mp hlast
      exact ⟨_, hrun, hok, rfl⟩
  · rintro ⟨s', hrun, hok, rfl⟩
    exact .snoc hrun hok

/-- The rule for a guard that is exact: it carries an invariant that gives the property, and the
property fails right after a step that does not meet it. -/
theorem always_iff_exists_run {Inv : σ → Prop} (init : Inv s₀) (holds : ∀ s, Inv s → P s)
    (next : ∀ s a, Inv s → ok s a → Inv (step s a))
    (fails : ∀ s a, Inv s → ¬ ok s a → ¬ P (step s a)) :
    Always step P s₀ as ↔ ∃ s, Run step ok s₀ as s := by
  induction as using List.reverseRecOn with
  | nil => exact iff_of_true (always_nil.mpr (holds _ init)) ⟨s₀, .nil⟩
  | append_singleton as a ih =>
    have hinv : ∀ s, Run step ok s₀ as s → Inv s :=
      fun s hrun => hrun.invariant init fun _ s' a' hs' hok => next s' a' hs' hok
    rw [always_append, always_cons, always_nil, ih]
    constructor
    · rintro ⟨⟨s, hrun⟩, -, hstep⟩
      rw [← hrun.eq_foldl] at hstep
      have hok : ok s a := by
        by_contra hnot
        exact fails s a (hinv s hrun) hnot hstep
      exact ⟨_, .snoc hrun hok⟩
    · rintro ⟨t, ht⟩
      obtain ⟨s, hrun, hok, rfl⟩ := run_concat_iff.mp ht
      have hs := hinv s hrun
      rw [← hrun.eq_foldl]
      exact ⟨⟨s, hrun⟩, holds s hs, holds _ (next s a hs hok)⟩

end Always

/-! ## Every operation of an execution -/

/-- Every operation of the execution of `as` from `s` meets `ok` in the state it is applied to. -/
def Throughout (step : σ → α → σ) (ok : σ → α → Prop) (s : σ) (as : List α) : Prop :=
  ∀ n a, as[n]? = some a → ok ((as.take n).foldl step s) a

section Throughout

variable {a : α}

theorem throughout_nil : Throughout step ok s [] := fun n a h => absurd h (by simp)

theorem throughout_concat :
    Throughout step ok s (as ++ [a]) ↔ Throughout step ok s as ∧ ok (as.foldl step s) a := by
  constructor
  · intro h
    refine ⟨fun n b hb => ?_, ?_⟩
    · have hn : n < as.length := (List.getElem?_eq_some_iff.mp hb).1
      have := h n b (by rw [List.getElem?_append_left hn, hb])
      rwa [List.take_append_of_le_length (Nat.le_of_lt hn)] at this
    · have := h as.length a (by simp)
      rwa [List.take_append_of_le_length (Nat.le_refl _), List.take_length] at this
  · rintro ⟨hinit, hlast⟩ n b hb
    rcases Nat.lt_or_ge n as.length with hn | hn
    · rw [List.take_append_of_le_length (Nat.le_of_lt hn)]
      rw [List.getElem?_append_left hn] at hb
      exact hinit n b hb
    · rw [List.getElem?_append_right hn, List.getElem?_singleton] at hb
      split_ifs at hb with hzero
      obtain rfl := Option.some.inj hb
      obtain rfl : n = as.length := by omega
      rwa [List.take_append_of_le_length (Nat.le_refl _), List.take_length]

/-- The rule for a guard that is met throughout exactly by the histories with a property: as long as
the property lasts an invariant does, and the invariant tells what the guard says of the next
operation. -/
theorem throughout_iff {Inv : List α → σ → Prop} {Fits : List α → Prop} (init : Inv [] s₀)
    (nil : Fits []) (mono : ∀ as a, Fits (as ++ [a]) → Fits as)
    (next : ∀ as s a, Inv as s → Fits (as ++ [a]) → Inv (as ++ [a]) (step s a))
    (exact : ∀ as s a, Inv as s → (ok s a ↔ Fits (as ++ [a]))) :
    Throughout step ok s₀ as ↔ Fits as := by
  have hinv : ∀ as, Fits as → Inv as (as.foldl step s₀) := by
    intro as
    induction as using List.reverseRecOn with
    | nil => exact fun _ => init
    | append_singleton as a ih =>
      intro hfits
      rw [List.foldl_append]
      exact next as _ a (ih (mono as a hfits)) hfits
  induction as using List.reverseRecOn with
  | nil => exact iff_of_true throughout_nil nil
  | append_singleton as a ih =>
    rw [throughout_concat]
    constructor
    · rintro ⟨hbefore, hok⟩
      exact (exact as _ a (hinv as (ih.mp hbefore))).mp hok
    · intro hfits
      have hfits' := mono as a hfits
      exact ⟨ih.mpr hfits', (exact as _ a (hinv as hfits')).mpr hfits⟩

end Throughout

end Trace
