import Mathlib.Logic.Function.Iterate
import Mathlib.Data.List.Infix
import Mathlib.Order.Basic

/-!
# Runs that wait

Two runs of one system that take the same steps, but wait in between, each for as long as it has to.
A relation between their states that survives when one of them waits, and when both of them take a
step, catches up: one of the states that a run has passed is related to the state that the other one
has come to (`Lockstep.meet`). So what is seen of one run is a prefix of what is seen of the other,
and the same once both have come to rest.
-/

namespace Stutter

variable {σ ν : Type*} {step : σ → σ} {ok waits : σ → Prop} {R : σ → σ → Prop} {s t : σ} {m n : ℕ}

/-- A relation between the states of two runs that wait, as long as both are `ok`. -/
structure Lockstep (step : σ → σ) (ok waits : σ → Prop) (R : σ → σ → Prop) : Prop where
  symm : ∀ {s t}, R s t → R t s
  wait : ∀ {s t}, R s t → ok s → waits s → R (step s) t
  both : ∀ {s t}, R s t → ok s → ok t → ¬ waits s → ¬ waits t → R (step s) (step t)
  /-- If one of them has come to rest, the other one waits. -/
  rest : ∀ {s t}, R s t → ok s → ok t → step t = t → waits s

/-- The first `n` states of a run are `ok`. -/
def Okay (step : σ → σ) (ok : σ → Prop) (n : ℕ) (s : σ) : Prop := ∀ k < n, ok (step^[k] s)

theorem Okay.head (h : Okay step ok (n + 1) s) : ok s := h 0 n.succ_pos

theorem Okay.tail (h : Okay step ok (n + 1) s) : Okay step ok n (step s) :=
  fun k hk => h (k + 1) (Nat.succ_lt_succ hk)

theorem Okay.init (h : Okay step ok (n + 1) s) : Okay step ok n s :=
  fun k hk => h k (hk.trans n.lt_succ_self)

theorem Okay.drop (h : Okay step ok n s) (hmn : m ≤ n) : Okay step ok (n - m) (step^[m] s) := by
  intro k hk
  rw [← Function.iterate_add_apply]
  exact h (k + m) (by omega)

section Lockstep

variable (h : Lockstep step ok waits R)
include h

/-- **One of two runs has passed what the other one has come to.** -/
theorem Lockstep.meet (hR : R s t) (hs : Okay step ok n s) (ht : Okay step ok m t) :
    (∃ k ≤ n, R (step^[k] s) (step^[m] t)) ∨ ∃ k ≤ m, R (step^[n] s) (step^[k] t) := by
  -- every round takes a step of one run or of both
  induction hsum : n + m using Nat.strong_induction_on generalizing n m s t with
  | _ sum ih =>
    cases n with
    | zero => exact .inr ⟨0, Nat.zero_le _, hR⟩
    | succ n =>
      cases m with
      | zero => exact .inl ⟨0, Nat.zero_le _, hR⟩
      | succ m =>
        by_cases hwait : waits s
        · rcases ih (n + (m + 1)) (by omega) (h.wait hR hs.head hwait) hs.tail ht rfl with
            ⟨k, hk, hk'⟩ | hpassed
          · exact .inl ⟨k + 1, Nat.succ_le_succ hk, hk'⟩
          · exact .inr hpassed
        by_cases hwait' : waits t
        · have hR' := h.symm (h.wait (h.symm hR) ht.head hwait')
          rcases ih (n + 1 + m) (by omega) hR' hs ht.tail rfl with hpassed | ⟨k, hk, hk'⟩
          · exact .inl hpassed
          · exact .inr ⟨k + 1, Nat.succ_le_succ hk, hk'⟩
        have hR' := h.both hR hs.head ht.head hwait hwait'
        rcases ih (n + m) (by omega) hR' hs.tail ht.tail rfl with ⟨k, hk, hk'⟩ | ⟨k, hk, hk'⟩
        · exact .inl ⟨k + 1, Nat.succ_le_succ hk, hk'⟩
        · exact .inr ⟨k + 1, Nat.succ_le_succ hk, hk'⟩

section Seen

variable {seen : σ → List ν} (hseen : ∀ {s t}, R s t → seen s = seen t)
  (hgrows : ∀ s, seen s <+: seen (step s))

omit h in
/-- What was seen of a run stays. -/
theorem seen_iterate (hgrows : ∀ s, seen s <+: seen (step s)) (hk : m ≤ n) :
    seen (step^[m] s) <+: seen (step^[n] s) := by
  induction n, hk using Nat.le_induction with
  | base => exact List.prefix_rfl
  | succ n _ ih =>
    rw [Function.iterate_succ_apply']
    exact ih.trans (hgrows _)

include hseen hgrows

/-- **What is seen of one run is a prefix of what is seen of the other.** -/
theorem Lockstep.comparable (hR : R s t) (hs : Okay step ok n s) (ht : Okay step ok m t) :
    seen (step^[n] s) <+: seen (step^[m] t) ∨ seen (step^[m] t) <+: seen (step^[n] s) := by
  rcases h.meet hR hs ht with ⟨k, hk, hmeet⟩ | ⟨k, hk, hmeet⟩
  · right
    rw [← hseen hmeet]
    exact seen_iterate hgrows hk
  · left
    rw [hseen hmeet]
    exact seen_iterate hgrows hk

end Seen

/-- A run waits for one that has come to rest. -/
theorem Lockstep.follow (hR : R s t) (hs : Okay step ok n s) (ht : ok t) (hrest : step t = t) :
    R (step^[n] s) t := by
  induction n generalizing s with
  | zero => exact hR
  | succ n ih => exact ih (h.wait hR hs.head (h.rest hR hs.head ht hrest)) hs.tail

/-- **Two runs that have come to rest have come to the same.** -/
theorem Lockstep.meet_of_rest (hR : R s t) (hs : Okay step ok (n + 1) s) (ht : Okay step ok (m + 1) t)
    (hrest : step (step^[n] s) = step^[n] s) (hrest' : step (step^[m] t) = step^[m] t) :
    R (step^[n] s) (step^[m] t) := by
  rcases h.meet hR hs.init ht.init with ⟨k, hk, hmeet⟩ | ⟨k, hk, hmeet⟩
  · have hlast := h.follow hmeet (hs.init.drop hk) (ht m m.lt_succ_self) hrest'
    rwa [← Function.iterate_add_apply, Nat.sub_add_cancel hk] at hlast
  · have hlast := h.follow (h.symm hmeet) (ht.init.drop hk) (hs n n.lt_succ_self) hrest
    rw [← Function.iterate_add_apply, Nat.sub_add_cancel hk] at hlast
    exact h.symm hlast

end Lockstep

end Stutter
