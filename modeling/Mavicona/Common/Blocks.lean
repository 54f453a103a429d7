import Mavicona.Common.Bytes

/-!
# Block by block

A function of a message that takes `n` bytes at a time, and keeps what is left for the next part of
the message: `absorb` is what it comes to, and parts that come one after the other come to the same as
the whole message (`absorb_append`).
-/

namespace Blocks

variable {σ : Type*} (step : σ → Bytes → σ) (n : ℕ)

/-- All whole blocks of a message, and what is left. -/
def absorb (s : σ) (bs : Bytes) : σ × Bytes :=
  if 0 < n ∧ n ≤ bs.length then absorb (step s (bs.take n)) (bs.drop n) else (s, bs)
termination_by bs.length
decreasing_by
  rw [List.length_drop]
  omega

section Absorb

variable {step n} {s : σ} {bs block rest : Bytes}

theorem absorb_of_lt (h : bs.length < n) : absorb step n s bs = (s, bs) := by
  rw [absorb, if_neg fun hn => absurd hn.2 (not_le.mpr h)]

theorem absorb_of_le (hn : 0 < n) (h : n ≤ bs.length) :
    absorb step n s bs = absorb step n (step s (bs.take n)) (bs.drop n) := by
  rw [absorb, if_pos ⟨hn, h⟩]

theorem absorb_block (hn : 0 < n) (h : block.length = n) :
    absorb step n s (block ++ rest) = absorb step n (step s block) rest := by
  rw [absorb_of_le hn (by rw [List.length_append]; omega), ← h, List.take_left, List.drop_left]

theorem length_absorb (hn : 0 < n) (s : σ) (bs : Bytes) :
    (absorb step n s bs).2.length = bs.length % n := by
  induction hlen : bs.length using Nat.strong_induction_on generalizing s bs with
  | _ len ih =>
    subst hlen
    by_cases hle : n ≤ bs.length
    · have hdrop : (bs.drop n).length = bs.length - n := List.length_drop
      rw [absorb_of_le hn hle, ih _ (by omega) _ _ hdrop, Nat.mod_eq_sub_mod hle]
    · rw [absorb_of_lt (not_le.mp hle), Nat.mod_eq_of_lt (not_le.mp hle)]

/-- **A message may come in parts.** -/
theorem absorb_append (hn : 0 < n) (s : σ) (bs more : Bytes) : absorb step n s (bs ++ more) =
    absorb step n (absorb step n s bs).1 ((absorb step n s bs).2 ++ more) := by
  induction hlen : bs.length using Nat.strong_induction_on generalizing s bs with
  | _ len ih =>
    subst hlen
    by_cases hle : n ≤ bs.length
    · have hblock : bs ++ more = bs.take n ++ (bs.drop n ++ more) := by
        rw [← List.append_assoc, List.take_append_drop]
      rw [hblock, absorb_block hn (List.length_take_of_le hle), absorb_of_le hn hle]
      exact ih _ (by rw [List.length_drop]; omega) _ _ rfl
    · rw [absorb_of_lt (not_le.mp hle)]

end Absorb

end Blocks
