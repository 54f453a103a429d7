import Mathlib.Algebra.Order.Group.Nat
import Mathlib.Algebra.Order.Ring.Nat
import Mathlib.Logic.Function.Iterate

/-!
# Cyclic redundancy checks

The register of a reflected CRC of any width `w` with any polynomial `p`: a turn moves the register
down by one bit and adds the polynomial if the bit that falls out is set. Turns are linear over
exclusive or, and injective if the highest bit of the polynomial is set.

A few bytes enter the register as one word (`feeds_eq_turns`), so two strings that differ in so few
bytes only leave registers that are apart, and apart in more than the next `j` bits of input could
make up for (`eq_of_feeds_near`).
-/

namespace Crc

variable {w : ℕ} {p x y : BitVec w}

/-! ## Turns -/

/-- One bit. -/
def turn (p x : BitVec w) : BitVec w := if x.getLsbD 0 then (x >>> 1) ^^^ p else x >>> 1

theorem turn_xor : turn p (x ^^^ y) = turn p x ^^^ turn p y := by
  rw [turn, turn, turn, BitVec.getLsbD_xor, BitVec.ushiftRight_xor_distrib]
  apply BitVec.eq_of_getLsbD_eq
  intro i _
  cases x.getLsbD 0 <;> cases y.getLsbD 0 <;>
    simp [Bool.xor_comm, Bool.xor_left_comm]

/-- A bit that moves up from below comes down again. -/
theorem turn_shiftLeft (hx : x.toNat < 2 ^ (w - 1)) : turn p (x <<< 1) = x := by
  rcases Nat.eq_zero_or_pos w with rfl | hw
  · exact Subsingleton.elim _ _
  have hpow : 2 * 2 ^ (w - 1) = 2 ^ w := by rw [← pow_succ', Nat.sub_add_cancel hw]
  have hlow : (x <<< 1).getLsbD 0 = false := by simp
  rw [turn, hlow, if_neg Bool.false_ne_true]
  apply BitVec.eq_of_toNat_eq
  rw [BitVec.toNat_ushiftRight, BitVec.toNat_shiftLeft, Nat.shiftLeft_eq, pow_one,
    Nat.mod_eq_of_lt (by omega), Nat.shiftRight_eq_div_pow, pow_one, Nat.mul_div_cancel _ two_pos]

theorem turn_eq_zero (hp : p.msb = true) (h : turn p x = 0) : x = 0 := by
  have hw : 0 < w := by
    rcases Nat.eq_zero_or_pos w with rfl | hw
    · simp [BitVec.msb] at hp
    · exact hw
  have hbits : ∀ i, (turn p x).getLsbD i = false := fun i => by simp [h]
  -- The highest bit that is left is the one that fell out.
  have hlow : x.getLsbD 0 = false := by
    have := hbits (w - 1)
    rw [BitVec.msb_eq_getLsbD_last] at hp
    by_contra hset
    rw [turn, if_pos (by simpa using hset), BitVec.getLsbD_xor, hp, BitVec.getLsbD_ushiftRight,
      BitVec.getLsbD_of_ge x _ (by omega)] at this
    exact absurd this (by decide)
  apply BitVec.eq_of_getLsbD_eq
  intro i hi
  rw [show (0 : BitVec w).getLsbD i = false from BitVec.getLsbD_zero]
  cases i with
  | zero => exact hlow
  | succ i =>
    have := hbits i
    rwa [turn, if_neg (by simpa using hlow), BitVec.getLsbD_ushiftRight, Nat.add_comm] at this

/-- `k` bits. -/
def turns (p : BitVec w) (k : ℕ) (x : BitVec w) : BitVec w := (turn p)^[k] x

theorem turns_add (k l : ℕ) : turns p (k + l) x = turns p k (turns p l x) :=
  Function.iterate_add_apply ..

theorem turns_xor (k : ℕ) : turns p k (x ^^^ y) = turns p k x ^^^ turns p k y := by
  induction k generalizing x y with
  | zero => rfl
  | succ k ih => rw [turns, Function.iterate_succ_apply, turn_xor]; exact ih

theorem turns_eq_zero (hp : p.msb = true) {k : ℕ} (h : turns p k x = 0) : x = 0 := by
  induction k generalizing x with
  | zero => exact h
  | succ k ih => exact turn_eq_zero hp (ih h)

theorem turns_injective (hp : p.msb = true) (k : ℕ) : Function.Injective (turns p k) := by
  intro x y h
  rw [← BitVec.xor_eq_zero_iff, ← turns_xor] at h
  exact BitVec.xor_eq_zero_iff.mp (turns_eq_zero hp h)

/-- `k` bits that move up from below come down again. -/
theorem turns_shiftLeft {k : ℕ} (hk : k ≤ w) (hx : x.toNat < 2 ^ (w - k)) :
    turns p k (x <<< k) = x := by
  induction k with
  | zero => simp [turns]
  | succ k ih =>
    have hup : (x <<< k).toNat < 2 ^ (w - 1) := by
      rw [BitVec.toNat_shiftLeft, Nat.shiftLeft_eq]
      refine (Nat.mod_le _ _).trans_lt ?_
      calc x.toNat * 2 ^ k < 2 ^ (w - (k + 1)) * 2 ^ k :=
            Nat.mul_lt_mul_of_pos_right hx (Nat.two_pow_pos k)
        _ = 2 ^ (w - 1) := by rw [← pow_add]; congr 1; omega
    rw [turns, Function.iterate_succ_apply, BitVec.shiftLeft_add, turn_shiftLeft hup]
    exact ih (by omega) (hx.trans_le (Nat.pow_le_pow_right two_pos (by omega)))

/-! ## Bytes -/

/-- One byte. -/
def feed (p x : BitVec w) (b : BitVec 8) : BitVec w := turns p 8 (x ^^^ b.setWidth w)

/-- A string of bytes. -/
def feeds (p x : BitVec w) (bs : List (BitVec 8)) : BitVec w := bs.foldl (feed p) x

theorem feeds_append (bs cs : List (BitVec 8)) :
    feeds p x (bs ++ cs) = feeds p (feeds p x bs) cs := List.foldl_append

/-- Eight turns, as a table of the 256 words that the low bytes come to makes them. -/
theorem turns_eight (hw : 8 ≤ w) :
    turns p 8 x = (x >>> 8) ^^^ turns p 8 ((x.setWidth 8).setWidth w) := by
  have hsplit : x = ((x >>> 8) <<< 8) ^^^ (x.setWidth 8).setWidth w := by
    apply BitVec.eq_of_getLsbD_eq
    intro i hi
    by_cases h : i < 8
    · simp [h, hi]
    · simp [h, hi, show 8 + (i - 8) = i by omega]
  have hhigh : (x >>> 8).toNat < 2 ^ (w - 8) := by
    rw [BitVec.toNat_ushiftRight, Nat.shiftRight_eq_div_pow, Nat.div_lt_iff_lt_mul (by decide),
      ← pow_add, Nat.sub_add_cancel hw]
    exact x.isLt
  conv_lhs => rw [hsplit]
  rw [turns_xor, turns_shiftLeft hw hhigh]

/-- Bytes as one word, the first one lowest. -/
def pack : List (BitVec 8) → BitVec w
  | [] => 0
  | b :: bs => b.setWidth w ^^^ (pack bs <<< 8)

variable {bs cs : List (BitVec 8)}

theorem toNat_pack_lt : (pack bs : BitVec w).toNat < 2 ^ (8 * bs.length) := by
  induction bs with
  | nil => simp [pack]
  | cons b bs ih =>
    rw [pack, BitVec.toNat_xor, List.length_cons]
    refine Nat.xor_lt_two_pow ?_ ?_
    · rw [BitVec.toNat_setWidth]
      refine ((Nat.mod_le _ _).trans_lt b.isLt).trans_le (Nat.pow_le_pow_right two_pos ?_)
      omega
    · rw [BitVec.toNat_shiftLeft, Nat.shiftLeft_eq]
      refine (Nat.mod_le _ _).trans_lt ?_
      rw [Nat.mul_add, mul_one, pow_add]
      exact Nat.mul_lt_mul_of_pos_right ih (by decide)

theorem pack_injective (hlen : bs.length = cs.length) (hw : 8 * bs.length ≤ w)
    (h : (pack bs : BitVec w) = pack cs) : bs = cs := by
  induction bs generalizing cs with
  | nil => exact (List.length_eq_zero_iff.mp hlen.symm).symm
  | cons b bs ih =>
    obtain ⟨c, cs, rfl⟩ : ∃ c cs', cs = c :: cs' := List.exists_cons_of_length_eq_add_one hlen.symm
    rw [List.length_cons] at hw
    rw [List.length_cons, List.length_cons] at hlen
    have hbits : ∀ i, (pack (b :: bs) : BitVec w).getLsbD i = (pack (c :: cs)).getLsbD i :=
      fun i => by rw [h]
    simp only [pack, BitVec.getLsbD_xor, BitVec.getLsbD_setWidth, BitVec.getLsbD_shiftLeft] at hbits
    have hhead : b = c := by
      apply BitVec.eq_of_getLsbD_eq
      intro i hi
      simpa [hi, show i < w by omega] using hbits i
    have htail : (pack bs : BitVec w) = pack cs := by
      apply BitVec.eq_of_getLsbD_eq
      intro i hi
      by_cases hin : i + 8 < w
      · simpa [hin, hhead, show ¬i + 8 < 8 by omega] using hbits (i + 8)
      · -- A word of so many bytes has no bit this high.
        have hclear : ∀ ds : List (BitVec 8), ds.length = bs.length →
            (pack ds : BitVec w).getLsbD i = false := by
          intro ds hds
          refine Nat.testBit_lt_two_pow (toNat_pack_lt.trans_le ?_)
          exact Nat.pow_le_pow_right two_pos (by omega)
        rw [hclear bs rfl, hclear cs (by omega)]
    rw [hhead, ih (by omega) (by omega) htail]

/-- As many bytes as the register has go in as one word. -/
theorem feeds_eq_turns (hw : 8 * bs.length ≤ w) :
    feeds p x bs = turns p (8 * bs.length) (x ^^^ pack bs) := by
  induction bs generalizing x with
  | nil => simp [feeds, pack, turns]
  | cons b bs ih =>
    rw [List.length_cons] at hw
    have hpack : (pack bs : BitVec w).toNat < 2 ^ (w - 8) :=
      toNat_pack_lt.trans_le (Nat.pow_le_pow_right two_pos (by omega))
    calc feeds p x (b :: bs) = feeds p (turns p 8 (x ^^^ b.setWidth w)) bs := rfl
      _ = turns p (8 * bs.length) (turns p 8 (x ^^^ b.setWidth w) ^^^ pack bs) := ih (by omega)
      _ = turns p (8 * bs.length) (turns p 8 (x ^^^ b.setWidth w) ^^^
            turns p 8 (pack bs <<< 8)) := by rw [turns_shiftLeft (by omega) hpack]
      _ = turns p (8 * (bs.length + 1)) (x ^^^ (b.setWidth w ^^^ pack bs <<< 8)) := by
            rw [← turns_xor, BitVec.xor_assoc, Nat.mul_add, turns_add]

/-- **A short burst shows.** Two registers that a burst of a few bytes left differ in more than
the low `j` bits, as long as the bytes and these bits are no longer than the register. -/
theorem eq_of_feeds_near (hp : p.msb = true) {j : ℕ} (hlen : bs.length = cs.length)
    (hw : 8 * bs.length + j ≤ w) (h : (feeds p x bs ^^^ feeds p x cs).toNat < 2 ^ j) : bs = cs := by
  have hbytes : 8 * bs.length ≤ w := by omega
  set d := feeds p x bs ^^^ feeds p x cs with hd
  have hdown : turns p (8 * bs.length) (d <<< (8 * bs.length)) = d :=
    turns_shiftLeft hbytes (h.trans_le (Nat.pow_le_pow_right two_pos (by omega)))
  have hwords : turns p (8 * bs.length) (pack bs ^^^ pack cs) = d := by
    have hxx : pack bs ^^^ pack cs = x ^^^ pack bs ^^^ (x ^^^ pack cs) := by
      rw [BitVec.xor_comm x (pack bs), BitVec.xor_assoc, ← BitVec.xor_assoc x, BitVec.xor_self,
        BitVec.zero_xor]
    rw [hd, feeds_eq_turns hbytes, feeds_eq_turns (hlen ▸ hbytes), ← hlen, ← turns_xor, ← hxx]
  have hsame : pack bs ^^^ pack cs = d <<< (8 * bs.length) :=
    turns_injective hp _ (hwords.trans hdown.symm)
  -- The word of the bytes ends where the bits behind it start.
  have hlow : (pack bs ^^^ pack cs : BitVec w).toNat < 2 ^ (8 * bs.length) := by
    rw [BitVec.toNat_xor]
    exact Nat.xor_lt_two_pow toNat_pack_lt (hlen ▸ toNat_pack_lt)
  have hzero : (pack bs ^^^ pack cs : BitVec w) = 0 := by
    apply BitVec.eq_of_getLsbD_eq
    intro i _
    rw [show (0 : BitVec w).getLsbD i = false from BitVec.getLsbD_zero]
    by_cases hi : i < 8 * bs.length
    · rw [hsame, BitVec.getLsbD_shiftLeft, decide_eq_true hi]
      simp
    · exact Nat.testBit_lt_two_pow (hlow.trans_le (Nat.pow_le_pow_right two_pos (by omega)))
  exact pack_injective hlen hbytes (BitVec.xor_eq_zero_iff.mp hzero)

end Crc
