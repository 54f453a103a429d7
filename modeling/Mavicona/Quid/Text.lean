import Mavicona.Cynder.Engine

/-!
# The text of a quid

Reference: `quid/quid.h`, `quid/quid.c` (`quidtostr`), `quid/quidpp.h` (`Quid::toString`).

A quid is printed as 8-4-4-4-12 hexadecimal digits in braces, 38 bytes; its compact form is without the
braces, 36 bytes.
-/

namespace Mavicona.Quid

open Mavicona.Cynder

/-! ## Hexadecimal digits -/

/-- The conversion `%.{w}x`, and `std::hex` with a width of `w` filled with zeros. -/
def hexPrec (w n : ℕ) : Bytes :=
  let digits := (Nat.toDigits 16 n).map fun c => UInt8.ofNat c.toNat
  List.replicate (w - digits.length) 48 ++ digits

/-- A number that fits has as many digits as the width says. -/
theorem length_hexPrec {w n : ℕ} (hw : 0 < w) (hn : n < 16 ^ w) : (hexPrec w n).length = w := by
  have hdigits : (Nat.toDigits 16 n).length ≤ w := (Nat.length_toDigits_le_iff (by decide) hw).mpr hn
  simp only [hexPrec, List.length_append, List.length_replicate, List.length_map]
  omega

/-- A list of numbers that fit. -/
theorem length_flatMap_hexPrec {α : Type*} {w : ℕ} {f : α → ℕ} (hw : 0 < w) (hf : ∀ a, f a < 16 ^ w)
    (l : List α) : (l.flatMap fun a => hexPrec w (f a)).length = w * l.length := by
  induction l with
  | nil => rfl
  | cons a l ih =>
    rw [List.flatMap_cons, List.length_append, ih, length_hexPrec hw (hf a), List.length_cons,
      Nat.mul_succ, Nat.add_comm]

/-! ## Quids -/

/-- `quid_t`. -/
structure QuidT where
  timeLow : UInt64
  timeMid : UInt16
  timeHiAndVersion : UInt16
  clockSeqHiAndReserved : UInt8
  clockSeqLow : UInt8
  node : Vector UInt8 6
deriving DecidableEq

namespace QuidT

/-- The text between the braces. -/
def digits (u : QuidT) : Bytes :=
  hexPrec 8 (u.timeLow.toNat % 2 ^ 32) ++ 45 :: (hexPrec 4 u.timeMid.toNat ++
    45 :: (hexPrec 4 u.timeHiAndVersion.toNat ++ 45 :: (hexPrec 2 u.clockSeqHiAndReserved.toNat ++
      hexPrec 2 u.clockSeqLow.toNat ++ 45 :: u.node.toList.flatMap fun b => hexPrec 2 b.toNat)))

/-- `quidtostr`; `snprintf` writes no more than `QUID_LENGTH` bytes. -/
def quidtostr (u : QuidT) : Bytes := (123 :: (u.digits ++ [125])).take 38

/-- `Quid::toString`. -/
def toString (u : QuidT) (compact : Bool) : Bytes := if compact then crop u.quidtostr else u.quidtostr

theorem length_digits (u : QuidT) : u.digits.length = 36 := by
  have hlow : (hexPrec 8 (u.timeLow.toNat % 2 ^ 32)).length = 8 :=
    length_hexPrec (by decide) (Nat.mod_lt _ (by decide))
  have hmid : (hexPrec 4 u.timeMid.toNat).length = 4 := length_hexPrec (by decide) u.timeMid.toNat_lt
  have hhi : (hexPrec 4 u.timeHiAndVersion.toNat).length = 4 :=
    length_hexPrec (by decide) u.timeHiAndVersion.toNat_lt
  have hseqHi : (hexPrec 2 u.clockSeqHiAndReserved.toNat).length = 2 :=
    length_hexPrec (by decide) u.clockSeqHiAndReserved.toNat_lt
  have hseqLow : (hexPrec 2 u.clockSeqLow.toNat).length = 2 :=
    length_hexPrec (by decide) u.clockSeqLow.toNat_lt
  have hnode : (u.node.toList.flatMap fun b => hexPrec 2 b.toNat).length = 12 := by
    rw [length_flatMap_hexPrec (by decide) UInt8.toNat_lt, Vector.length_toList]
  simp only [digits, List.length_append, List.length_cons, hlow, hmid, hhi, hseqHi, hseqLow, hnode]

theorem quidtostr_eq (u : QuidT) : u.quidtostr = 123 :: (u.digits ++ [125]) :=
  List.take_of_length_le (by simp [length_digits])

/-- The text has 38 bytes. -/
theorem length_toString_false (u : QuidT) : (u.toString false).length = 38 := by
  simp [toString, quidtostr_eq, length_digits]

/-- The compact text has 36 bytes. -/
theorem length_toString_true (u : QuidT) : (u.toString true).length = 36 := by
  have hclose : (123 :: (u.digits ++ [125])).getD 37 0 = 125 := by simp [u.length_digits]
  have hcrop : crop u.quidtostr = u.digits := by
    rw [quidtostr_eq, crop, if_pos ⟨by simp [unpackedSize, u.length_digits], rfl, hclose⟩]
    exact List.take_left' u.length_digits
  rw [toString, if_pos rfl, hcrop, length_digits]

end QuidT

end Mavicona.Quid
