import Mavicona.Common.Bytes

/-!
# Base64

Three bytes are written as four characters of six bits each, the last ones filled up. Characters that
are not in the alphabet, such as line breaks, do not count.
-/

namespace Base64

open Bytes

def alphabet : Bytes := ascii "ABCDEFGHIJKLMNOPQRSTUVWXYZabcdefghijklmnopqrstuvwxyz0123456789+/"

/-- `=`. -/
def pad : UInt8 := 61

/-- The character of six bits. -/
def char (n : ℕ) : UInt8 := alphabet.getD n pad

/-- The six bits of a character. -/
def value (c : UInt8) : Option ℕ := alphabet.idxOf? c

def encode : Bytes → Bytes
  | [] => []
  | [a] => [char (a.toNat / 4), char (a.toNat % 4 * 16), pad, pad]
  | [a, b] => [char (a.toNat / 4), char (a.toNat % 4 * 16 + b.toNat / 16), char (b.toNat % 16 * 4), pad]
  | a :: b :: c :: rest =>
    char (a.toNat / 4) :: char (a.toNat % 4 * 16 + b.toNat / 16) ::
      char (b.toNat % 16 * 4 + c.toNat / 64) :: char (c.toNat % 64) :: encode rest

/-- The bytes of a number of digits of six bits. -/
def ofValues : List ℕ → Bytes
  | a :: b :: c :: d :: rest =>
    UInt8.ofNat (a * 4 + b / 16) :: UInt8.ofNat (b % 16 * 16 + c / 4) ::
      UInt8.ofNat (c % 4 * 64 + d) :: ofValues rest
  | [a, b, c] => [UInt8.ofNat (a * 4 + b / 16), UInt8.ofNat (b % 16 * 16 + c / 4)]
  | [a, b] => [UInt8.ofNat (a * 4 + b / 16)]
  | _ => []

def decode (cs : Bytes) : Bytes := ofValues (cs.filterMap value)

section Lemmas

variable {n : ℕ} {a b c : UInt8}

theorem value_char (h : n < 64) : value (char n) = some n := by
  have hall : ∀ n < 64, value (char n) = some n := by decide +kernel
  exact hall n h

theorem value_pad : value pad = none := by decide +kernel

/-- A line break does not count. -/
theorem value_cr : value 13 = none := by decide +kernel

theorem value_lf : value 10 = none := by decide +kernel

theorem decode_append_of_none {cs ds es : Bytes} (h : ∀ d ∈ ds, value d = none) :
    decode (cs ++ ds ++ es) = decode (cs ++ es) := by
  have hnil : ds.filterMap value = [] := List.filterMap_eq_nil_iff.mpr h
  rw [decode, List.filterMap_append, List.filterMap_append, hnil, List.append_nil,
    ← List.filterMap_append, ← decode]

theorem length_encode (bs : Bytes) : (encode bs).length = 4 * ((bs.length + 2) / 3) := by
  induction bs using encode.induct with
  | case1 => rfl
  | case2 a => simp [encode]
  | case3 a b => simp [encode]
  | case4 a b c rest ih =>
    rw [encode]
    simp only [List.length_cons, ih]
    omega

/-- A byte from its bits. -/
theorem ofNat_eq {n : ℕ} (h : n = a.toNat) : UInt8.ofNat n = a := by
  rw [h, UInt8.ofNat_toNat]

/-- **What was encoded is decoded.** -/
theorem decode_encode (bs : Bytes) : decode (encode bs) = bs := by
  induction bs using encode.induct with
  | case1 => rfl
  | case2 a =>
    have ha := a.toNat_lt
    rw [encode, decode]
    simp only [List.filterMap_cons, List.filterMap_nil, value_pad]
    rw [value_char (by omega), value_char (by omega)]
    dsimp only
    rw [ofValues, ofNat_eq (a := a) (by omega)]
  | case3 a b =>
    have ha := a.toNat_lt
    have hb := b.toNat_lt
    rw [encode, decode]
    simp only [List.filterMap_cons, List.filterMap_nil, value_pad]
    rw [value_char (by omega), value_char (by omega), value_char (by omega)]
    dsimp only
    rw [ofValues, ofNat_eq (a := a) (by omega), ofNat_eq (a := b) (by omega)]
  | case4 a b c rest ih =>
    have ha := a.toNat_lt
    have hb := b.toNat_lt
    have hc := c.toNat_lt
    rw [decode] at ih
    rw [encode, decode]
    simp only [List.filterMap_cons]
    rw [value_char (by omega), value_char (by omega), value_char (by omega), value_char (by omega)]
    dsimp only
    rw [ofValues, ih, ofNat_eq (a := a) (by omega), ofNat_eq (a := b) (by omega),
      ofNat_eq (a := c) (by omega)]

end Lemmas

end Base64
