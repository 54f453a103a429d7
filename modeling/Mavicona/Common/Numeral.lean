import Mathlib.Data.List.Induction
import Mathlib.Tactic.IntervalCases
import Mavicona.Common.Bytes

/-!
# Numbers in text

The conversions `%x` and `%o` of `printf` and `scanf` on byte strings. `print` writes a number
without padding and `fixed` writes it in a given number of digits; `value` is the number of a string
of digits, and `number` is how `scanf` reads one: it skips white space, takes a sign, for base 16 a
prefix, and then digits as far as they go or the field width allows.
-/

namespace Numeral

/-! ## Digits -/

/-- The byte of a digit, in lower case. -/
def digitByte (d : ℕ) : UInt8 := UInt8.ofNat (Nat.digitChar d).toNat

/-- The value of a byte as a digit; 16 if it is none. -/
def digitVal (b : UInt8) : ℕ :=
  if 48 ≤ b.toNat ∧ b.toNat ≤ 57 then b.toNat - 48
  else if 97 ≤ b.toNat ∧ b.toNat ≤ 102 then b.toNat - 87
  else if 65 ≤ b.toNat ∧ b.toNat ≤ 70 then b.toNat - 55
  else 16

/-- `tolower`. -/
def lower (b : UInt8) : UInt8 := if 65 ≤ b.toNat ∧ b.toNat ≤ 90 then b + 32 else b

theorem digitVal_digitByte {d : ℕ} (h : d < 16) : digitVal (digitByte d) = d := by
  interval_cases d <;> rfl

/-- A digit is written as it was read, but for the case. -/
theorem digitByte_digitVal {b : UInt8} (h : digitVal b < 16) : digitByte (digitVal b) = lower b := by
  have hall : ∀ n < 256, digitVal (UInt8.ofNat n) < 16 →
      digitByte (digitVal (UInt8.ofNat n)) = lower (UInt8.ofNat n) := by decide +kernel
  have := hall b.toNat b.toNat_lt
  rw [UInt8.ofNat_toNat] at this
  exact this h

/-! ## Strings of digits -/

/-- The number of a string of digits. -/
def value (base : ℕ) (ds : Bytes) : ℕ := ds.foldl (fun n b => n * base + digitVal b) 0

/-- The digits of a number. -/
def print (base n : ℕ) : Bytes := (Nat.toDigits base n).map fun c => UInt8.ofNat c.toNat

/-- The last `w` digits of a number. -/
def fixed (base : ℕ) : ℕ → ℕ → Bytes
  | 0, _ => []
  | w + 1, n => fixed base w (n / base) ++ [digitByte (n % base)]

section Digits

variable {base n w : ℕ}

theorem value_concat (ds : Bytes) (b : UInt8) :
    value base (ds ++ [b]) = value base ds * base + digitVal b := by
  rw [value, List.foldl_append]
  rfl

theorem print_of_lt (h : n < base) : print base n = [digitByte n] := by
  rw [print, Nat.toDigits_of_lt_base h]
  rfl

theorem print_of_le (hbase : 1 < base) (h : base ≤ n) :
    print base n = print base (n / base) ++ [digitByte (n % base)] := by
  rw [print, Nat.toDigits_of_base_le hbase h, List.map_append]
  rfl

theorem print_ne_nil : print base n ≠ [] := by
  rw [print, ne_eq, List.map_eq_nil_iff]
  exact Nat.toDigits_ne_nil

theorem length_print_le (hbase : 1 < base) (hw : 0 < w) (h : n < base ^ w) :
    (print base n).length ≤ w := by
  rw [print, List.length_map]
  exact (Nat.length_toDigits_le_iff hbase hw).mpr h

@[simp] theorem length_fixed (base w n : ℕ) : (fixed base w n).length = w := by
  induction w generalizing n with
  | zero => rfl
  | succ w ih => rw [fixed, List.length_append, ih, List.length_singleton]

theorem fixed_zero (w : ℕ) : fixed base w 0 = List.replicate w 48 := by
  induction w with
  | zero => rfl
  | succ w ih =>
    rw [fixed, Nat.zero_div, Nat.zero_mod, ih, List.replicate_succ']
    rfl

/-- A number that is filled up with zeros. -/
theorem replicate_append_print (hbase : 1 < base) (hw : 0 < w) (h : n < base ^ w) :
    List.replicate (w - (print base n).length) 48 ++ print base n = fixed base w n := by
  induction w generalizing n with
  | zero => exact absurd hw (lt_irrefl 0)
  | succ w ih =>
    rw [fixed]
    by_cases hn : n < base
    · rw [print_of_lt hn, Nat.div_eq_of_lt hn, Nat.mod_eq_of_lt hn, fixed_zero]
      rfl
    · have hle : base ≤ n := not_lt.mp hn
      have hpos : 0 < w := by
        refine Nat.pos_of_ne_zero fun hzero => hn ?_
        rwa [hzero, zero_add, pow_one] at h
      have hdiv : n / base < base ^ w := Nat.div_lt_of_lt_mul (by rwa [← pow_succ'])
      rw [print_of_le hbase hle, ← ih hpos hdiv, List.length_append, List.length_singleton,
        Nat.add_sub_add_right, List.append_assoc]

theorem value_fixed (hbase : 1 < base) (hbase' : base ≤ 16) (w n : ℕ) :
    value base (fixed base w n) = n % base ^ w := by
  induction w generalizing n with
  | zero => rw [pow_zero, Nat.mod_one]; rfl
  | succ w ih =>
    have hdigit : n % base < base := Nat.mod_lt _ (by omega)
    rw [fixed, value_concat, ih, digitVal_digitByte (by omega), pow_succ', Nat.mod_mul, mul_comm,
      add_comm]

theorem mem_fixed (hbase : 1 < base) (hbase' : base ≤ 16) {b : UInt8} (h : b ∈ fixed base w n) :
    digitVal b < base := by
  induction w generalizing n with
  | zero => exact absurd h List.not_mem_nil
  | succ w ih =>
    rcases List.mem_append.mp h with h | h
    · exact ih h
    · have hdigit : n % base < base := Nat.mod_lt _ (by omega)
      rw [List.mem_singleton.mp h, digitVal_digitByte (by omega)]
      exact hdigit

/-- The number of the digits that are written. -/
theorem value_print (hbase : 1 < base) (hbase' : base ≤ 16) (n : ℕ) :
    value base (print base n) = n := by
  induction n using Nat.strong_induction_on with
  | _ n ih =>
    by_cases hn : n < base
    · rw [print_of_lt hn]
      exact (Nat.zero_mul base ▸ Nat.zero_add _).trans (digitVal_digitByte (by omega))
    · have hle : base ≤ n := not_lt.mp hn
      have hdigit : n % base < base := Nat.mod_lt _ (by omega)
      rw [print_of_le hbase hle, value_concat, ih _ (Nat.div_lt_self (by omega) hbase),
        digitVal_digitByte (by omega), Nat.div_add_mod']

theorem mem_print (hbase : 1 < base) (hbase' : base ≤ 16) {b : UInt8} (h : b ∈ print base n) :
    digitVal b < base := by
  induction n using Nat.strong_induction_on with
  | _ n ih =>
    by_cases hn : n < base
    · rw [print_of_lt hn] at h
      rw [List.mem_singleton.mp h, digitVal_digitByte (by omega)]
      exact hn
    · have hle : base ≤ n := not_lt.mp hn
      rw [print_of_le hbase hle] at h
      rcases List.mem_append.mp h with h | h
      · exact ih _ (Nat.div_lt_self (by omega) hbase) h
      · have hdigit : n % base < base := Nat.mod_lt _ (by omega)
        rw [List.mem_singleton.mp h, digitVal_digitByte (by omega)]
        exact hdigit

theorem value_lt {ds : Bytes} (h : ∀ b ∈ ds, digitVal b < base) :
    value base ds < base ^ ds.length := by
  induction ds using List.reverseRecOn with
  | nil => exact Nat.one_pos
  | append_singleton ds b ih =>
    have hds := ih fun c hc => h c (List.mem_append_left _ hc)
    have hb := h b (by simp)
    rw [value_concat, List.length_append, List.length_singleton, pow_succ]
    calc value base ds * base + digitVal b < value base ds * base + base := by omega
      _ = (value base ds + 1) * base := by ring
      _ ≤ base ^ ds.length * base := Nat.mul_le_mul_right _ hds

/-- Digits that are read and written again come out in lower case. -/
theorem fixed_value (hbase : 1 < base) (hbase' : base ≤ 16) {ds : Bytes}
    (h : ∀ b ∈ ds, digitVal b < base) : fixed base ds.length (value base ds) = ds.map lower := by
  induction ds using List.reverseRecOn with
  | nil => rfl
  | append_singleton ds b ih =>
    have hb : digitVal b < base := h b (by simp)
    have hquot : (digitVal b + value base ds * base) / base = value base ds := by
      rw [Nat.add_mul_div_right _ _ (by omega), Nat.div_eq_of_lt hb, Nat.zero_add]
    have hlast : (digitVal b + value base ds * base) % base = digitVal b := by
      rw [Nat.add_mul_mod_self_right, Nat.mod_eq_of_lt hb]
    have hfront := ih fun c hc => h c (List.mem_append_left _ hc)
    rw [List.map_append, ← hfront, value_concat, Nat.add_comm (_ * _), List.length_append,
      List.length_singleton, fixed, hquot, hlast, digitByte_digitVal (by omega)]
    rfl

end Digits

/-! ## Reading a number -/

/-- `isspace`. -/
def isSpace (b : UInt8) : Bool := b = 32 || (9 ≤ b && b ≤ 13)

/-- The sign of a number, if the width allows one: whether it is a minus, and what is left. -/
def takeSign (w : ℕ) : Bytes → Bool × ℕ × Bytes
  | [] => (false, w, [])
  | b :: s =>
    if 0 < w ∧ b = 45 then (true, w - 1, s)
    else if 0 < w ∧ b = 43 then (false, w - 1, s)
    else (false, w, b :: s)

/-- The mark `0x` of a number in base 16. -/
def takeMark (base w : ℕ) : Bytes → ℕ × Bytes
  | b :: x :: s =>
    if base = 16 ∧ 2 ≤ w ∧ b = 48 ∧ (x = 120 ∨ x = 88) then (w - 2, s) else (w, b :: x :: s)
  | s => (w, s)

/-- The value of `strtoul`: negated modulo the width, and the largest one if it is too large. -/
def toULong (neg : Bool) (n : ℕ) : ℕ :=
  if 2 ^ 64 ≤ n then 2 ^ 64 - 1 else if neg then (2 ^ 64 - n) % 2 ^ 64 else n

/-- A conversion `%{w}x` or `%{w}o` of `scanf`: the number and what is left of the text, or a
failure. -/
def number (base w : ℕ) (s : Bytes) : Option (ℕ × Bytes) :=
  let (neg, w, s) := takeSign w (s.dropWhile isSpace)
  let (w, s) := takeMark base w s
  let ds := (s.take w).takeWhile fun b => digitVal b < base
  if ds.isEmpty then none else some (toULong neg (value base ds), s.drop ds.length)

section Number

variable {base w : ℕ} {b : UInt8} {ds rest : Bytes}

/-- A digit is neither space nor sign nor mark. -/
theorem digit_ne (h : digitVal b < 16) :
    isSpace b = false ∧ b ≠ 45 ∧ b ≠ 43 ∧ b ≠ 120 ∧ b ≠ 88 := by
  have hall : ∀ n < 256, digitVal (UInt8.ofNat n) < 16 → isSpace (UInt8.ofNat n) = false ∧
      UInt8.ofNat n ≠ 45 ∧ UInt8.ofNat n ≠ 43 ∧ UInt8.ofNat n ≠ 120 ∧ UInt8.ofNat n ≠ 88 := by
    decide +kernel
  have := hall b.toNat b.toNat_lt
  rw [UInt8.ofNat_toNat] at this
  exact this h

/-- Digits are not taken for a mark if the field ends with them, or if there is no mark in the
base. -/
theorem takeMark_digits (hds : ∀ c ∈ ds, digitVal c < 16) (hstop : ds.length = w ∨ base ≠ 16) :
    takeMark base w (ds ++ rest) = (w, ds ++ rest) := by
  match ds, hds, hstop with
  | [], _, hstop =>
    match rest with
    | [] => rfl
    | [_] => rfl
    | x :: y :: rest =>
      refine if_neg fun h => ?_
      rcases hstop with hlen | hbase
      · rw [← hlen] at h
        exact absurd h.2.1 (by decide)
      · exact hbase h.1
  | [x], _, hstop =>
    match rest with
    | [] => rfl
    | y :: rest =>
      refine if_neg fun h => ?_
      rcases hstop with hlen | hbase
      · rw [← hlen] at h
        exact absurd h.2.1 (by decide : ¬ 2 ≤ 1)
      · exact hbase h.1
  | x :: y :: ds, hds, _ =>
    refine if_neg fun h => ?_
    have hy := digit_ne (hds y (by simp))
    rcases h.2.2.2 with hx | hx
    · exact hy.2.2.2.1 hx
    · exact hy.2.2.2.2 hx

/-- **A number is read up to where its digits end**, by the width or by a byte that is no digit. -/
theorem number_digits (hbase : base ≤ 16) (hne : ds ≠ []) (hds : ∀ c ∈ ds, digitVal c < base)
    (hval : value base ds < 2 ^ 64)
    (hstop : ds.length = w ∨ ds.length ≤ w ∧ base ≠ 16 ∧ ∀ c ∈ rest.head?, base ≤ digitVal c)
    (k : ℕ) : number base w (List.replicate k 32 ++ (ds ++ rest)) = some (value base ds, rest) := by
  have hdigit : ∀ c ∈ ds, digitVal c < 16 := fun c hc => (hds c hc).trans_le hbase
  have hspace : (List.replicate k 32 ++ (ds ++ rest)).dropWhile isSpace = ds ++ rest := by
    have hspaces : ∀ c ∈ List.replicate k (32 : UInt8), isSpace c = true := by
      intro c hc
      rw [List.eq_of_mem_replicate hc]
      rfl
    rw [List.dropWhile_append_of_pos hspaces]
    cases ds with
    | nil => exact absurd rfl hne
    | cons d ds =>
      rw [List.cons_append, List.dropWhile_cons_of_neg]
      simp [(digit_ne (hdigit d (by simp))).1]
  have hsign : takeSign w (ds ++ rest) = (false, w, ds ++ rest) := by
    cases ds with
    | nil => exact absurd rfl hne
    | cons d ds =>
      have hd := digit_ne (hdigit d (by simp))
      rw [List.cons_append, takeSign, if_neg fun h => hd.2.1 h.2, if_neg fun h => hd.2.2.1 h.2]
  have hmark : takeMark base w (ds ++ rest) = (w, ds ++ rest) :=
    takeMark_digits hdigit (hstop.imp_right fun h => h.2.1)
  -- The digits in the field are `ds`.
  have htake : ((ds ++ rest).take w).takeWhile (fun c => digitVal c < base) = ds := by
    have hself : ds.takeWhile (fun c => digitVal c < base) = ds :=
      List.takeWhile_eq_self_iff.mpr fun c hc => decide_eq_true (hds c hc)
    rcases hstop with hlen | ⟨hle, -, hrest⟩
    · rw [List.take_left' hlen, hself]
    · rw [List.take_append, List.take_of_length_le hle,
        List.takeWhile_append_of_pos fun c hc => decide_eq_true (hds c hc)]
      cases rest with
      | nil => rw [List.take_nil, List.takeWhile_nil, List.append_nil]
      | cons r rest =>
        have hr : ¬ digitVal r < base := not_lt.mpr (hrest r rfl)
        cases w - ds.length with
        | zero => rw [List.take_zero, List.takeWhile_nil, List.append_nil]
        | succ m =>
          rw [List.take_succ_cons, List.takeWhile_cons_of_neg (by simpa using hr), List.append_nil]
  have hisEmpty : ds.isEmpty = false := by
    cases ds with
    | nil => exact absurd rfl hne
    | cons => rfl
  rw [number, hspace, hsign]
  dsimp only
  rw [hmark]
  dsimp only
  rw [htake, hisEmpty, if_neg Bool.false_ne_true, List.drop_left, toULong, if_neg (not_le.mpr hval),
    if_neg Bool.false_ne_true]

end Number

end Numeral
