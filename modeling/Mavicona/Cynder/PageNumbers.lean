import Mathlib.Data.Nat.Digits.Lemmas
import Mathlib.Tactic.IntervalCases
import Mavicona.Cynder.Filebase

/-!
# Page numbers and file names

`dbname` prints the counter with at least four digits, `pagecounter` reads the first four back. What
comes back is the counter without its last digits, so far as it has more than four
(`pagecounter_dbname`).
-/

namespace Mavicona.Cynder

theorem basename_append {dir name : Path} (h : '/' ∉ name) :
    basename (dir ++ '/' :: name) = name := by
  have hkeep : ∀ c ∈ name.reverse, decide (c ≠ '/') = true := by
    intro c hc
    simp only [decide_eq_true_eq]
    rintro rfl
    exact h (List.mem_reverse.1 hc)
  have hreverse : (dir ++ '/' :: name).reverse = name.reverse ++ '/' :: dir.reverse := by simp
  rw [basename, hreverse, List.takeWhile_append_of_pos hkeep, List.takeWhile_cons_of_neg (by simp),
    List.append_nil, List.reverse_reverse]

/-! ## Digits -/

theorem toNat_digit {d : ℕ} (h : d < 10) : (Char.ofNat (48 + d)).toNat = 48 + d := by
  interval_cases d <;> rfl

theorem slash_notMem_digits {ds : List ℕ} (h : ∀ d ∈ ds, d < 10) :
    '/' ∉ ds.map fun d => Char.ofNat (48 + d) := by
  intro hmem
  obtain ⟨d, hd, heq⟩ := List.mem_map.mp hmem
  have hcode := congrArg Char.toNat heq
  rw [toNat_digit (h d hd)] at hcode
  have hslash : '/'.toNat = 47 := rfl
  omega

/-- `atoi` is the value of the digits. -/
theorem atoi_digits {ds : List ℕ} (h : ∀ d ∈ ds, d < 10) :
    atoi (ds.map fun d => Char.ofNat (48 + d)) = Nat.ofDigits 10 ds.reverse := by
  induction ds using List.reverseRecOn with
  | nil => rfl
  | append_singleton ds d ih =>
    have hd := toNat_digit (h d (by simp))
    have hds := ih fun d hd => h d (List.mem_append_left _ hd)
    rw [List.map_append, atoi, List.foldl_append, ← atoi, hds, List.reverse_append,
      List.reverse_singleton, List.singleton_append, Nat.ofDigits_cons]
    simp only [List.map_cons, List.map_nil, List.foldl_cons, List.foldl_nil, hd]
    omega

theorem fourDigits_lt {counter : ℕ} : ∀ d ∈ fourDigits counter, d < 10 := by
  intro d hd
  rcases List.mem_append.mp hd with hzero | hdigit
  · rw [List.eq_of_mem_replicate hzero]
    decide
  · exact Nat.digits_lt_base (by decide) (List.mem_reverse.mp hdigit)

/-- The first four digits hold the counter without the digits behind them. -/
theorem ofDigits_take_fourDigits (counter : ℕ) :
    Nat.ofDigits 10 ((fourDigits counter).take 4).reverse
      = counter / 10 ^ ((Nat.digits 10 counter).length - 4) := by
  rcases Nat.lt_or_ge (Nat.digits 10 counter).length 4 with hshort | hlong
  · have hlen : (fourDigits counter).length = 4 := by
      simp only [fourDigits, List.length_append, List.length_replicate, List.length_reverse]
      omega
    have hzero : (Nat.digits 10 counter).length - 4 = 0 := by omega
    rw [List.take_of_length_le hlen.le, fourDigits, List.reverse_append, List.reverse_reverse,
      List.reverse_replicate, Nat.ofDigits_append_replicate_zero, Nat.ofDigits_digits, hzero,
      pow_zero, Nat.div_one]
  · have hfill : 4 - (Nat.digits 10 counter).length = 0 := by omega
    rw [fourDigits, hfill, List.replicate_zero, List.nil_append, List.take_reverse,
      List.reverse_reverse, Nat.self_div_pow_eq_ofDigits_drop _ _ (by decide)]

/-! ## The number of a file -/

/-- `pagecounter` reads the first four digits of the name. -/
theorem pagecounter_dbname (counter : ℕ) :
    pagecounter (dbname counter) = counter / 10 ^ ((Nat.digits 10 counter).length - 4) := by
  have hlen : 4 ≤ (fourDigits counter).length := by
    simp only [fourDigits, List.length_append, List.length_replicate, List.length_reverse]
    omega
  have hname : dbname counter = "data".toList ++ '/' :: ("lfb".toList ++
      (((fourDigits counter).map fun d => Char.ofNat (48 + d)) ++ "dxdb".toList)) :=
    List.append_assoc "data/lfb".toList _ "dxdb".toList
  have hbase : '/' ∉ "lfb".toList ++
      (((fourDigits counter).map fun d => Char.ofNat (48 + d)) ++ "dxdb".toList) := by
    simp only [List.mem_append, not_or]
    exact ⟨by decide, slash_notMem_digits fourDigits_lt, by decide⟩
  have hdrop : ∀ l : List Char, ("lfb".toList ++ l).drop 3 = l := fun _ => rfl
  rw [pagecounter, hname, basename_append hbase, hdrop,
    List.take_append_of_le_length (by simpa using hlen), ← List.map_take,
    atoi_digits fun d hd => fourDigits_lt d (List.mem_of_mem_take hd), ofDigits_take_fourDigits]

/-- Up to four digits the number is the counter. -/
theorem pagecounter_dbname_of_lt {counter : ℕ} (h : counter < 10000) :
    pagecounter (dbname counter) = counter := by
  have hlen : (Nat.digits 10 counter).length ≤ 4 :=
    (Nat.digits_length_le_iff (by decide) counter).mpr (by omega)
  rw [pagecounter_dbname, Nat.sub_eq_zero_of_le hlen, pow_zero, Nat.div_one]

theorem pagecounter_dbname_zero : pagecounter (dbname 0) = 0 :=
  pagecounter_dbname_of_lt (by decide)

theorem pagecounter_dbname_one : pagecounter (dbname 1) = 1 :=
  pagecounter_dbname_of_lt (by decide)

/-- The number has at most four digits. -/
theorem pagecounter_dbname_lt (counter : ℕ) : pagecounter (dbname counter) < 10000 := by
  have hlt : counter < 10 ^ (Nat.digits 10 counter).length :=
    Nat.lt_base_pow_length_digits (by decide)
  rw [pagecounter_dbname, Nat.div_lt_iff_lt_mul (by positivity)]
  calc counter < 10 ^ (Nat.digits 10 counter).length := hlt
    _ ≤ 10 ^ (4 + ((Nat.digits 10 counter).length - 4)) :=
      Nat.pow_le_pow_right (by decide) (by omega)
    _ = 10000 * 10 ^ ((Nat.digits 10 counter).length - 4) := by
      rw [pow_add]
      rfl

/-- A number that lost digits is not zero. -/
theorem pagecounter_dbname_eq_zero_iff {counter : ℕ} :
    pagecounter (dbname counter) = 0 ↔ counter = 0 := by
  constructor
  · intro h
    by_contra hne
    have hpos := Nat.base_pow_length_digits_le 10 counter (by decide) hne
    rw [pagecounter_dbname, Nat.div_eq_zero_iff_lt (by positivity)] at h
    rcases Nat.lt_or_ge (Nat.digits 10 counter).length 4 with hshort | hlong
    · have hzero : (Nat.digits 10 counter).length - 4 = 0 := by omega
      rw [hzero] at h
      omega
    · have hfour : 10 ^ (Nat.digits 10 counter).length
          = 10000 * 10 ^ ((Nat.digits 10 counter).length - 4) := by
        rw [← Nat.add_sub_cancel' hlong, pow_add, Nat.add_sub_cancel_left]
        rfl
      omega
  · rintro rfl
    exact pagecounter_dbname_zero

end Mavicona.Cynder
