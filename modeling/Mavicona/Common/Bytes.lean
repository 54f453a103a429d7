import Mathlib.Data.List.TakeWhile
import Mathlib.Algebra.Order.Group.Nat
import Mathlib.Tactic.Ring

/-!
# Byte strings, C strings and packed struct fields

`Bytes` is the model of `std::string` and of raw buffers. The module collects what a C struct image
needs: the truncation of machine integers (`u16`, `u32`), little-endian integers (`le`, `ofLe`),
fixed-width character arrays filled by `strcpy` and `strncpy` (`cstr`, `padTo`), and the read-back of
one field of an image (`field`).
-/

/-- A byte string: `std::string`, a buffer, or the contents of a file. -/
abbrev Bytes := List UInt8

namespace Bytes

/-- The bytes of an ASCII literal, without a terminator. -/
def ascii (s : String) : Bytes :=
  s.toList.map fun c => UInt8.ofNat c.toNat

/-! ## Machine integers -/

/-- A value stored in an `unsigned short`. -/
def u16 (n : ℕ) : ℕ := n % 2 ^ 16

/-- A value stored in an `unsigned int`. -/
def u32 (n : ℕ) : ℕ := n % 2 ^ 32

theorem u16_of_lt {n : ℕ} (h : n < 2 ^ 16) : u16 n = n := Nat.mod_eq_of_lt h

theorem u32_of_lt {n : ℕ} (h : n < 2 ^ 32) : u32 n = n := Nat.mod_eq_of_lt h

/-! ## Little-endian integers -/

/-- The low `w` bytes of `n`, least significant first. -/
def le : ℕ → ℕ → Bytes
  | 0, _ => []
  | w + 1, n => UInt8.ofNat n :: le w (n / 256)

/-- The value of a little-endian byte string. -/
def ofLe : Bytes → ℕ
  | [] => 0
  | b :: bs => b.toNat + 256 * ofLe bs

@[simp] theorem length_le (w n : ℕ) : (le w n).length = w := by
  induction w generalizing n with
  | zero => rfl
  | succ w ih => simp [le, ih]

/-- Reading back a little-endian integer gives its value modulo the width. -/
theorem ofLe_le (w n : ℕ) : ofLe (le w n) = n % 256 ^ w := by
  induction w generalizing n with
  | zero => simp [le, ofLe, Nat.mod_one]
  | succ w ih =>
    have hbyte : (UInt8.ofNat n).toNat = n % 256 := by simp
    rw [le, ofLe, ih, hbyte, pow_succ', Nat.mod_mul]

/-- An integer that fits its width is read back unchanged. -/
theorem ofLe_le_of_lt {w n : ℕ} (h : n < 256 ^ w) : ofLe (le w n) = n := by
  rw [ofLe_le, Nat.mod_eq_of_lt h]

/-! ## Character arrays -/

/-- The bytes of `bs` before its first NUL: what `c_str()` users see. -/
def cstr (bs : Bytes) : Bytes := bs.takeWhile (· ≠ 0)

/-- A character array of `n` bytes that starts with `bs` and is zero elsewhere. -/
def padTo (n : ℕ) (bs : Bytes) : Bytes :=
  (bs ++ List.replicate n 0).take n

@[simp] theorem length_padTo (n : ℕ) (bs : Bytes) : (padTo n bs).length = n := by
  simp [padTo]

/-- A string that fills the array exactly is stored as it is. -/
theorem padTo_eq_self {n : ℕ} {bs : Bytes} (h : bs.length = n) : padTo n bs = bs := by
  subst h
  simp [padTo]

/-- A NUL-free string is its own C string. -/
theorem cstr_eq_self {bs : Bytes} (h : 0 ∉ bs) : cstr bs = bs := by
  rw [cstr, List.takeWhile_eq_self_iff]
  intro b hb
  simpa using fun hb0 : b = 0 => h (hb0 ▸ hb)

theorem zero_notMem_cstr (bs : Bytes) : 0 ∉ cstr bs := by
  intro h
  have := List.mem_takeWhile_imp h
  simp at this

/-- A character array of `n` bytes. -/
structure Chars (n : ℕ) where
  bytes : Bytes
  length_eq : bytes.length = n

/-- An array that `memset` has cleared. -/
def Chars.zero (n : ℕ) : Chars n := ⟨List.replicate n 0, List.length_replicate⟩

/-- A text copied to the start of an array. What does not fit is left out. -/
def Chars.copy {n : ℕ} (a : Chars n) (text : Bytes) : Chars n :=
  ⟨(text ++ a.bytes.drop text.length).take n, by
    rw [List.length_take, List.length_append, List.length_drop, a.length_eq]
    omega⟩

theorem Chars.copy_of_length {n : ℕ} (a : Chars n) {text : Bytes} (h : text.length = n) :
    (a.copy text).bytes = text := by
  have hdrop : a.bytes.drop text.length = [] := List.drop_of_length_le (by rw [a.length_eq, h])
  change (text ++ a.bytes.drop text.length).take n = text
  rw [hdrop, List.append_nil, List.take_of_length_le h.le]

theorem Chars.zero_copy {n : ℕ} {text : Bytes} (h : text.length ≤ n) :
    ((zero n).copy text).bytes = text ++ List.replicate (n - text.length) 0 := by
  change (text ++ (List.replicate n 0).drop text.length).take n = _
  rw [List.drop_replicate, List.take_of_length_le]
  rw [List.length_append, List.length_replicate]
  omega

/-! ## Fields of a struct image -/

/-- The `n` bytes at offset `off` of a struct image. -/
def field (bs : Bytes) (off n : ℕ) : Bytes := (bs.drop off).take n

/-- The first field of an image. -/
theorem field_zero_append {xs ys : Bytes} {n : ℕ} (h : xs.length = n) :
    field (xs ++ ys) 0 n = xs := by
  subst h
  simp [field]

/-- Offsets behind the first field are offsets into the rest of the image. -/
theorem field_append {xs ys : Bytes} {off n : ℕ} (h : xs.length ≤ off) :
    field (xs ++ ys) off n = field ys (off - xs.length) n := by
  rw [field, field, List.drop_append, List.drop_of_length_le h, List.nil_append]

/-- A field that is the whole image. -/
theorem field_self {xs : Bytes} {n : ℕ} (h : xs.length = n) : field xs 0 n = xs := by
  subst h
  simp [field]

/-- A field of a field. -/
theorem field_field {bs : Bytes} {off i m n : ℕ} (h : i + n ≤ m) :
    field (field bs off m) i n = field bs (off + i) n := by
  rw [field, field, field, List.drop_take, List.drop_drop, List.take_take, Nat.min_eq_left (by omega)]

end Bytes
