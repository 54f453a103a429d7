import Mathlib.Tactic.NormNum
import Mavicona.Common.Blocks

/-!
# SHA-1

The hash function itself, on words of 32 bits: a block of sixteen words is extended to a schedule, the
state goes through eighty rounds, and a message is filled up to whole blocks with its length at the
end.
-/

namespace Sha1

abbrev Word := BitVec 32

/-- A block of sixteen words. -/
abbrev Block := Fin 16 → Word

structure State where
  a : Word
  b : Word
  c : Word
  d : Word
  e : Word
deriving DecidableEq

/-- A rotation to the left. -/
def rotl (x : Word) (n : ℕ) : Word := x <<< n ||| x >>> (32 - n)

/-- The schedule of a block. -/
def schedule (m : Block) (t : ℕ) : Word :=
  if h : t < 16 then m ⟨t, h⟩
  else rotl (schedule m (t - 3) ^^^ schedule m (t - 8) ^^^ schedule m (t - 14) ^^^
    schedule m (t - 16)) 1

/-- The function of a round. -/
def f (t : ℕ) (b c d : Word) : Word :=
  if t < 20 then d ^^^ (b &&& (c ^^^ d))
  else if t < 40 then b ^^^ c ^^^ d
  else if t < 60 then (b &&& c) ||| (b &&& d) ||| (c &&& d)
  else b ^^^ c ^^^ d

/-- The constant of a round. -/
def k (t : ℕ) : Word :=
  if t < 20 then 0x5a827999#32
  else if t < 40 then 0x6ed9eba1#32
  else if t < 60 then 0x8f1bbcdc#32
  else 0xca62c1d6#32

def round (m : Block) (s : State) (t : ℕ) : State where
  a := rotl s.a 5 + f t s.b s.c s.d + s.e + k t + schedule m t
  b := s.a
  c := rotl s.b 30
  d := s.c
  e := s.d

def State.add (s t : State) : State := ⟨s.a + t.a, s.b + t.b, s.c + t.c, s.d + t.d, s.e + t.e⟩

/-- The function of a block. -/
def compress (s : State) (m : Block) : State := s.add ((List.range 80).foldl (round m) s)

def init : State := ⟨0x67452301#32, 0xefcdab89#32, 0x98badcfe#32, 0x10325476#32, 0xc3d2e1f0#32⟩

/-! ## Messages -/

/-- Four bytes, the most significant one first. -/
def word (bs : Bytes) (i : ℕ) : Word :=
  BitVec.ofNat 32 ((bs.getD (4 * i) 0).toNat * 2 ^ 24 + (bs.getD (4 * i + 1) 0).toNat * 2 ^ 16 +
    (bs.getD (4 * i + 2) 0).toNat * 2 ^ 8 + (bs.getD (4 * i + 3) 0).toNat)

/-- The words of a block. -/
def words (bs : Bytes) : Block := fun i => word bs i

/-- A number of 64 bits, the most significant byte first. -/
def be64 (n : ℕ) : Bytes :=
  [UInt8.ofNat (n / 2 ^ 56), UInt8.ofNat (n / 2 ^ 48), UInt8.ofNat (n / 2 ^ 40),
    UInt8.ofNat (n / 2 ^ 32), UInt8.ofNat (n / 2 ^ 24), UInt8.ofNat (n / 2 ^ 16),
    UInt8.ofNat (n / 2 ^ 8), UInt8.ofNat n]

/-- The bytes that fill up a message. -/
def padding (len : ℕ) : Bytes := 128 :: (List.replicate ((119 - len % 64) % 64) 0 ++ be64 (8 * len))

def absorb (s : State) (bs : Bytes) : State × Bytes :=
  Blocks.absorb (fun s bs => compress s (words bs)) 64 s bs

/-- The hash of a message. -/
def digest (message : Bytes) : State := (absorb init (message ++ padding message.length)).1

/-! ## Lemmas -/

section Lemmas

variable {m : Block} {t : ℕ} {s : State} {bs : Bytes}

theorem schedule_of_lt (m : Block) (h : t < 16) : schedule m t = m ⟨t, h⟩ := by
  rw [schedule, dif_pos h]

theorem schedule_of_le (m : Block) (h : 16 ≤ t) : schedule m t =
    rotl (schedule m (t - 3) ^^^ schedule m (t - 8) ^^^ schedule m (t - 14) ^^^
      schedule m (t - 16)) 1 := by
  rw [schedule, dif_neg (not_lt.mpr h)]

theorem length_be64 (n : ℕ) : (be64 n).length = 8 := rfl

/-- A message is filled up to one or two blocks behind its last whole one. -/
theorem length_padding (len : ℕ) :
    len % 64 + (padding len).length = if len % 64 < 56 then 64 else 128 := by
  rw [padding, List.length_cons, List.length_append, List.length_replicate, length_be64]
  split_ifs with h
  · omega
  · have := Nat.mod_lt len (show 64 > 0 by decide)
    omega

/-- The hash of a message from what is left of it behind its last whole block. -/
theorem digest_eq (message : Bytes) : digest message =
    (absorb (absorb init message).1 ((absorb init message).2 ++ padding message.length)).1 := by
  rw [digest, absorb, Blocks.absorb_append (by decide)]
  rfl

theorem absorb_one (h : bs.length = 64) : (absorb s bs).1 = compress s (words bs) := by
  have hblock := @Blocks.absorb_block _ (fun s bs => compress s (words bs)) 64 s bs [] (by decide) h
  rw [List.append_nil] at hblock
  rw [absorb, hblock, Blocks.absorb_of_lt (by decide)]

theorem absorb_two (h : bs.length = 128) :
    (absorb s bs).1 = compress (compress s (words (bs.take 64))) (words (bs.drop 64)) := by
  have hdrop : (bs.drop 64).length = 64 := by rw [List.length_drop, h]
  rw [absorb, Blocks.absorb_of_le (by decide) (by omega)]
  exact absorb_one hdrop

/-- A number from its four bytes. -/
theorem value_bytes (n : ℕ) : n / 2 ^ 24 % 256 * 2 ^ 24 + n / 2 ^ 16 % 256 * 2 ^ 16 +
    n / 2 ^ 8 % 256 * 2 ^ 8 + n % 256 = n % 2 ^ 32 := by
  norm_num
  omega

theorem word_of_bytes {i n : ℕ} (h0 : bs.getD (4 * i) 0 = UInt8.ofNat (n / 2 ^ 24))
    (h1 : bs.getD (4 * i + 1) 0 = UInt8.ofNat (n / 2 ^ 16))
    (h2 : bs.getD (4 * i + 2) 0 = UInt8.ofNat (n / 2 ^ 8))
    (h3 : bs.getD (4 * i + 3) 0 = UInt8.ofNat n) : word bs i = BitVec.ofNat 32 n := by
  refine BitVec.eq_of_toNat_eq ?_
  rw [word, h0, h1, h2, h3, BitVec.toNat_ofNat, BitVec.toNat_ofNat]
  simp only [UInt8.toNat_ofNat']
  rw [value_bytes, Nat.mod_mod]

/-- The two words of the length, at the end of the last block. -/
theorem word_be64 {front : Bytes} (hfront : front.length = 56) (n : ℕ) :
    word (front ++ be64 n) 14 = BitVec.ofNat 32 (n / 2 ^ 32) ∧
      word (front ++ be64 n) 15 = BitVec.ofNat 32 n := by
  have hbyte (j : ℕ) : (front ++ be64 n).getD (56 + j) 0 = (be64 n).getD j 0 := by
    rw [List.getD_eq_getElem?_getD, List.getElem?_append_right (by omega), hfront,
      Nat.add_sub_cancel_left, List.getD_eq_getElem?_getD]
  have hdiv (i : ℕ) : UInt8.ofNat (n / 2 ^ (32 + i)) = UInt8.ofNat (n / 2 ^ 32 / 2 ^ i) := by
    rw [Nat.div_div_eq_div_mul, pow_add]
  exact ⟨word_of_bytes ((hbyte 0).trans (hdiv 24)) ((hbyte 1).trans (hdiv 16))
      ((hbyte 2).trans (hdiv 8)) (hbyte 3),
    word_of_bytes (hbyte 4) (hbyte 5) (hbyte 6) (hbyte 7)⟩

/-- The words in front of a change are the same. -/
theorem word_congr {front tail tail' : Bytes} {i : ℕ} (hi : 4 * i + 3 < front.length) :
    word (front ++ tail) i = word (front ++ tail') i := by
  have hbyte (j : ℕ) (hj : j < front.length) (t : Bytes) :
      (front ++ t).getD j 0 = front.getD j 0 := by
    rw [List.getD_eq_getElem?_getD, List.getElem?_append_left hj, List.getD_eq_getElem?_getD]
  simp only [word, hbyte (4 * i) (by omega), hbyte (4 * i + 1) (by omega),
    hbyte (4 * i + 2) (by omega), hbyte (4 * i + 3) hi]

theorem word_replicate {n i : ℕ} {tail : Bytes} (hi : 4 * i + 3 < n) :
    word (List.replicate n 0 ++ tail) i = 0 := by
  have hbyte (j : ℕ) (hj : j < n) : (List.replicate n 0 ++ tail).getD j 0 = 0 := by
    rw [List.getD_eq_getElem?_getD, List.getElem?_append_left (by rw [List.length_replicate]; exact hj),
      List.getElem?_replicate, if_pos hj]
    rfl
  rw [word, hbyte _ (by omega), hbyte _ (by omega), hbyte _ (by omega), hbyte _ hi]
  rfl

/-- What fills up a message: a single block, or the rest of one and another. -/
theorem padding_eq_of_lt {len : ℕ} (h : len % 64 < 56) :
    padding len = 128 :: (List.replicate (55 - len % 64) 0 ++ be64 (8 * len)) := by
  have hzeros : (119 - len % 64) % 64 = 55 - len % 64 := by omega
  rw [padding, hzeros]

theorem padding_eq_of_le {len : ℕ} (h : 56 ≤ len % 64) : padding len =
    128 :: (List.replicate (63 - len % 64) 0 ++ (List.replicate 56 0 ++ be64 (8 * len))) := by
  have hzeros : (119 - len % 64) % 64 = 63 - len % 64 + 56 := by omega
  rw [padding, hzeros, ← List.replicate_append_replicate, List.append_assoc]

end Lemmas

end Sha1
