import Mathlib.Tactic.NormNum
import Mathlib.Tactic.Ring
import Mavicona.Common.Sha1
import Mavicona.Quid.Text

/-!
# The hash of the worker

Reference: `chella/sha1.h`, `chella/sha1.cpp` (`SHA1`).

The words of the class are called `uint32` but have 64 bits. What stands above the lower 32 bits is
carried through additions, rotations and the schedule, which is computed in place in the block; a
rotation takes only the lower bits for what it moves around, and the lower bits of everything else
depend on lower bits only. So the lower bits are those of the hash function (`low_transform`).
-/

namespace Mavicona.Chella

open Bytes Sha1

/-- `uint32`, an `unsigned long int`. -/
abbrev UInt32Word := BitVec 64

/-- The lower half of a word. -/
def low (x : UInt32Word) : Word := x.setWidth 32

/-- `SHA1_ROL`. -/
def rol (value : UInt32Word) (bits : ℕ) : UInt32Word :=
  value <<< bits ||| (value &&& 0xffffffff#64) >>> (32 - bits)

/-- An assignment to a word of an array. -/
def put {n : ℕ} (words : Vector UInt32Word n) (i : Fin n) (x : UInt32Word) : Vector UInt32Word n :=
  words.set i x

/-- The variables `a` to `e` of `SHA1::transform`, and the block. -/
structure Work where
  vars : Vector UInt32Word 5
  block : Vector UInt32Word 16

/-- `SHA1_BLK`: the block with its next word. -/
def blk (i : ℕ) (block : Vector UInt32Word 16) : Vector UInt32Word 16 :=
  put block (Fin.ofNat 16 i)
    (rol (block[Fin.ofNat 16 (i + 13)] ^^^ block[Fin.ofNat 16 (i + 8)] ^^^
      block[Fin.ofNat 16 (i + 2)] ^^^ block[Fin.ofNat 16 i]) 1)

/-- `z += g + block[i&15] + k + SHA1_ROL(v,5); w=SHA1_ROL(w,30);` -/
def Work.step (s : Work) (i : ℕ) (v w z : Fin 5) (g k : UInt32Word) : Work :=
  let vars := put s.vars z (s.vars[z] + (g + s.block[Fin.ofNat 16 i] + k + rol s.vars[v] 5))
  { s with vars := put vars w (rol vars[w] 30) }

section Macros

variable (s : Work) (v w x y z : Fin 5) (i : ℕ)

/-- `SHA1_R0`. -/
def r0 : Work :=
  s.step i v w z ((s.vars[w] &&& (s.vars[x] ^^^ s.vars[y])) ^^^ s.vars[y]) 0x5a827999#64

/-- `SHA1_R1`. -/
def r1 : Work :=
  { s with block := blk i s.block }.step i v w z
    ((s.vars[w] &&& (s.vars[x] ^^^ s.vars[y])) ^^^ s.vars[y]) 0x5a827999#64

/-- `SHA1_R2`. -/
def r2 : Work :=
  { s with block := blk i s.block }.step i v w z (s.vars[w] ^^^ s.vars[x] ^^^ s.vars[y]) 0x6ed9eba1#64

/-- `SHA1_R3`. -/
def r3 : Work :=
  { s with block := blk i s.block }.step i v w z
    (((s.vars[w] ||| s.vars[x]) &&& s.vars[y]) ||| (s.vars[w] &&& s.vars[x])) 0x8f1bbcdc#64

/-- `SHA1_R4`. -/
def r4 : Work :=
  { s with block := blk i s.block }.step i v w z (s.vars[w] ^^^ s.vars[x] ^^^ s.vars[y]) 0xca62c1d6#64

end Macros

/-- The variable that stands at place `j` of the macro of a round: `a, b, c, d, e` for the first,
`e, a, b, c, d` for the second, and so on. -/
def role (i : ℕ) (j : Fin 5) : Fin 5 := j - Fin.ofNat 5 i

/-- A round of `SHA1::transform`, where the loop is unrolled. -/
def transformRound (s : Work) (i : ℕ) : Work :=
  let r :=
    if i < 16 then r0 else if i < 20 then r1 else if i < 40 then r2 else if i < 60 then r3 else r4
  r s (role i 0) (role i 1) (role i 2) (role i 3) (role i 4) i

/-- `SHA1`. -/
structure SHA1 where
  digest : Vector UInt32Word 5
  buffer : Bytes
  transforms : BitVec 64

namespace SHA1

/-- `SHA1::reset`. -/
def reset : SHA1 where
  digest := #v[0x67452301#64, 0xefcdab89#64, 0x98badcfe#64, 0x10325476#64, 0xc3d2e1f0#64]
  buffer := []
  transforms := 0

/-- `SHA1::transform`: what comes of the object and of the block. -/
def transform (s : SHA1) (block : Vector UInt32Word 16) : SHA1 × Vector UInt32Word 16 :=
  let work := (List.range 80).foldl transformRound ⟨s.digest, block⟩
  ({ s with
      digest := .ofFn fun j => s.digest[j] + work.vars[j]
      transforms := s.transforms + 1 }, work.block)

/-- A character, as an `int` without its sign. -/
def charAt (buffer : Bytes) (i : ℕ) : BitVec 32 := (buffer.getD i 0).toBitVec.setWidth 32

/-- `SHA1::buffer_to_block`. The bytes are put together to an `int`, and its sign is extended. -/
def bufferToBlock (buffer : Bytes) : Vector UInt32Word 16 :=
  .ofFn fun i =>
    (charAt buffer (4 * i + 3) ||| charAt buffer (4 * i + 2) <<< 8 |||
      charAt buffer (4 * i + 1) <<< 16 ||| charAt buffer (4 * i) <<< 24).signExtend 64

/-- The loop of `SHA1::update`: `good` is the state of the stream after it was read from. Every round
but the last takes a block from it, so that its length is enough for the number of rounds. -/
def updateLoop : ℕ → Bool → Bytes → SHA1 → SHA1
  | 0, _, _, s => s
  | _, false, _, s => s
  | rounds + 1, true, is, s =>
    let s := (s.transform (bufferToBlock s.buffer)).1
    updateLoop rounds (64 ≤ is.length) (is.drop 64) { s with buffer := is.take 64 }

/-- `SHA1::update`. -/
def update (s : SHA1) (is : Bytes) : SHA1 :=
  let max := 64 - s.buffer.length
  updateLoop (is.length + 1) (max ≤ is.length) (is.drop max)
    { s with buffer := s.buffer ++ is.take max }

/-- The words of the length, in the last block. -/
def appendBits (block : Vector UInt32Word 16) (totalBits : BitVec 64) : Vector UInt32Word 16 :=
  put (put block 15 totalBits) 14 (totalBits >>> 32)

/-- `SHA1::final`: the digest before it is printed. -/
def finalDigest (s : SHA1) : Vector UInt32Word 5 :=
  let totalBits := (s.transforms * 64 + BitVec.ofNat 64 s.buffer.length) * 8
  let buffer := s.buffer ++ [128]
  let origSize := buffer.length
  let block := bufferToBlock (buffer ++ List.replicate (64 - buffer.length) 0)
  let (s, block) :=
    if 64 - 8 < origSize then
      let (s, block) := s.transform block
      (s, .ofFn fun i => if i.val < 16 - 2 then 0 else block[i])
    else (s, block)
  (s.transform (appendBits block totalBits)).1.digest

/-- `SHA1::final`: the text. The object is reset after it. -/
def final (s : SHA1) : Bytes :=
  let digest := s.finalDigest
  (List.finRange 5).flatMap fun i => Quid.hexPrec 8 (digest[i] &&& 0xffffffff#64).toNat

end SHA1

/-! ## Words -/

section Arrays

variable {n : ℕ} (words : Vector UInt32Word n) {i j : Fin n} (x : UInt32Word)

theorem getElem_put_self : (put words i x)[i] = x := by
  rw [put, Fin.getElem_fin, Vector.getElem_set_self]

theorem getElem_put_of_ne (h : j ≠ i) : (put words i x)[j] = words[j] := by
  rw [put, Fin.getElem_fin, Vector.getElem_set_ne _ _ fun hij => h (Fin.ext hij.symm)]
  rfl

theorem getElem_ofFn (f : Fin n → UInt32Word) (i : Fin n) : (Vector.ofFn f)[i] = f i := by
  rw [Fin.getElem_fin, Vector.getElem_ofFn]

end Arrays

section Words

variable (x y : UInt32Word)

theorem low_add : low (x + y) = low x + low y := BitVec.setWidth_add x y (by decide)

theorem low_and : low (x &&& y) = low x &&& low y := BitVec.setWidth_and

theorem low_or : low (x ||| y) = low x ||| low y := BitVec.setWidth_or

theorem low_xor : low (x ^^^ y) = low x ^^^ low y := BitVec.setWidth_xor

/-- What a rotation moves around comes from the lower half. -/
theorem low_rol {n : ℕ} (hn : n ≤ 32) : low (rol x n) = rotl (low x) n := by
  have hmask : 0xffffffff#64 = (BitVec.allOnes 32).setWidth 64 := by decide
  refine BitVec.eq_of_getLsbD_eq fun i hi => ?_
  rw [low, rol, rotl, hmask]
  simp only [low, BitVec.getLsbD_setWidth, BitVec.getLsbD_or, BitVec.getLsbD_shiftLeft,
    BitVec.getLsbD_ushiftRight, BitVec.getLsbD_and, BitVec.getLsbD_allOnes, hi]
  by_cases hlow : i < n
  · have hright : 32 - n + i < 64 := by omega
    simp [hlow, hright, Bool.and_comm]
  · have hright : ¬ 32 - n + i < 32 := by omega
    have hleft : i - n < 32 := by omega
    have hwide : i < 64 := by omega
    simp [hlow, hright, hleft, hwide]

/-- An `int` that is extended by its sign keeps its bits. -/
theorem low_signExtend (w : Word) : low (w.signExtend 64) = w := by
  refine BitVec.eq_of_getLsbD_eq fun i hi => ?_
  rw [low, BitVec.getLsbD_setWidth, BitVec.getLsbD_signExtend]
  simp [hi, show i < 64 by omega]

theorem or_shiftLeft {a b n : ℕ} (h : b < 2 ^ n) : b ||| a <<< n = a * 2 ^ n + b := by
  rw [Nat.or_comm, ← Nat.shiftLeft_add_eq_or_of_lt h, Nat.shiftLeft_eq]

/-- Four bytes that are put together by shifts. -/
theorem or_shiftLeft_bytes {a b c d : ℕ} (hb : b < 256) (hc : c < 256) (hd : d < 256) :
    d ||| c <<< 8 ||| b <<< 16 ||| a <<< 24 = a * 2 ^ 24 + b * 2 ^ 16 + c * 2 ^ 8 + d := by
  have hcd : c * 2 ^ 8 + d < 2 ^ 16 := by omega
  have hbcd : b * 2 ^ 16 + (c * 2 ^ 8 + d) < 2 ^ 24 := by
    calc b * 2 ^ 16 + (c * 2 ^ 8 + d) < b * 2 ^ 16 + 2 ^ 16 := Nat.add_lt_add_left hcd _
      _ = (b + 1) * 2 ^ 16 := by ring
      _ ≤ 256 * 2 ^ 16 := Nat.mul_le_mul_right _ hb
      _ = 2 ^ 24 := by norm_num
  rw [@or_shiftLeft c d 8 (by omega), or_shiftLeft hcd, or_shiftLeft hbcd, ← Nat.add_assoc,
    ← Nat.add_assoc]

theorem toNat_charAt (buffer : Bytes) (i : ℕ) :
    (SHA1.charAt buffer i).toNat = (buffer.getD i 0).toNat := by
  have hlt := (buffer.getD i 0).toNat_lt
  rw [SHA1.charAt, BitVec.toNat_setWidth, UInt8.toNat_toBitVec, Nat.mod_eq_of_lt (by omega)]

theorem low_bufferToBlock (buffer : Bytes) (i : Fin 16) :
    low (SHA1.bufferToBlock buffer)[i] = words buffer i := by
  have hlt (j : ℕ) := (buffer.getD j 0).toNat_lt
  have h1 := hlt (4 * i)
  have h2 := hlt (4 * i + 1)
  have h3 := hlt (4 * i + 2)
  have h4 := hlt (4 * i + 3)
  rw [SHA1.bufferToBlock, getElem_ofFn, low_signExtend, words, word]
  refine BitVec.eq_of_toNat_eq ?_
  simp only [BitVec.toNat_or, BitVec.toNat_shiftLeft, toNat_charAt, BitVec.toNat_ofNat]
  rw [← or_shiftLeft_bytes h2 h3 h4, Nat.mod_eq_of_lt (a := _ <<< 8), Nat.mod_eq_of_lt (a := _ <<< 16),
    Nat.mod_eq_of_lt (a := _ <<< 24), or_shiftLeft_bytes h2 h3 h4, Nat.mod_eq_of_lt]
  all_goals
    try simp only [Nat.shiftLeft_eq]
    omega

end Words

/-! ## Rounds -/

section Rounds

variable {m : Block} {i t : ℕ} {block : Vector UInt32Word 16} {s : Work}

/-- The variables in the order in which round `i` takes them, as far as they matter. -/
def view (i : ℕ) (vars : Vector UInt32Word 5) : State where
  a := low vars[role i 0]
  b := low vars[role i 1]
  c := low vars[role i 2]
  d := low vars[role i 3]
  e := low vars[role i 4]

theorem ofNat_succ (i : ℕ) : Fin.ofNat 5 (i + 1) = Fin.ofNat 5 i + 1 := by
  refine Fin.ext ?_
  rw [Fin.val_add]
  simp [Fin.ofNat]

/-- The roles move on by one. -/
theorem role_succ (i : ℕ) : role (i + 1) 0 = role i 4 ∧ role (i + 1) 1 = role i 0 ∧
    role (i + 1) 2 = role i 1 ∧ role (i + 1) 3 = role i 2 ∧ role (i + 1) 4 = role i 3 := by
  have hroles : ∀ r : Fin 5, 0 - (r + 1) = 4 - r ∧ 1 - (r + 1) = 0 - r ∧ 2 - (r + 1) = 1 - r ∧
      3 - (r + 1) = 2 - r ∧ 4 - (r + 1) = 3 - r := by decide
  simp only [role, ofNat_succ]
  exact hroles _

theorem role_ne (i : ℕ) {j j' : Fin 5} (h : j ≠ j') : role i j ≠ role i j' := by
  have hroles : ∀ r j j' : Fin 5, j ≠ j' → j - r ≠ j' - r := by decide
  exact hroles _ j j' h

section Step

variable (s : Work) (i : ℕ) (v : Fin 5) {w x z : Fin 5} (g k : UInt32Word)

theorem Work.step_sum (h : z ≠ w) : (s.step i v w z g k).vars[z] =
    s.vars[z] + (g + s.block[Fin.ofNat 16 i] + k + rol s.vars[v] 5) := by
  rw [step, getElem_put_of_ne _ _ h, getElem_put_self]

theorem Work.step_rol (h : w ≠ z) : (s.step i v w z g k).vars[w] = rol s.vars[w] 30 := by
  rw [step, getElem_put_self, getElem_put_of_ne _ _ h]

theorem Work.step_of_ne (hw : x ≠ w) (hz : x ≠ z) : (s.step i v w z g k).vars[x] = s.vars[x] := by
  rw [step, getElem_put_of_ne _ _ hw, getElem_put_of_ne _ _ hz]

end Step

/-- What a step does to the variables. -/
theorem view_step (s : Work) (i : ℕ) (g k : UInt32Word) :
    view (i + 1) (s.step i (role i 0) (role i 1) (role i 4) g k).vars =
      { a := rotl (view i s.vars).a 5 + low g + (view i s.vars).e + low k +
          low s.block[Fin.ofNat 16 i]
        b := (view i s.vars).a
        c := rotl (view i s.vars).b 30
        d := (view i s.vars).c
        e := (view i s.vars).d } := by
  obtain ⟨h0, h1, h2, h3, h4⟩ := role_succ i
  have hne (j j' : Fin 5) (hj : j ≠ j') := role_ne i hj
  have ha := s.step_sum i (role i 0) g k (hne 4 1 (by decide))
  have hb := s.step_of_ne i (role i 0) g k (hne 0 1 (by decide)) (hne 0 4 (by decide))
  have hc := s.step_rol i (role i 0) g k (hne 1 4 (by decide))
  have hd := s.step_of_ne i (role i 0) g k (hne 2 1 (by decide)) (hne 2 4 (by decide))
  have he := s.step_of_ne i (role i 0) g k (hne 3 1 (by decide)) (hne 3 4 (by decide))
  rw [view]
  simp only [h0, h1, h2, h3, h4]
  rw [ha, hb, hc, hd, he, view, low_rol _ (by decide)]
  simp only [low_add, low_rol _ (show 5 ≤ 32 by decide)]
  congr 1
  ac_rfl

/-- The block of a round. -/
def nextBlock (i : ℕ) (block : Vector UInt32Word 16) : Vector UInt32Word 16 :=
  if i < 16 then block else blk i block

/-- Two ways to take the majority of three bits. -/
theorem majority (b c d : Word) :
    ((b ||| c) &&& d) ||| (b &&& c) = (b &&& c) ||| (b &&& d) ||| (c &&& d) := by
  refine BitVec.eq_of_getLsbD_eq fun i hi => ?_
  simp only [BitVec.getLsbD_or, BitVec.getLsbD_and]
  cases b.getLsbD i <;> cases c.getLsbD i <;> cases d.getLsbD i <;> rfl

theorem low_choose (w x y : UInt32Word) :
    low ((w &&& (x ^^^ y)) ^^^ y) = low y ^^^ (low w &&& (low x ^^^ low y)) := by
  rw [low_xor, low_and, low_xor, BitVec.xor_comm]

theorem low_parity (w x y : UInt32Word) : low (w ^^^ x ^^^ y) = low w ^^^ low x ^^^ low y := by
  rw [low_xor, low_xor]

theorem low_majority (w x y : UInt32Word) : low (((w ||| x) &&& y) ||| (w &&& x)) =
    (low w &&& low x) ||| (low w &&& low y) ||| (low x &&& low y) := by
  rw [low_or, low_and, low_or, low_and, majority]

/-- A round computes that of the hash function, with the word that its block has for it. -/
theorem transformRound_spec (s : Work) (i : ℕ) :
    (transformRound s i).block = nextBlock i s.block ∧
      view (i + 1) (transformRound s i).vars =
        { a := rotl (view i s.vars).a 5 +
            f i (view i s.vars).b (view i s.vars).c (view i s.vars).d + (view i s.vars).e + k i +
            low (nextBlock i s.block)[Fin.ofNat 16 i]
          b := (view i s.vars).a
          c := rotl (view i s.vars).b 30
          d := (view i s.vars).c
          e := (view i s.vars).d } := by
  rw [transformRound, f, k]
  by_cases h16 : i < 16
  · have hnext : nextBlock i s.block = s.block := if_pos h16
    have h20 : i < 20 := by omega
    have hview := view_step s i ((s.vars[role i 1] &&& (s.vars[role i 2] ^^^ s.vars[role i 3])) ^^^
      s.vars[role i 3]) 0x5a827999#64
    rw [low_choose] at hview
    rw [if_pos h16, if_pos h20, if_pos h20, hnext]
    exact ⟨rfl, hview⟩
  · have hnext : nextBlock i s.block = blk i s.block := if_neg h16
    rw [if_neg h16, hnext]
    by_cases h20 : i < 20
    · have hview := view_step { s with block := blk i s.block } i ((s.vars[role i 1] &&&
        (s.vars[role i 2] ^^^ s.vars[role i 3])) ^^^ s.vars[role i 3]) 0x5a827999#64
      rw [low_choose] at hview
      rw [if_pos h20, if_pos h20, if_pos h20]
      exact ⟨rfl, hview⟩
    · rw [if_neg h20, if_neg h20, if_neg h20]
      by_cases h40 : i < 40
      · have hview := view_step { s with block := blk i s.block } i
          (s.vars[role i 1] ^^^ s.vars[role i 2] ^^^ s.vars[role i 3]) 0x6ed9eba1#64
        rw [low_parity] at hview
        rw [if_pos h40, if_pos h40, if_pos h40]
        exact ⟨rfl, hview⟩
      · rw [if_neg h40, if_neg h40, if_neg h40]
        by_cases h60 : i < 60
        · have hview := view_step { s with block := blk i s.block } i
            (((s.vars[role i 1] ||| s.vars[role i 2]) &&& s.vars[role i 3]) |||
              (s.vars[role i 1] &&& s.vars[role i 2])) 0x8f1bbcdc#64
          rw [low_majority] at hview
          rw [if_pos h60, if_pos h60, if_pos h60]
          exact ⟨rfl, hview⟩
        · have hview := view_step { s with block := blk i s.block } i
            (s.vars[role i 1] ^^^ s.vars[role i 2] ^^^ s.vars[role i 3]) 0xca62c1d6#64
          rw [low_parity] at hview
          rw [if_neg h60, if_neg h60, if_neg h60]
          exact ⟨rfl, hview⟩

/-- Before round `i` the block has the last sixteen words of the schedule, from the first round that
computes one. -/
def Windowed (m : Block) (i : ℕ) (block : Vector UInt32Word 16) : Prop :=
  ∀ t, t < max i 16 → max i 16 ≤ t + 16 → low block[Fin.ofNat 16 t] = schedule m t

theorem ofNat_congr {a b : ℕ} (h : a % 16 = b % 16) : Fin.ofNat 16 a = Fin.ofNat 16 b := Fin.ext h

/-- A round keeps the window, and its block has the word of the round. -/
theorem Windowed.next (h : Windowed m i block) : Windowed m (i + 1) (nextBlock i block) ∧
    low (nextBlock i block)[Fin.ofNat 16 i] = schedule m i := by
  rw [nextBlock]
  by_cases h16 : i < 16
  · rw [if_pos h16]
    refine ⟨fun t hlt hle => h t ?_ ?_, h i ?_ ?_⟩ <;> omega
  · have hword (t d : ℕ) (hd : 0 < d) (hd' : d ≤ 16) (ht : t % 16 = (i - d) % 16) :
        low block[Fin.ofNat 16 t] = schedule m (i - d) := by
      have heq := ofNat_congr ht
      simp only [heq]
      exact h (i - d) (by omega) (by omega)
    have hnew : low (blk i block)[Fin.ofNat 16 i] = schedule m i := by
      rw [blk, getElem_put_self, low_rol _ (by decide), low_xor, low_xor, low_xor,
        schedule_of_le m (not_lt.mp h16), hword (i + 13) 3 (by decide) (by decide) (by omega),
        hword (i + 8) 8 (by decide) (by decide) (by omega),
        hword (i + 2) 14 (by decide) (by decide) (by omega),
        hword i 16 (by decide) (by decide) (by omega)]
    rw [if_neg h16]
    refine ⟨fun t hlt hle => ?_, hnew⟩
    by_cases ht : t = i
    · rw [ht, hnew]
    · have hne : Fin.ofNat 16 t ≠ Fin.ofNat 16 i := fun heq => by
        have hmod : t % 16 = i % 16 := congrArg Fin.val heq
        omega
      rw [blk, getElem_put_of_ne _ _ hne]
      exact h t (by omega) (by omega)

/-- The rounds compute those of the hash function. -/
theorem foldl_transformRound (vars : Vector UInt32Word 5) (block : Vector UInt32Word 16) (n : ℕ) :
    Windowed (fun j => low block[j]) n ((List.range n).foldl transformRound ⟨vars, block⟩).block ∧
      view n ((List.range n).foldl transformRound ⟨vars, block⟩).vars =
        (List.range n).foldl (Sha1.round fun j => low block[j]) (view 0 vars) := by
  induction n with
  | zero =>
    refine ⟨fun t hlt _ => ?_, rfl⟩
    have ht : t < 16 := hlt
    rw [schedule_of_lt _ ht, List.range_zero, List.foldl_nil]
    exact congrArg (fun j => low block[j]) (Fin.ext (Nat.mod_eq_of_lt ht))
  | succ n ih =>
    obtain ⟨hwindow, hview⟩ := ih
    obtain ⟨hblock, hround⟩ :=
      transformRound_spec ((List.range n).foldl transformRound ⟨vars, block⟩) n
    obtain ⟨hnext, hword⟩ := hwindow.next
    rw [List.range_succ, List.foldl_append, List.foldl_append, List.foldl_cons, List.foldl_cons,
      List.foldl_nil, List.foldl_nil, hblock, hround, hword, hview]
    exact ⟨hnext, rfl⟩

end Rounds

/-! ## Blocks -/

namespace SHA1

section Blocks

variable {s : SHA1} {bs : Bytes} {block : Vector UInt32Word 16}

/-- The digest, as far as it matters. -/
def state (s : SHA1) : State := view 0 s.digest

theorem state_reset : reset.state = init := by decide

/-- **The lower halves of the words are those of the hash function.** -/
theorem state_transform (s : SHA1) (block : Vector UInt32Word 16) :
    (s.transform block).1.state = compress s.state fun j => low block[j] := by
  obtain ⟨-, hview⟩ := foldl_transformRound s.digest block 80
  -- after eighty rounds the variables are back in their places
  have hroles (j : Fin 5) : role 80 j = role 0 j := rfl
  rw [compress, state, state, ← hview, transform]
  dsimp only
  rw [view, view, view, State.add]
  simp only [hroles, getElem_ofFn, low_add]

theorem state_transform_bufferToBlock (s : SHA1) (bs : Bytes) :
    (s.transform (bufferToBlock bs)).1.state = compress s.state (words bs) := by
  rw [state_transform]
  congr 1
  funext j
  exact low_bufferToBlock bs j

/-- An object that has hashed the whole blocks of a message, and keeps the rest. -/
structure Represents (s : SHA1) (message : Bytes) : Prop where
  state_eq : s.state = (absorb init message).1
  buffer_eq : s.buffer = (absorb init message).2
  counted : ∃ t, s.transforms = BitVec.ofNat 64 t ∧ 64 * t + s.buffer.length = message.length

/-- The loop takes all whole blocks. -/
theorem updateLoop_spec {rounds t : ℕ} {good : Bool} {is : Bytes}
    (ht : s.transforms = BitVec.ofNat 64 t)
    (hgood : good = true → s.buffer.length = 64 ∧ is.length < 64 * rounds)
    (hbad : good = false → s.buffer.length < 64 ∧ is = []) :
    (updateLoop rounds good is s).state = (absorb s.state (s.buffer ++ is)).1 ∧
      (updateLoop rounds good is s).buffer = (absorb s.state (s.buffer ++ is)).2 ∧
      ∃ t', (updateLoop rounds good is s).transforms = BitVec.ofNat 64 t' ∧
        64 * t' + (updateLoop rounds good is s).buffer.length =
          64 * t + (s.buffer ++ is).length := by
  induction rounds generalizing s t good is with
  | zero =>
    cases good with
    | false =>
      obtain ⟨hlen, rfl⟩ := hbad rfl
      rw [updateLoop, List.append_nil, absorb, Blocks.absorb_of_lt hlen]
      exact ⟨rfl, rfl, t, ht, rfl⟩
    | true => exact absurd (hgood rfl).2 (Nat.not_lt_zero _)
  | succ rounds ih =>
    cases good with
    | false =>
      obtain ⟨hlen, rfl⟩ := hbad rfl
      have hstop : updateLoop (rounds + 1) false [] s = s := rfl
      rw [hstop, List.append_nil, absorb, Blocks.absorb_of_lt hlen]
      exact ⟨rfl, rfl, t, ht, rfl⟩
    | true =>
      obtain ⟨hbuffer, hrounds⟩ := hgood rfl
      let next : SHA1 :=
        { (s.transform (bufferToBlock s.buffer)).1 with buffer := is.take 64 }
      have hnext : next.state = compress s.state (words s.buffer) :=
        state_transform_bufferToBlock s s.buffer
      have hcount : next.transforms = BitVec.ofNat 64 (t + 1) := by
        rw [BitVec.ofNat_add, ← ht]
        rfl
      have hread : next.buffer ++ is.drop 64 = is := List.take_append_drop 64 is
      have hloop := @ih next (t + 1) (64 ≤ is.length) (is.drop 64) hcount
        (fun hle => by
          have hle := of_decide_eq_true hle
          rw [List.length_drop]
          exact ⟨List.length_take_of_le hle, by omega⟩)
        (fun hlt => by
          have hlt := not_le.mp (of_decide_eq_false hlt)
          exact ⟨by rw [List.length_take]; omega, List.drop_of_length_le hlt.le⟩)
      have habsorb : absorb s.state (s.buffer ++ is) = absorb next.state is := by
        rw [hnext]
        exact Blocks.absorb_block (by decide) hbuffer
      obtain ⟨hstate, hrest, t', ht', hlen⟩ := hloop
      rw [hread] at hstate hrest hlen
      rw [habsorb]
      refine ⟨hstate, hrest, t', ht', hlen.trans ?_⟩
      rw [List.length_append, hbuffer]
      omega

/-- **The parts of a message are hashed as the message.** -/
theorem Represents.update {message : Bytes} (h : Represents s message) (is : Bytes) :
    Represents (s.update is) (message ++ is) := by
  obtain ⟨t, ht, hlen⟩ := h.counted
  have hbuffer : s.buffer.length < 64 := by
    rw [h.buffer_eq, absorb, Blocks.length_absorb (by decide)]
    exact Nat.mod_lt _ (by decide)
  let next : SHA1 := { s with buffer := s.buffer ++ is.take (64 - s.buffer.length) }
  have hread : next.buffer ++ is.drop (64 - s.buffer.length) = s.buffer ++ is := by
    rw [List.append_assoc, List.take_append_drop]
  have hloop := @updateLoop_spec next (is.length + 1) t (64 - s.buffer.length ≤ is.length)
    (is.drop (64 - s.buffer.length)) ht
    (fun hle => by
      have hle := of_decide_eq_true hle
      rw [List.length_append, List.length_take_of_le hle, List.length_drop]
      omega)
    (fun hlt => by
      have hlt := not_le.mp (of_decide_eq_false hlt)
      rw [List.length_append, List.length_take]
      exact ⟨by omega, List.drop_of_length_le hlt.le⟩)
  have habsorb : absorb init (message ++ is) = absorb s.state (s.buffer ++ is) := by
    rw [h.state_eq, h.buffer_eq]
    exact Blocks.absorb_append (by decide) init message is
  obtain ⟨hstate, hrest, t', ht', hlen'⟩ := hloop
  rw [hread] at hstate hrest hlen'
  refine ⟨hstate.trans (congrArg Prod.fst habsorb).symm,
    hrest.trans (congrArg Prod.snd habsorb).symm, t', ht', hlen'.trans ?_⟩
  rw [List.length_append, List.length_append]
  omega

theorem represents_reset : Represents reset [] := by
  refine ⟨?_, ?_, 0, rfl, rfl⟩
  · rw [state_reset, absorb, Blocks.absorb_of_lt (by decide)]
  · rw [absorb, Blocks.absorb_of_lt (by decide)]
    rfl

/-- The block that has the length at its end. -/
theorem low_appendBits {front : Bytes} (hfront : front.length = 56) {n : ℕ}
    (hblock : ∀ i : Fin 16, i.val < 14 → low block[i] = word (front ++ be64 n) i)
    (hn : n < 2 ^ 64) :
    (fun i : Fin 16 => low (appendBits block (BitVec.ofNat 64 n))[i]) = words (front ++ be64 n) := by
  obtain ⟨h14, h15⟩ := word_be64 hfront n
  funext i
  rw [appendBits, words]
  by_cases hi14 : i = 14
  · subst hi14
    rw [getElem_put_self]
    refine Eq.trans ?_ h14.symm
    refine BitVec.eq_of_toNat_eq ?_
    rw [low, BitVec.toNat_setWidth, BitVec.toNat_ushiftRight, BitVec.toNat_ofNat, BitVec.toNat_ofNat,
      Nat.mod_eq_of_lt hn, Nat.shiftRight_eq_div_pow]
  · rw [getElem_put_of_ne _ _ hi14]
    by_cases hi15 : i = 15
    · subst hi15
      rw [getElem_put_self, low, BitVec.setWidth_ofNat_of_le (by decide)]
      exact h15.symm
    · rw [getElem_put_of_ne _ _ hi15]
      refine hblock i ?_
      have hne14 : i.val ≠ 14 := fun h => hi14 (Fin.ext h)
      have hne15 : i.val ≠ 15 := fun h => hi15 (Fin.ext h)
      omega

/-- The number of bits, as `SHA1::final` counts them. -/
def totalBits (s : SHA1) : BitVec 64 := (s.transforms * 64 + BitVec.ofNat 64 s.buffer.length) * 8

/-- What is left of the message, filled up to a block. -/
def lastBlock (s : SHA1) : Bytes :=
  s.buffer ++ [128] ++ List.replicate (64 - (s.buffer ++ [128]).length) 0

theorem view_finalDigest_of_lt (h : s.buffer.length < 56) : view 0 s.finalDigest =
    compress s.state fun i => low (appendBits (bufferToBlock s.lastBlock) s.totalBits)[i] := by
  have hsize : ¬ 64 - 8 < (s.buffer ++ [128]).length := by
    rw [List.length_append, List.length_singleton]
    omega
  rw [finalDigest, if_neg hsize]
  exact state_transform _ _

/-- Where the length does not fit behind the message, it has a block of its own. -/
theorem view_finalDigest_of_le (h : 56 ≤ s.buffer.length) :
    ∃ block : Vector UInt32Word 16, (∀ i : Fin 16, i.val < 14 → block[i] = 0) ∧
      view 0 s.finalDigest = compress (compress s.state (words s.lastBlock))
        fun i => low (appendBits block s.totalBits)[i] := by
  have hsize : 64 - 8 < (s.buffer ++ [128]).length := by
    rw [List.length_append, List.length_singleton]
    omega
  obtain ⟨⟨next, changed⟩, htransform⟩ : ∃ p, s.transform (bufferToBlock s.lastBlock) = p := ⟨_, rfl⟩
  have hnext := state_transform_bufferToBlock s s.lastBlock
  rw [htransform] at hnext
  rw [lastBlock] at htransform
  refine ⟨.ofFn fun i => if i.val < 16 - 2 then 0 else changed[i],
    fun i hi => (getElem_ofFn _ i).trans (if_pos hi), ?_⟩
  rw [finalDigest, if_pos hsize, htransform]
  exact (state_transform _ _).trans (congrArg (fun st => compress st _) hnext)

/-- **The digest is that of the hash function.** -/
theorem Represents.view_finalDigest {message : Bytes} (h : Represents s message)
    (hlen : message.length < 2 ^ 61) : view 0 s.finalDigest = Sha1.digest message := by
  obtain ⟨t, ht, hcount⟩ := h.counted
  have hrest : message.length % 64 = s.buffer.length := by
    rw [h.buffer_eq, absorb, Blocks.length_absorb (by decide)]
  have hbits : s.totalBits = BitVec.ofNat 64 (8 * message.length) := by
    rw [totalBits, ht, ← hcount, mul_comm 64 t, mul_comm 8, BitVec.ofNat_mul, BitVec.ofNat_add,
      BitVec.ofNat_mul]
    rfl
  have hfits : 8 * message.length < 2 ^ 64 := by
    calc 8 * message.length < 8 * 2 ^ 61 := Nat.mul_lt_mul_of_pos_left hlen (by decide)
      _ = 2 ^ 64 := by norm_num
  have hmod := Nat.mod_lt message.length (show 64 > 0 by decide)
  rw [hrest] at hmod
  have hlast : s.lastBlock = s.buffer ++ 128 :: List.replicate (63 - s.buffer.length) 0 := by
    rw [lastBlock, List.length_append, List.length_singleton, List.append_assoc, Nat.sub_add_eq,
      Nat.sub_right_comm]
    rfl
  rw [digest_eq, ← h.state_eq, ← h.buffer_eq]
  by_cases hshort : s.buffer.length < 56
  · let front := s.buffer ++ 128 :: List.replicate (55 - s.buffer.length) 0
    have hfront : front.length = 56 := by
      rw [List.length_append, List.length_cons, List.length_replicate]
      omega
    have hfull : s.lastBlock = front ++ List.replicate 8 0 := by
      rw [hlast, List.append_assoc, List.cons_append, List.replicate_append_replicate]
      congr 3
      omega
    have hpadded : s.buffer ++ padding message.length = front ++ be64 (8 * message.length) := by
      rw [padding_eq_of_lt (hrest ▸ hshort), hrest, List.append_assoc]
      rfl
    have hblock (i : Fin 16) (hi : i.val < 14) :
        low (bufferToBlock s.lastBlock)[i] = word (front ++ be64 (8 * message.length)) i := by
      rw [low_bufferToBlock, hfull]
      exact word_congr (by omega)
    rw [view_finalDigest_of_lt hshort, hbits, low_appendBits hfront hblock hfits, hpadded,
      absorb_one (by rw [List.length_append, hfront, length_be64])]
  · obtain ⟨block, hzero, hview⟩ := view_finalDigest_of_le (not_lt.mp hshort)
    have hlength : s.lastBlock.length = 64 := by
      rw [hlast, List.length_append, List.length_cons, List.length_replicate]
      omega
    have hpadded : s.buffer ++ padding message.length =
        s.lastBlock ++ (List.replicate 56 0 ++ be64 (8 * message.length)) := by
      rw [padding_eq_of_le (hrest ▸ not_lt.mp hshort), hrest, hlast, List.append_assoc]
      rfl
    have hblock (i : Fin 16) (hi : i.val < 14) :
        low block[i] = word (List.replicate 56 0 ++ be64 (8 * message.length)) i := by
      rw [hzero i hi, word_replicate (by omega)]
      rfl
    rw [hview, hbits, low_appendBits List.length_replicate hblock hfits, hpadded, absorb_two,
      ← hlength, List.take_left, List.drop_left]
    rw [List.length_append, List.length_append, hlength, List.length_replicate, length_be64]

end Blocks

end SHA1

end Mavicona.Chella
