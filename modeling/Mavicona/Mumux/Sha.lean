import Mathlib.Tactic.NormNum
import Mavicona.Chella.Sha1

/-!
# The hash of the server

Reference: `mumux/sha.c` (`wby_sha1`).

The server has a hash of its own, for the answer to an upgrade. The length of a message is kept in two
words, and a part of the message adds what fits into 32 bits of its own length to them. So a message is
hashed as it should be if all of its parts are shorter than 2^29 bytes, however many there are
(`Represents.final`).
-/

namespace Mavicona.Mumux

open Bytes Sha1

/-- `wby_sha1_rol`. -/
def wbySha1Rol (value : Word) (bits : ℕ) : Word := value <<< bits ||| value >>> (32 - bits)

/-- A word of the message schedule, from four bytes. -/
def loadWord (block : Bytes) (i : ℕ) : Word :=
  (block.getD (i * 4 + 0) 0).toBitVec.setWidth 32 <<< 24 |||
    (block.getD (i * 4 + 1) 0).toBitVec.setWidth 32 <<< 16 |||
    (block.getD (i * 4 + 2) 0).toBitVec.setWidth 32 <<< 8 |||
    (block.getD (i * 4 + 3) 0).toBitVec.setWidth 32 <<< 0

/-- The next word of the message schedule `w`. -/
def nextWord (w : List Word) (i : ℕ) : List Word :=
  w ++ [wbySha1Rol (w.getD (i - 3) 0 ^^^ w.getD (i - 8) 0 ^^^ w.getD (i - 14) 0 ^^^
    w.getD (i - 16) 0) 1]

/-- The message schedule. -/
def messageSchedule (block : Bytes) : List Word :=
  (List.range' 16 64).foldl nextWord ((List.range 16).map (loadWord block))

/-- `SHA1_LOOP`. -/
def sha1Loop (start stop : ℕ) (func : Word → Word → Word → Word) (constant : Word) (w : List Word)
    (s : Sha1.State) : Sha1.State :=
  (List.range' start (stop - start)).foldl (fun s i =>
    ⟨wbySha1Rol s.a 5 + func s.b s.c s.d + s.e + constant + w.getD i 0, s.a, wbySha1Rol s.b 30, s.c,
      s.d⟩) s

/-- `wby_sha1_hash_block`. -/
def wbySha1HashBlock (state : Sha1.State) (block : Bytes) : Sha1.State :=
  let w := messageSchedule block
  let s := sha1Loop 0 20 (fun b c d => (b &&& c) ^^^ (~~~b &&& d)) 0x5a827999#32 w state
  let s := sha1Loop 20 40 (fun b c d => b ^^^ c ^^^ d) 0x6ed9eba1#32 w s
  let s := sha1Loop 40 60 (fun b c d => (b &&& c) ^^^ (b &&& d) ^^^ (c &&& d)) 0x8f1bbcdc#32 w s
  let s := sha1Loop 60 80 (fun b c d => b ^^^ c ^^^ d) 0xca62c1d6#32 w s
  ⟨state.a + s.a, state.b + s.b, state.c + s.c, state.d + s.d, state.e + s.e⟩

/-- `wby_sha1`: `buffer` holds the `buf_used` bytes of it that are in use. -/
structure WbySha1 where
  state : Sha1.State
  msgSize0 : Word
  msgSize1 : Word
  buffer : Bytes

namespace WbySha1

/-- `wby_sha1_init`. -/
def init : WbySha1 where
  state := ⟨0x67452301#32, 0xefcdab89#32, 0x98badcfe#32, 0x10325476#32, 0xc3d2e1f0#32⟩
  msgSize0 := 0
  msgSize1 := 0
  buffer := []

/-- The loop of `wby_sha1_update`. Every round copies a byte at least, so that the length of the data is
enough for the number of rounds. -/
def updateLoop : ℕ → Bytes → WbySha1 → WbySha1
  | _, [], s => s
  | 0, _ :: _, s => s
  | rounds + 1, data, s =>
    let bufSpace := 64 - s.buffer.length
    let buffer := s.buffer ++ data.take bufSpace
    updateLoop rounds (data.drop bufSpace)
      (if buffer.length = 64 then { s with state := wbySha1HashBlock s.state buffer, buffer := [] }
        else { s with buffer })

/-- `wby_sha1_update`. -/
def update (s : WbySha1) (data : Bytes) : WbySha1 :=
  let s := updateLoop data.length data s
  let sizeLo := s.msgSize1 + BitVec.ofNat 32 (data.length * 8)
  { s with
    msgSize0 := if sizeLo < s.msgSize1 then s.msgSize0 + 1 else s.msgSize0
    msgSize1 := sizeLo }

/-- The bytes of a word. -/
def wordBytes (word : Word) : Bytes :=
  (List.range 4).map fun i => UInt8.ofBitVec ((word >>> ((3 - i) * 8)).setWidth 8)

/-- The loop of `wby_sha1_final` that fills up a block with zeros. -/
def padLoop : ℕ → WbySha1 → WbySha1
  | 0, s => s
  | rounds + 1, s => if s.buffer.length = 56 then s else padLoop rounds (s.update [0])

/-- The object at the end of `wby_sha1_final`. There are 64 lengths of a buffer, so that as many rounds
are enough. -/
def finish (s : WbySha1) : WbySha1 :=
  let countData := wordBytes s.msgSize0 ++ wordBytes s.msgSize1
  let s := s.update [128]
  let s := padLoop 64 s
  s.update countData

/-- `wby_sha1_final`. -/
def final (s : WbySha1) : Bytes :=
  let state := s.finish.state
  wordBytes state.a ++ wordBytes state.b ++ wordBytes state.c ++ wordBytes state.d ++
    wordBytes state.e

end WbySha1

/-! ## Blocks -/

section Blocks

variable {block : Bytes} {w : List Word} {m : Block} {n t : ℕ} {s : Sha1.State}

theorem toNat_setWidth_byte (b : UInt8) : (b.toBitVec.setWidth 32).toNat = b.toNat := by
  have hlt := b.toNat_lt
  rw [BitVec.toNat_setWidth, UInt8.toNat_toBitVec, Nat.mod_eq_of_lt (by omega)]

/-- Four bytes that are shifted do not overlap. -/
theorem loadWord_eq (block : Bytes) (i : ℕ) : loadWord block i = word block i := by
  have hlt (j : ℕ) := (block.getD j 0).toNat_lt
  have h1 := hlt (4 * i)
  have h2 := hlt (4 * i + 1)
  have h3 := hlt (4 * i + 2)
  have h4 := hlt (4 * i + 3)
  rw [loadWord, word, Nat.mul_comm i 4, Nat.add_zero]
  refine BitVec.eq_of_toNat_eq ?_
  simp only [BitVec.toNat_or, BitVec.toNat_shiftLeft, toNat_setWidth_byte, BitVec.toNat_ofNat,
    Nat.shiftLeft_zero]
  have horder : ∀ a b c d : ℕ, a ||| b ||| c ||| d = d ||| c ||| b ||| a := by
    intro a b c d
    rw [Nat.or_comm _ d, Nat.or_comm _ c, Nat.or_comm a b, Nat.or_assoc, Nat.or_assoc]
  rw [horder, Nat.mod_eq_of_lt (a := _ <<< 24), Nat.mod_eq_of_lt (a := _ <<< 16),
    Nat.mod_eq_of_lt (a := _ <<< 8), Nat.mod_eq_of_lt (a := UInt8.toNat _),
    Chella.or_shiftLeft_bytes h2 h3 h4, Nat.mod_eq_of_lt]
  all_goals
    try simp only [Nat.shiftLeft_eq]
    omega

/-- The loop computes the schedule. -/
theorem foldl_nextWord (hlen : w.length = 16) (hw : ∀ t < 16, w.getD t 0 = schedule m t) (n : ℕ) :
    ((List.range' 16 n).foldl nextWord w).length = 16 + n ∧
      ∀ t < 16 + n, ((List.range' 16 n).foldl nextWord w).getD t 0 = schedule m t := by
  induction n with
  | zero => exact ⟨hlen, hw⟩
  | succ n ih =>
    obtain ⟨hlen', hwords⟩ := ih
    rw [List.range'_concat, List.foldl_append, List.foldl_cons, List.foldl_nil, Nat.one_mul]
    generalize (List.range' 16 n).foldl nextWord w = w' at hlen' hwords ⊢
    have hnew : wbySha1Rol (w'.getD (16 + n - 3) 0 ^^^ w'.getD (16 + n - 8) 0 ^^^
        w'.getD (16 + n - 14) 0 ^^^ w'.getD (16 + n - 16) 0) 1 = schedule m (16 + n) := by
      rw [hwords _ (by omega), hwords _ (by omega), hwords _ (by omega), hwords _ (by omega),
        schedule_of_le m (Nat.le_add_right 16 n)]
      rfl
    rw [nextWord, hnew]
    refine ⟨by rw [List.length_append, hlen']; rfl, fun t ht => ?_⟩
    rw [List.getD_eq_getElem?_getD]
    by_cases htn : t < 16 + n
    · rw [List.getElem?_append_left (by omega), ← List.getD_eq_getElem?_getD]
      exact hwords t htn
    · obtain rfl : t = 16 + n := by omega
      rw [List.getElem?_append_right (by omega), hlen', Nat.sub_self]
      rfl

theorem getD_messageSchedule (ht : t < 80) :
    (messageSchedule block).getD t 0 = schedule (words block) t := by
  have hfirst : ∀ t < 16,
      ((List.range 16).map (loadWord block)).getD t 0 = schedule (words block) t := by
    intro t ht
    rw [schedule_of_lt _ ht, List.getD_eq_getElem?_getD, List.getElem?_map, List.getElem?_range ht,
      Option.map_some, Option.getD_some, loadWord_eq]
    rfl
  have hlen : ((List.range 16).map (loadWord block)).length = 16 := by
    rw [List.length_map, List.length_range]
  exact (foldl_nextWord hlen hfirst 64).2 t ht

/-- A loop of twenty rounds. -/
theorem sha1Loop_eq (hw : ∀ t < 80, w.getD t 0 = schedule m t) {start : ℕ} (hstart : start + 20 ≤ 80)
    {func : Word → Word → Word → Word} {constant : Word}
    (hround : ∀ t, start ≤ t → t < start + 20 → (∀ b c d, func b c d = f t b c d) ∧ constant = k t)
    (s : Sha1.State) :
    sha1Loop start (start + 20) func constant w s = (List.range' start 20).foldl (Sha1.round m) s := by
  rw [sha1Loop, Nat.add_sub_cancel_left]
  refine List.foldl_ext _ _ _ fun s t ht => ?_
  obtain ⟨hle, hlt⟩ := List.mem_range'_1.mp ht
  obtain ⟨hfunc, hconstant⟩ := hround t hle hlt
  rw [hfunc, hconstant, hw t (by omega)]
  rfl

/-- Two ways to choose between two bits. -/
theorem choose_eq (b c d : Word) : (b &&& c) ^^^ (~~~b &&& d) = d ^^^ (b &&& (c ^^^ d)) := by
  refine BitVec.eq_of_getLsbD_eq fun i hi => ?_
  simp only [BitVec.getLsbD_xor, BitVec.getLsbD_and, BitVec.getLsbD_not, hi, decide_true, Bool.true_and]
  cases b.getLsbD i <;> cases c.getLsbD i <;> cases d.getLsbD i <;> rfl

/-- Two ways to take the majority of three bits. -/
theorem majority_eq (b c d : Word) :
    (b &&& c) ^^^ (b &&& d) ^^^ (c &&& d) = (b &&& c) ||| (b &&& d) ||| (c &&& d) := by
  refine BitVec.eq_of_getLsbD_eq fun i hi => ?_
  simp only [BitVec.getLsbD_xor, BitVec.getLsbD_and, BitVec.getLsbD_or]
  cases b.getLsbD i <;> cases c.getLsbD i <;> cases d.getLsbD i <;> rfl

/-- **A block is hashed as it should be.** -/
theorem wbySha1HashBlock_eq (s : Sha1.State) (block : Bytes) :
    wbySha1HashBlock s block = compress s (words block) := by
  have hw : ∀ t < 80, (messageSchedule block).getD t 0 = schedule (words block) t := fun t ht =>
    getD_messageSchedule ht
  have h0 := sha1Loop_eq (m := words block) hw (show 0 + 20 ≤ 80 by decide) fun t _ ht =>
    ⟨fun b c d => (choose_eq b c d).trans (by rw [f, if_pos (by omega)]), by
      rw [k, if_pos (by omega)]⟩
  have h1 := sha1Loop_eq (m := words block) hw (show 20 + 20 ≤ 80 by decide) fun t ht ht' =>
    ⟨fun b c d => show b ^^^ c ^^^ d = _ by rw [f, if_neg (by omega), if_pos (by omega)], by
      rw [k, if_neg (by omega), if_pos (by omega)]⟩
  have h2 := sha1Loop_eq (m := words block) hw (show 40 + 20 ≤ 80 by decide) fun t ht ht' =>
    ⟨fun b c d => (majority_eq b c d).trans (by
        rw [f, if_neg (by omega), if_neg (by omega), if_pos (by omega)]), by
      rw [k, if_neg (by omega), if_neg (by omega), if_pos (by omega)]⟩
  have h3 := sha1Loop_eq (m := words block) hw (show 60 + 20 ≤ 80 by decide) fun t ht ht' =>
    ⟨fun b c d => show b ^^^ c ^^^ d = _ by
        rw [f, if_neg (by omega), if_neg (by omega), if_neg (by omega)], by
      rw [k, if_neg (by omega), if_neg (by omega), if_neg (by omega)]⟩
  have hrange : List.range 80 =
      List.range' 0 20 ++ List.range' 20 20 ++ List.range' 40 20 ++ List.range' 60 20 := rfl
  rw [wbySha1HashBlock, h0, h1, h2, h3, compress, hrange, List.foldl_append, List.foldl_append,
    List.foldl_append]
  rfl

end Blocks

/-! ## Messages -/

namespace WbySha1

/-- The bytes of a state. -/
def stateBytes (s : Sha1.State) : Bytes :=
  wordBytes s.a ++ wordBytes s.b ++ wordBytes s.c ++ wordBytes s.d ++ wordBytes s.e

/-- An object that has hashed the whole blocks of a message, and keeps the rest. -/
structure Holds (s : WbySha1) (message : Bytes) : Prop where
  state : s.state = (absorb Sha1.init message).1
  buffer : s.buffer = (absorb Sha1.init message).2

/-- The length of a message is counted in bits. -/
def Counted (s : WbySha1) (message : Bytes) : Prop :=
  s.msgSize0.toNat * 2 ^ 32 + s.msgSize1.toNat = 8 * message.length % 2 ^ 64

section Messages

variable {s : WbySha1} {message data : Bytes} {rounds zeros : ℕ}

theorem Holds.length (h : s.Holds message) : s.buffer.length = message.length % 64 := by
  rw [h.buffer]
  exact Blocks.length_absorb (by decide) _ _

/-- A piece that fits into the buffer. -/
theorem Holds.fill (h : s.Holds message) {piece : Bytes} (hfit : s.buffer.length + piece.length ≤ 64) :
    Holds (if (s.buffer ++ piece).length = 64 then
        { s with state := wbySha1HashBlock s.state (s.buffer ++ piece), buffer := [] }
      else { s with buffer := s.buffer ++ piece }) (message ++ piece) := by
  have happend : absorb Sha1.init (message ++ piece) = absorb s.state (s.buffer ++ piece) := by
    rw [h.state, h.buffer]
    exact Blocks.absorb_append (by decide) _ _ _
  split_ifs with hfull
  · have hblock : absorb s.state (s.buffer ++ piece) =
        (compress s.state (words (s.buffer ++ piece)), []) := by
      have := @Blocks.absorb_block _ (fun s bs => compress s (words bs)) 64 s.state
        (s.buffer ++ piece) [] (by decide) hfull
      rw [List.append_nil] at this
      rw [absorb, this, Blocks.absorb_of_lt (by decide)]
    exact ⟨by rw [happend, hblock, wbySha1HashBlock_eq], by rw [happend, hblock]⟩
  · rw [List.length_append] at hfull
    have hrest : absorb s.state (s.buffer ++ piece) = (s.state, s.buffer ++ piece) :=
      Blocks.absorb_of_lt (by rw [List.length_append]; omega)
    exact ⟨by rw [happend, hrest], by rw [happend, hrest]⟩

theorem Holds.updateLoop (h : s.Holds message) (hrounds : data.length ≤ rounds) :
    (updateLoop rounds data s).Holds (message ++ data) := by
  induction rounds generalizing data s message with
  | zero =>
    obtain rfl := List.eq_nil_of_length_eq_zero (Nat.le_zero.mp hrounds)
    rwa [WbySha1.updateLoop, List.append_nil]
  | succ rounds ih =>
    cases data with
    | nil => rwa [WbySha1.updateLoop, List.append_nil]
    | cons b bs =>
      have hlt : s.buffer.length < 64 := by
        rw [h.length]
        exact Nat.mod_lt _ (by decide)
      rw [List.length_cons] at hrounds
      have hfit : s.buffer.length + ((b :: bs).take (64 - s.buffer.length)).length ≤ 64 := by
        rw [List.length_take]
        omega
      have hdrop : ((b :: bs).drop (64 - s.buffer.length)).length ≤ rounds := by
        rw [List.length_drop, List.length_cons]
        omega
      have hrest := ih (h.fill hfit) hdrop
      rw [List.append_assoc, List.take_append_drop] at hrest
      exact hrest

theorem Holds.update (h : s.Holds message) (data : Bytes) : (s.update data).Holds (message ++ data) :=
  ⟨(h.updateLoop (le_refl data.length)).state, (h.updateLoop (le_refl data.length)).buffer⟩

theorem msgSize_updateLoop (rounds : ℕ) (data : Bytes) (s : WbySha1) :
    (WbySha1.updateLoop rounds data s).msgSize0 = s.msgSize0 ∧
      (WbySha1.updateLoop rounds data s).msgSize1 = s.msgSize1 := by
  induction rounds generalizing data s with
  | zero => cases data <;> exact ⟨rfl, rfl⟩
  | succ rounds ih =>
    cases data with
    | nil => exact ⟨rfl, rfl⟩
    | cons b bs =>
      rw [WbySha1.updateLoop.eq_3 _ _ _ (List.cons_ne_nil b bs)]
      obtain ⟨h0, h1⟩ := ih ((b :: bs).drop (64 - s.buffer.length))
        (if (s.buffer ++ (b :: bs).take (64 - s.buffer.length)).length = 64 then
          { s with
            state := wbySha1HashBlock s.state (s.buffer ++ (b :: bs).take (64 - s.buffer.length))
            buffer := [] }
        else { s with buffer := s.buffer ++ (b :: bs).take (64 - s.buffer.length) })
      refine ⟨h0.trans ?_, h1.trans ?_⟩
      · split_ifs <;> rfl
      · split_ifs <;> rfl

/-- The carry into the upper word is that of the sum. -/
theorem carry {hi lo m n : ℕ} (hlo : lo < 2 ^ 32) (hhi : hi < 2 ^ 32) (hn : n < 2 ^ 29)
    (h : hi * 2 ^ 32 + lo = 8 * m % 2 ^ 64) :
    (if (lo + n * 8 % 2 ^ 32) % 2 ^ 32 < lo then (hi + 1) % 2 ^ 32 else hi) * 2 ^ 32 +
      (lo + n * 8 % 2 ^ 32) % 2 ^ 32 = 8 * (m + n) % 2 ^ 64 := by
  have hsum : 8 * (m + n) % 2 ^ 64 = (hi * 2 ^ 32 + (lo + n * 8)) % (2 ^ 32 * 2 ^ 32) := by
    rw [← Nat.add_assoc, h, ← Nat.pow_add, Nat.mod_add_mod, Nat.mul_add, Nat.mul_comm 8 n]
  have hbits : n * 8 < 2 ^ 32 := by omega
  have hdiv : (hi * 2 ^ 32 + (lo + n * 8)) / 2 ^ 32 = hi + (lo + n * 8) / 2 ^ 32 := by
    rw [Nat.add_comm, Nat.add_mul_div_right _ _ (by decide), Nat.add_comm]
  have hmod : (hi * 2 ^ 32 + (lo + n * 8)) % 2 ^ 32 = (lo + n * 8) % 2 ^ 32 := by
    rw [Nat.add_comm, Nat.add_mul_mod_self_right]
  have hhigh : (if (lo + n * 8) % 2 ^ 32 < lo then (hi + 1) % 2 ^ 32 else hi) =
      (hi + (lo + n * 8) / 2 ^ 32) % 2 ^ 32 := by
    by_cases hover : lo + n * 8 < 2 ^ 32
    · rw [Nat.mod_eq_of_lt hover, if_neg (by omega), Nat.div_eq_of_lt hover, Nat.add_zero,
        Nat.mod_eq_of_lt hhi]
    · have hone : (lo + n * 8) / 2 ^ 32 = 1 := by omega
      rw [hone, if_pos (by omega)]
  rw [hsum, Nat.mod_eq_of_lt hbits, Nat.mod_mul, hdiv, hmod, hhigh, Nat.mul_comm (2 ^ 32), Nat.add_comm]

theorem Counted.update (h : s.Counted message) (hshort : data.length < 2 ^ 29) :
    (s.update data).Counted (message ++ data) := by
  obtain ⟨h0, h1⟩ := msgSize_updateLoop data.length data s
  have hcarry := carry s.msgSize1.isLt s.msgSize0.isLt hshort h
  have hlo : (s.msgSize1 + BitVec.ofNat 32 (data.length * 8)).toNat =
      (s.msgSize1.toNat + data.length * 8 % 2 ^ 32) % 2 ^ 32 := by
    rw [BitVec.toNat_add, BitVec.toNat_ofNat]
  rw [Counted, WbySha1.update, List.length_append]
  dsimp only
  rw [h0, h1, ← hcarry, ← hlo]
  refine congrArg (· * 2 ^ 32 + _) ?_
  split_ifs with hlt hlt' hlt'
  · exact BitVec.toNat_add _ _
  · exact absurd hlt hlt'
  · exact absurd hlt' hlt
  · rfl

theorem ofNat_congr {m n : ℕ} (h : m % 256 = n % 256) : UInt8.ofNat m = UInt8.ofNat n :=
  UInt8.toNat_inj.mp (by rw [UInt8.toNat_ofNat', UInt8.toNat_ofNat']; exact h)

theorem wordBytes_eq (w : Word) : wordBytes w = [UInt8.ofNat (w.toNat / 2 ^ 24),
    UInt8.ofNat (w.toNat / 2 ^ 16), UInt8.ofNat (w.toNat / 2 ^ 8), UInt8.ofNat w.toNat] := by
  have hbyte : ∀ k, UInt8.ofBitVec ((w >>> k).setWidth 8) = UInt8.ofNat (w.toNat / 2 ^ k) := by
    intro k
    refine UInt8.toNat_inj.mp ?_
    rw [UInt8.toNat_ofBitVec, BitVec.toNat_setWidth, BitVec.toNat_ushiftRight, UInt8.toNat_ofNat',
      Nat.shiftRight_eq_div_pow]
  have hlast := hbyte 0
  rw [Nat.pow_zero, Nat.div_one] at hlast
  rw [← hbyte, ← hbyte, ← hbyte, ← hlast]
  rfl

theorem Counted.countData (h : s.Counted message) :
    wordBytes s.msgSize0 ++ wordBytes s.msgSize1 = be64 (8 * message.length) := by
  have hlo := s.msgSize1.isLt
  have hhi := s.msgSize0.isLt
  rw [Counted] at h
  rw [wordBytes_eq, wordBytes_eq, be64]
  generalize s.msgSize0.toNat = hi, s.msgSize1.toNat = lo, 8 * message.length = bits at *
  norm_num at *
  refine ⟨?_, ?_, ?_, ?_, ?_, ?_, ?_, ?_⟩
  all_goals
    refine ofNat_congr ?_
    omega

/-- Zeros are added until the length fits in. -/
theorem Holds.padLoop (h : s.Holds message) (hzeros : zeros ≤ rounds) (hsmall : zeros < 64)
    (hlen : (message.length + zeros) % 64 = 56) :
    (padLoop rounds s).Holds (message ++ List.replicate zeros 0) := by
  induction zeros generalizing s message rounds with
  | zero =>
    rw [List.replicate_zero, List.append_nil]
    cases rounds with
    | zero => exact h
    | succ rounds =>
      rw [WbySha1.padLoop, if_pos (h.length.trans hlen)]
      exact h
  | succ zeros ih =>
    obtain ⟨rounds, rfl⟩ := Nat.exists_eq_add_of_lt (Nat.lt_of_lt_of_le (Nat.succ_pos zeros) hzeros)
    rw [Nat.zero_add, WbySha1.padLoop, if_neg (by rw [h.length]; omega)]
    have hrounds : zeros ≤ rounds := by omega
    have hnext := ih (h.update [0]) hrounds (by omega) (by
      rw [List.length_append, List.length_singleton]
      omega)
    rwa [List.append_assoc] at hnext

/-- **The object at the end has hashed the whole message, and nothing is left of it.** -/
theorem Holds.finish (h : s.Holds message) (hcount : s.Counted message) :
    s.finish.Holds (message ++ padding message.length) := by
  rw [WbySha1.finish, hcount.countData]
  have hlen : ((message ++ [128]).length + (119 - message.length % 64) % 64) % 64 = 56 := by
    rw [List.length_append, List.length_singleton]
    omega
  have hzeros : (119 - message.length % 64) % 64 < 64 := Nat.mod_lt _ (by decide)
  have hpadded := (h.update [128]).padLoop hzeros.le hzeros hlen
  have hdone := hpadded.update (be64 (8 * message.length))
  rw [List.append_assoc, List.append_assoc] at hdone
  exact hdone

theorem Holds.final (h : s.Holds message) (hcount : s.Counted message) :
    s.final = stateBytes (digest message) := by
  rw [WbySha1.final, (h.finish hcount).state]
  rfl

theorem holds_init : init.Holds [] := by
  have hnil : absorb Sha1.init [] = (Sha1.init, []) := Blocks.absorb_of_lt (by decide)
  exact ⟨by rw [hnil]; rfl, by rw [hnil]; rfl⟩

theorem counted_init : init.Counted [] := rfl

theorem spec_foldl (parts : List Bytes) (h : s.Holds message) (hcount : s.Counted message)
    (hshort : ∀ part ∈ parts, part.length < 2 ^ 29) :
    (parts.foldl WbySha1.update s).Holds (message ++ parts.flatten) ∧
      (parts.foldl WbySha1.update s).Counted (message ++ parts.flatten) := by
  induction parts generalizing s message with
  | nil =>
    rw [List.flatten_nil, List.append_nil]
    exact ⟨h, hcount⟩
  | cons part parts ih =>
    have hrest := ih (h.update part) (hcount.update (hshort part List.mem_cons_self))
      fun p hp => hshort p (List.mem_cons_of_mem _ hp)
    rwa [List.append_assoc] at hrest

/-- **A message is hashed as it should be, however it is cut into parts of less than 2^29 bytes.** Its
last block is complete, as the code asserts. -/
theorem final_foldl (parts : List Bytes) (hshort : ∀ part ∈ parts, part.length < 2 ^ 29) :
    (parts.foldl WbySha1.update init).final = stateBytes (digest parts.flatten) ∧
      (parts.foldl WbySha1.update init).finish.buffer = [] := by
  obtain ⟨hholds, hcount⟩ := spec_foldl parts holds_init counted_init hshort
  have hfinish := hholds.finish hcount
  rw [List.nil_append] at hfinish
  refine ⟨hholds.final hcount, List.eq_nil_of_length_eq_zero ?_⟩
  have hsize := length_padding parts.flatten.length
  rw [hfinish.length, List.length_append]
  split_ifs at hsize <;> omega

/-- `abc`, byte by byte. -/
theorem final_foldl_abc :
    ([ascii "a", ascii "b", ascii "c"].foldl WbySha1.update init).final =
      stateBytes (digest (ascii "abc")) :=
  (final_foldl [ascii "a", ascii "b", ascii "c"] (by decide)).1

end Messages

end WbySha1

end Mavicona.Mumux
