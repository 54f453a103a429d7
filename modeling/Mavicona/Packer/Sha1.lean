import Mathlib.Tactic.NormNum
import Mavicona.Chella.Sha1

/-!
# The hash of the framework

Reference: `packer/ace/sha1.py` (`_process_chunk`, `Sha1Hash`).

The framework that is injected into a job has a hash of its own, on integers of any size that are
masked to 32 bits, with a schedule of eighty words. For every way to cut a message into parts it
comes to the same text as that of the worker.
-/

namespace Mavicona.Packer

open Bytes Sha1

/-- `_left_rotate`. -/
def leftRotate (n b : ℕ) : ℕ := (n <<< b ||| n >>> (32 - b)) &&& 0xffffffff

/-- `struct.unpack(b'>I', bs)[0]`. -/
def unpackI (bs : Bytes) : ℕ := bs.foldl (fun n b => n * 256 + b.toNat) 0

/-- The five digest variables, or the five variables of the loop. -/
structure Hash where
  h0 : ℕ
  h1 : ℕ
  h2 : ℕ
  h3 : ℕ
  h4 : ℕ
deriving DecidableEq

/-- The first sixteen words of `w`. -/
def initialWords (chunk : Bytes) : List ℕ :=
  (List.range 16).foldl (fun w i => w.set i (unpackI ((chunk.drop (i * 4)).take 4)))
    (List.replicate 80 0)

/-- A word of `w` from earlier ones. -/
def extendWord (w : List ℕ) (i : ℕ) : List ℕ :=
  w.set i (leftRotate (w.getD (i - 3) 0 ^^^ w.getD (i - 8) 0 ^^^ w.getD (i - 14) 0 ^^^
    w.getD (i - 16) 0) 1)

/-- The schedule `w`. -/
def extendWords (chunk : Bytes) : List ℕ :=
  (List.range' 16 64).foldl extendWord (initialWords chunk)

/-- The function and the constant of a round, `f` and `k`. -/
def roundParams (b c d i : ℕ) : ℕ × ℕ :=
  if i ≤ 19 then (d ^^^ (b &&& (c ^^^ d)), 0x5A827999)
  else if 20 ≤ i ∧ i ≤ 39 then (b ^^^ c ^^^ d, 0x6ED9EBA1)
  else if 40 ≤ i ∧ i ≤ 59 then ((b &&& c) ||| (b &&& d) ||| (c &&& d), 0x8F1BBCDC)
  else (b ^^^ c ^^^ d, 0xCA62C1D6)

/-- A round of the loop over the schedule. -/
def chunkRound (w : List ℕ) (s : Hash) (i : ℕ) : Hash :=
  let (f, k) := roundParams s.h1 s.h2 s.h3 i
  ⟨(leftRotate s.h0 5 + f + s.h4 + k + w.getD i 0) &&& 0xffffffff, s.h0, leftRotate s.h1 30, s.h2,
    s.h3⟩

/-- `_process_chunk`; `none` if its assertion fails. -/
def processChunk (chunk : Bytes) (h : Hash) : Option Hash :=
  if chunk.length = 64 then
    let s := (List.range 80).foldl (chunkRound (extendWords chunk)) h
    some ⟨(h.h0 + s.h0) &&& 0xffffffff, (h.h1 + s.h1) &&& 0xffffffff, (h.h2 + s.h2) &&& 0xffffffff,
      (h.h3 + s.h3) &&& 0xffffffff, (h.h4 + s.h4) &&& 0xffffffff⟩
  else none

/-- `Sha1Hash`. -/
structure Sha1Hash where
  h : Hash
  unprocessed : Bytes
  messageByteLength : ℕ

namespace Sha1Hash

/-- The constructor. -/
def construct : Sha1Hash where
  h := ⟨0x67452301, 0xEFCDAB89, 0x98BADCFE, 0x10325476, 0xC3D2E1F0⟩
  unprocessed := []
  messageByteLength := 0

/-- The loop of `update`. Every round takes a chunk from `arg` or is the last one, so that its length
is enough for the number of rounds. -/
def updateLoop : ℕ → Bytes → Bytes → Sha1Hash → Option Sha1Hash
  | 0, chunk, _, s => some { s with unprocessed := chunk }
  | rounds + 1, chunk, arg, s =>
    if chunk.length = 64 then
      (processChunk chunk s.h).bind fun h =>
        updateLoop rounds (arg.take 64) (arg.drop 64)
          { s with h, messageByteLength := s.messageByteLength + 64 }
    else some { s with unprocessed := chunk }

/-- `update`. -/
def update (s : Sha1Hash) (arg : Bytes) : Option Sha1Hash :=
  let n := 64 - s.unprocessed.length
  updateLoop (arg.length + 1) (s.unprocessed ++ arg.take n) (arg.drop n) s

/-- `struct.pack(b'>Q', n)`, which fails for numbers of more than 64 bits. -/
def packQ (n : ℕ) : Option Bytes := if n < 2 ^ 64 then some (be64 n) else none

/-- `_produce_digest`. -/
def produceDigest (s : Sha1Hash) : Option Hash :=
  let messageByteLength := s.messageByteLength + s.unprocessed.length
  let zeros := ((56 - ((messageByteLength : ℤ) + 1) % 64) % 64).toNat
  (packQ (messageByteLength * 8)).bind fun length =>
    let message := s.unprocessed ++ [128] ++ List.replicate zeros 0 ++ length
    (processChunk (message.take 64) s.h).bind fun h =>
      if message.length = 64 then some h else processChunk (message.drop 64) h

/-- `hexdigest`. -/
def hexdigest (s : Sha1Hash) : Option Bytes :=
  s.produceDigest.map fun h =>
    Quid.hexPrec 8 h.h0 ++ Quid.hexPrec 8 h.h1 ++ Quid.hexPrec 8 h.h2 ++ Quid.hexPrec 8 h.h3 ++
      Quid.hexPrec 8 h.h4

end Sha1Hash

/-! ## Words -/

/-- A state of the hash function as integers. -/
def ofState (s : State) : Hash := ⟨s.a.toNat, s.b.toNat, s.c.toNat, s.d.toNat, s.e.toNat⟩

section Words

variable {bs chunk : Bytes} {w : List ℕ} {n t : ℕ}

theorem and_mask (n : ℕ) : n &&& 0xffffffff = n % 2 ^ 32 := Nat.and_two_pow_sub_one_eq_mod n 32

theorem leftRotate_toNat (x : Word) (n : ℕ) : leftRotate x.toNat n = (rotl x n).toNat := by
  have hright : x.toNat >>> (32 - n) < 2 ^ 32 := (Nat.shiftRight_le _ _).trans_lt x.isLt
  rw [leftRotate, and_mask, Nat.or_mod_two_pow, rotl, BitVec.toNat_or, BitVec.toNat_shiftLeft,
    BitVec.toNat_ushiftRight, Nat.mod_eq_of_lt hright]

theorem take_four (h : n + 4 ≤ bs.length) : (bs.drop n).take 4 =
    [bs.getD n 0, bs.getD (n + 1) 0, bs.getD (n + 2) 0, bs.getD (n + 3) 0] := by
  induction n generalizing bs with
  | zero =>
    rcases bs with _ | ⟨a, _ | ⟨b, _ | ⟨c, _ | ⟨d, bs⟩⟩⟩⟩
    iterate 4 exact absurd h (by simp)
    rfl
  | succ n ih =>
    rcases bs with _ | ⟨b, bs⟩
    · exact absurd h (by simp)
    · rw [List.length_cons] at h
      exact ih (by omega)

theorem unpackI_eq (h : 4 * n + 4 ≤ bs.length) :
    unpackI ((bs.drop (n * 4)).take 4) = (word bs n).toNat := by
  have hlt (j : ℕ) := (bs.getD j 0).toNat_lt
  have h0 := hlt (4 * n)
  have h1 := hlt (4 * n + 1)
  have h2 := hlt (4 * n + 2)
  have h3 := hlt (4 * n + 3)
  rw [mul_comm n 4, take_four h, word, BitVec.toNat_ofNat, unpackI]
  simp only [List.foldl_cons, List.foldl_nil]
  generalize (bs.getD (4 * n) 0).toNat = a, (bs.getD (4 * n + 1) 0).toNat = b,
    (bs.getD (4 * n + 2) 0).toNat = c, (bs.getD (4 * n + 3) 0).toNat = d at *
  norm_num at *
  omega

theorem getD_set {a : ℕ} (h : n < w.length) :
    (w.set n a).getD t 0 = if t = n then a else w.getD t 0 := by
  rw [List.getD_eq_getElem?_getD, List.getElem?_set, List.getD_eq_getElem?_getD]
  split_ifs with h1 h2 h2
  · rfl
  · exact absurd h1.symm h2
  · exact absurd h2.symm h1
  · rfl

/-- The first loop fills `w` from its start. -/
theorem foldl_set (g : ℕ → ℕ) (hn : n ≤ w.length) :
    ((List.range n).foldl (fun w i => w.set i (g i)) w).length = w.length ∧
      ∀ t < n, ((List.range n).foldl (fun w i => w.set i (g i)) w).getD t 0 = g t := by
  induction n with
  | zero => exact ⟨rfl, fun t ht => absurd ht (Nat.not_lt_zero t)⟩
  | succ n ih =>
    obtain ⟨hlen, hwords⟩ := ih (by omega)
    rw [List.range_succ, List.foldl_append, List.foldl_cons, List.foldl_nil, List.length_set]
    refine ⟨hlen, fun t ht => ?_⟩
    rw [getD_set (by omega)]
    split_ifs with htn
    · rw [htn]
    · exact hwords t (by omega)

/-- The second loop computes the schedule. -/
theorem foldl_extendWord {m : Block} (hlen : w.length = 80)
    (hw : ∀ t < 16, w.getD t 0 = (schedule m t).toNat) (hn : n ≤ 64) :
    ((List.range' 16 n).foldl extendWord w).length = 80 ∧
      ∀ t < 16 + n, ((List.range' 16 n).foldl extendWord w).getD t 0 = (schedule m t).toNat := by
  induction n with
  | zero => exact ⟨hlen, hw⟩
  | succ n ih =>
    obtain ⟨hlen', hwords⟩ := ih (by omega)
    rw [List.range'_concat, List.foldl_append, List.foldl_cons, List.foldl_nil, Nat.one_mul]
    generalize (List.range' 16 n).foldl extendWord w = w' at hlen' hwords ⊢
    have hnew : leftRotate (w'.getD (16 + n - 3) 0 ^^^ w'.getD (16 + n - 8) 0 ^^^
        w'.getD (16 + n - 14) 0 ^^^ w'.getD (16 + n - 16) 0) 1 = (schedule m (16 + n)).toNat := by
      rw [hwords _ (by omega), hwords _ (by omega), hwords _ (by omega), hwords _ (by omega),
        ← BitVec.toNat_xor, ← BitVec.toNat_xor, ← BitVec.toNat_xor, leftRotate_toNat,
        schedule_of_le m (Nat.le_add_right 16 n)]
    rw [extendWord, hnew]
    refine ⟨List.length_set.trans hlen', fun t ht => ?_⟩
    rw [getD_set (by omega)]
    split_ifs with htn
    · rw [htn]
    · exact hwords t (by omega)

/-- All words are those of the schedule. -/
theorem getD_extendWords (hchunk : chunk.length = 64) (ht : t < 80) :
    (extendWords chunk).getD t 0 = (schedule (words chunk) t).toNat := by
  have hsize : 16 ≤ (List.replicate 80 0 : List ℕ).length := by
    rw [List.length_replicate]
    decide
  obtain ⟨hlen, hfirst⟩ :=
    foldl_set (fun i => unpackI ((chunk.drop (i * 4)).take 4)) hsize
  have hwords (t : ℕ) (ht : t < 16) :
      (initialWords chunk).getD t 0 = (schedule (words chunk) t).toNat := by
    rw [schedule_of_lt _ ht, initialWords, hfirst t ht]
    exact unpackI_eq (by omega)
  rw [List.length_replicate] at hlen
  exact (foldl_extendWord hlen hwords le_rfl).2 t ht

end Words

/-! ## Chunks -/

section Chunks

variable {chunk : Bytes} {w : List ℕ} {m : Block} {i : ℕ} {s : State}

theorem roundParams_toNat (b c d : Word) (i : ℕ) :
    roundParams b.toNat c.toNat d.toNat i = ((f i b c d).toNat, (k i).toNat) := by
  rw [roundParams, f, k]
  by_cases h19 : i ≤ 19
  · have h20 : i < 20 := by omega
    rw [if_pos h19, if_pos h20, if_pos h20]
    simp
  · have h20 : ¬ i < 20 := by omega
    rw [if_neg h19, if_neg h20, if_neg h20]
    by_cases h39 : i ≤ 39
    · have h40 : i < 40 := by omega
      rw [if_pos ⟨by omega, h39⟩, if_pos h40, if_pos h40]
      simp
    · have h40 : ¬ i < 40 := by omega
      rw [if_neg fun h => h39 h.2, if_neg h40, if_neg h40]
      by_cases h59 : i ≤ 59
      · have h60 : i < 60 := by omega
        rw [if_pos ⟨by omega, h59⟩, if_pos h60, if_pos h60]
        simp
      · have h60 : ¬ i < 60 := by omega
        rw [if_neg fun h => h59 h.2, if_neg h60, if_neg h60]
        simp

theorem chunkRound_ofState (hw : w.getD i 0 = (schedule m i).toNat) :
    chunkRound w (ofState s) i = ofState (Sha1.round m s i) := by
  rw [chunkRound, ofState, roundParams_toNat, hw]
  dsimp only
  rw [leftRotate_toNat, leftRotate_toNat, and_mask, ofState, Sha1.round]
  simp only [BitVec.toNat_add, Nat.mod_add_mod]

theorem foldl_chunkRound (h : chunk.length = 64) (s : State) {n : ℕ} (hn : n ≤ 80) :
    (List.range n).foldl (chunkRound (extendWords chunk)) (ofState s) =
      ofState ((List.range n).foldl (Sha1.round (words chunk)) s) := by
  induction n with
  | zero => rfl
  | succ n ih =>
    rw [List.range_succ, List.foldl_append, List.foldl_append, ih (by omega), List.foldl_cons,
      List.foldl_cons, List.foldl_nil, List.foldl_nil,
      chunkRound_ofState (getD_extendWords h (by omega))]

theorem add_ofState (x y : Word) : (x.toNat + y.toNat) &&& 0xffffffff = (x + y).toNat := by
  rw [and_mask, BitVec.toNat_add]

/-- **A chunk is processed as a block of the hash function.** -/
theorem processChunk_ofState (h : chunk.length = 64) (s : State) :
    processChunk chunk (ofState s) = some (ofState (compress s (words chunk))) := by
  have hloop := foldl_chunkRound h s le_rfl
  rw [processChunk, if_pos h, hloop, compress]
  generalize (List.range 80).foldl (Sha1.round (words chunk)) s = work
  rw [State.add, ofState, ofState, ofState]
  dsimp only
  rw [add_ofState, add_ofState, add_ofState, add_ofState, add_ofState]

end Chunks

/-! ## Messages -/

namespace Sha1Hash

section Messages

variable {s : Sha1Hash} {message : Bytes}

/-- An object that has hashed the whole blocks of a message, and keeps the rest. -/
structure Represents (s : Sha1Hash) (message : Bytes) : Prop where
  h_eq : s.h = ofState (absorb init message).1
  unprocessed_eq : s.unprocessed = (absorb init message).2
  counted : s.messageByteLength + s.unprocessed.length = message.length

/-- The loop takes all whole blocks. -/
theorem updateLoop_spec {rounds : ℕ} {chunk arg : Bytes} {st : State} (hst : s.h = ofState st)
    (hrounds : chunk.length = 64 → arg.length < 64 * rounds)
    (hlast : chunk.length ≠ 64 → chunk.length < 64 ∧ arg = []) :
    ∃ r, updateLoop rounds chunk arg s = some r ∧ r.h = ofState (absorb st (chunk ++ arg)).1 ∧
      r.unprocessed = (absorb st (chunk ++ arg)).2 ∧
      r.messageByteLength + r.unprocessed.length = s.messageByteLength + (chunk ++ arg).length := by
  induction rounds generalizing s chunk arg st with
  | zero =>
    by_cases hchunk : chunk.length = 64
    · exact absurd (hrounds hchunk) (Nat.not_lt_zero _)
    · obtain ⟨hlt, rfl⟩ := hlast hchunk
      rw [updateLoop, List.append_nil, absorb, Blocks.absorb_of_lt hlt]
      exact ⟨_, rfl, hst, rfl, rfl⟩
  | succ rounds ih =>
    rw [updateLoop]
    by_cases hchunk : chunk.length = 64
    · have hlen := hrounds hchunk
      let next : Sha1Hash := { s with
        h := ofState (compress st (words chunk))
        messageByteLength := s.messageByteLength + 64 }
      have hloop := @ih next (arg.take 64) (arg.drop 64) (compress st (words chunk)) rfl
        (fun hfull => by
          rw [List.length_take] at hfull
          rw [List.length_drop]
          omega)
        (fun hshort => by
          rw [List.length_take] at hshort ⊢
          exact ⟨by omega, List.drop_of_length_le (by omega)⟩)
      rw [List.take_append_drop] at hloop
      obtain ⟨r, hr, hh, hrest, hcount⟩ := hloop
      have habsorb : absorb st (chunk ++ arg) = absorb (compress st (words chunk)) arg :=
        Blocks.absorb_block (by decide) hchunk
      rw [if_pos hchunk, hst, processChunk_ofState hchunk, Option.bind_some, habsorb]
      refine ⟨r, hr, hh, hrest, hcount.trans ?_⟩
      rw [List.length_append, hchunk, Nat.add_assoc]
    · obtain ⟨hlt, rfl⟩ := hlast hchunk
      rw [if_neg hchunk, List.append_nil, absorb, Blocks.absorb_of_lt hlt]
      exact ⟨_, rfl, hst, rfl, rfl⟩

/-- **The parts of a message are hashed as the message.** -/
theorem Represents.update (h : Represents s message) (arg : Bytes) :
    ∃ r, s.update arg = some r ∧ Represents r (message ++ arg) := by
  have hunprocessed : s.unprocessed.length < 64 := by
    rw [h.unprocessed_eq, absorb, Blocks.length_absorb (by decide)]
    exact Nat.mod_lt _ (by decide)
  have hloop := @updateLoop_spec s (arg.length + 1)
    (s.unprocessed ++ arg.take (64 - s.unprocessed.length)) (arg.drop (64 - s.unprocessed.length))
    (absorb init message).1 h.h_eq
    (fun hfull => by
      rw [List.length_drop]
      omega)
    (fun hshort => by
      rw [List.length_append, List.length_take] at hshort ⊢
      exact ⟨by omega, List.drop_of_length_le (by omega)⟩)
  rw [List.append_assoc, List.take_append_drop] at hloop
  obtain ⟨r, hr, hh, hrest, hcount⟩ := hloop
  have habsorb : absorb init (message ++ arg) =
      absorb (absorb init message).1 (s.unprocessed ++ arg) := by
    rw [h.unprocessed_eq]
    exact Blocks.absorb_append (by decide) init message arg
  rw [← habsorb] at hh hrest
  refine ⟨r, hr, hh, hrest, hcount.trans ?_⟩
  rw [List.length_append, List.length_append, ← h.counted, Nat.add_assoc]

theorem represents_construct : Represents construct [] := by
  have hnil : absorb init [] = (init, []) := Blocks.absorb_of_lt (by decide)
  exact ⟨by rw [hnil]; decide, by rw [hnil]; rfl, rfl⟩

/-- **The digest is that of the hash function.** -/
theorem Represents.produceDigest (h : Represents s message) (hlen : message.length < 2 ^ 61) :
    s.produceDigest = some (ofState (Sha1.digest message)) := by
  have hrest : message.length % 64 = s.unprocessed.length := by
    rw [h.unprocessed_eq, absorb, Blocks.length_absorb (by decide)]
  have hfits : message.length * 8 < 2 ^ 64 := by
    calc message.length * 8 < 2 ^ 61 * 8 := Nat.mul_lt_mul_of_pos_right hlen (by decide)
      _ = 2 ^ 64 := by norm_num
  have hpack : packQ (message.length * 8) = some (be64 (8 * message.length)) := by
    rw [packQ, if_pos hfits, mul_comm]
  have hzeros : ((56 - ((message.length : ℤ) + 1) % 64) % 64).toNat =
      (119 - message.length % 64) % 64 := by omega
  have hmessage : s.unprocessed ++ [128] ++ List.replicate ((119 - message.length % 64) % 64) 0 ++
      be64 (8 * message.length) = s.unprocessed ++ padding message.length := by
    rw [padding, List.append_assoc, List.append_assoc]
    rfl
  have hsize := length_padding message.length
  rw [hrest, ← List.length_append] at hsize
  rw [Sha1Hash.produceDigest, h.counted]
  dsimp only
  rw [hpack, Option.bind_some, hzeros, hmessage, digest_eq, ← h.unprocessed_eq, h.h_eq]
  generalize s.unprocessed ++ padding message.length = padded at hsize ⊢
  split_ifs at hsize with hshort
  · rw [List.take_of_length_le hsize.le, processChunk_ofState hsize, Option.bind_some, if_pos hsize,
      absorb_one hsize]
  · have htake : (padded.take 64).length = 64 := by rw [List.length_take]; omega
    have hdrop : (padded.drop 64).length = 64 := by rw [List.length_drop]; omega
    rw [processChunk_ofState htake, Option.bind_some, if_neg (by omega), processChunk_ofState hdrop,
      absorb_two hsize]

end Messages

end Sha1Hash

/-! ## Both hashes -/

section Agreement

/-- The text of a state. -/
def stateText (s : State) : Bytes :=
  Quid.hexPrec 8 s.a.toNat ++ Quid.hexPrec 8 s.b.toNat ++ Quid.hexPrec 8 s.c.toNat ++
    Quid.hexPrec 8 s.d.toNat ++ Quid.hexPrec 8 s.e.toNat

theorem final_eq (s : Chella.SHA1) : s.final = stateText (Chella.view 0 s.finalDigest) := by
  have hmask (x : Chella.UInt32Word) : (x &&& 0xffffffff#64).toNat = (Chella.low x).toNat := by
    rw [BitVec.toNat_and, Chella.low, BitVec.toNat_setWidth]
    exact and_mask x.toNat
  have hroles : ∀ j, Chella.role 0 j = j := by decide
  have hfive : List.finRange 5 = [0, 1, 2, 3, 4] := rfl
  rw [Chella.SHA1.final, stateText, hfive, Chella.view]
  simp only [hmask, hroles, List.flatMap_cons, List.flatMap_nil, List.append_nil, List.append_assoc]

theorem represents_foldl (parts : List Bytes) {s : Chella.SHA1} {message : Bytes}
    (h : s.Represents message) :
    (parts.foldl Chella.SHA1.update s).Represents (message ++ parts.flatten) := by
  induction parts generalizing s message with
  | nil => rwa [List.flatten_nil, List.append_nil]
  | cons part parts ih =>
    have hrest := ih (h.update part)
    rwa [List.append_assoc] at hrest

theorem represents_foldlM (parts : List Bytes) {s : Sha1Hash} {message : Bytes}
    (h : s.Represents message) :
    ∃ r, parts.foldlM Sha1Hash.update s = some r ∧ r.Represents (message ++ parts.flatten) := by
  induction parts generalizing s message with
  | nil => exact ⟨s, rfl, by rwa [List.flatten_nil, List.append_nil]⟩
  | cons part parts ih =>
    obtain ⟨next, hnext, hrep⟩ := h.update part
    obtain ⟨r, hr, hrest⟩ := ih hrep
    rw [List.append_assoc] at hrest
    exact ⟨r, by rw [List.foldlM_cons, hnext]; exact hr, hrest⟩

/-- **The worker and the framework hash alike.** However a message of less than 2^61 bytes is cut into
parts on either side, the worker's object gives the same text as the framework's. -/
theorem hexdigest_eq_final (parts parts' : List Bytes) (hsame : parts.flatten = parts'.flatten)
    (hlen : parts.flatten.length < 2 ^ 61) :
    (parts'.foldlM Sha1Hash.update .construct).bind Sha1Hash.hexdigest =
      some (parts.foldl Chella.SHA1.update .reset).final := by
  obtain ⟨r, hr, hrep⟩ := represents_foldlM parts' Sha1Hash.represents_construct
  have hrep' := represents_foldl parts Chella.SHA1.represents_reset
  rw [List.nil_append] at hrep hrep'
  rw [← hsame] at hrep
  rw [hr, Option.bind_some, Sha1Hash.hexdigest, hrep.produceDigest hlen, final_eq,
    hrep'.view_finalDigest hlen]
  rfl

/-- `abc`, byte by byte on one side and at once on the other. -/
theorem hexdigest_eq_final_abc :
    ([ascii "abc"].foldlM Sha1Hash.update .construct).bind Sha1Hash.hexdigest =
      some ([ascii "a", ascii "b", ascii "c"].foldl Chella.SHA1.update .reset).final :=
  hexdigest_eq_final _ _ (by decide) (by decide)

end Agreement

end Mavicona.Packer
