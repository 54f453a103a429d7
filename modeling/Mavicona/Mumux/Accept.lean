import Mavicona.Common.Base64
import Mavicona.Mumux.Sha
import Mavicona.Mumux.Sessions

/-!
# The answer to an upgrade

Reference: `mumux/base64.c`, `mumux/connection.c` (`wby_connection_send_websocket_upgrade`).

The key of an upgrade is answered by a hash of it, in Base64. `wby_base64_encode` breaks a line once,
after 19 quads, as its counter is not reset then; whoever decodes it does not care, and the size that it
asks for is enough (`encode_decodes`). A digest is shorter than that.
-/

namespace Mavicona.Mumux

open Bytes Sha1

/-! ## Base64 -/

/-- `enc`. -/
def base64Enc : Bytes := ascii "ABCDEFGHIJKLMNOPQRSTUVWXYZabcdefghijklmnopqrstuvwxyz0123456789+/="

/-- `wby_base64_bufsize`. -/
def wbyBase64Bufsize (inputSize : ℕ) : ℕ :=
  let triplets := (inputSize + 2) / 3
  let baseSize := 4 * triplets
  let lineBreaks := 2 * (triplets / 19)
  baseSize + lineBreaks + 1

/-- `i0`, of the bytes that are left of the input. -/
def base64Triplet (rest : Bytes) : BitVec 32 :=
  (rest.getD 0 0).toBitVec.setWidth 32 <<< 16 ||| (rest.getD 1 0).toBitVec.setWidth 32 <<< 8 |||
    (rest.getD 2 0).toBitVec.setWidth 32

/-- `idx_0` to `idx_3`. -/
def base64Index (i0 : BitVec 32) (k : ℕ) : ℕ := (((i0 <<< (6 * k)) &&& 0xfc0000#32) >>> 18).toNat

/-- The characters of a round. -/
def base64Quad (rest : Bytes) : Bytes :=
  let i0 := base64Triplet rest
  let idx2 := if rest.length < 2 then 64 else base64Index i0 2
  let idx3 := if rest.length < 3 then 64 else base64Index i0 3
  [base64Enc.getD (base64Index i0 0) 0, base64Enc.getD (base64Index i0 1) 0, base64Enc.getD idx2 0,
    base64Enc.getD idx3 0]

/-- The loop of `wby_base64_encode`, from the bytes that are left on. Every round takes a byte at least,
and `line_out`, an `int`, must not overflow. -/
def base64Loop : ℕ → Bytes → ℕ → Option Bytes
  | _, [], _ => some []
  | 0, _ :: _, _ => none
  | rounds + 1, rest, lineOut =>
    if lineOut + 1 < 2 ^ 31 then
      let lineBreak := if lineOut + 1 = 19 then crlf else []
      (base64Loop rounds (rest.drop 3) (lineOut + 1)).map (base64Quad rest ++ lineBreak ++ ·)
    else none

/-- `wby_base64_encode`: what is in `output` then, with the zero at its end. -/
def wbyBase64Encode (outputSize : ℕ) (input : Bytes) : Option Bytes :=
  if outputSize < wbyBase64Bufsize input.length then none
  else (base64Loop input.length input 0).map (· ++ [0])

section Base64

variable {a b c : UInt8} {rest : Bytes} {rounds lineOut n : ℕ}

theorem getD_base64Enc (h : n < 65) : base64Enc.getD n 0 = Base64.char n := by
  have hall : ∀ n < 65, base64Enc.getD n 0 = Base64.char n := by decide +kernel
  exact hall n h

/-- Six bits of a word. -/
theorem base64Index_eq (i0 : BitVec 32) {k : ℕ} (hk : k ≤ 3) :
    base64Index i0 k = i0.toNat / 2 ^ (18 - 6 * k) % 64 := by
  have hmask : (0xfc0000#32 : BitVec 32) = 63#32 <<< 18 := by decide
  have hsix : (63#32 : BitVec 32) = (BitVec.allOnes 6).setWidth 32 := by decide
  have hbits : ((i0 <<< (6 * k)) &&& 0xfc0000#32) >>> 18 = (i0 >>> (18 - 6 * k)) &&& 63#32 := by
    rw [hmask, hsix]
    refine BitVec.eq_of_getLsbD_eq fun i hi => ?_
    simp only [BitVec.getLsbD_ushiftRight, BitVec.getLsbD_and, BitVec.getLsbD_shiftLeft,
      BitVec.getLsbD_setWidth, BitVec.getLsbD_allOnes]
    by_cases hlow : i < 6
    · have hsub : 18 + i - 6 * k = 18 - 6 * k + i := by omega
      have hright : ¬ 18 + i < 6 * k := by omega
      have hwide : 18 + i < 32 := by omega
      simp [hlow, hi, hsub, hright, hwide]
    · simp [hlow]
  rw [base64Index, hbits, BitVec.toNat_and, BitVec.toNat_ushiftRight, Nat.shiftRight_eq_div_pow]
  exact Nat.and_two_pow_sub_one_eq_mod _ 6

theorem toNat_base64Triplet (rest : Bytes) : (base64Triplet rest).toNat =
    (rest.getD 0 0).toNat * 2 ^ 16 + (rest.getD 1 0).toNat * 2 ^ 8 + (rest.getD 2 0).toNat := by
  have hlt (j : ℕ) := (rest.getD j 0).toNat_lt
  have h0 := hlt 0
  have h1 := hlt 1
  have h2 := hlt 2
  have hbytes := @Chella.or_shiftLeft_bytes 0 (rest.getD 0 0).toNat (rest.getD 1 0).toNat
    (rest.getD 2 0).toNat h0 h1 h2
  rw [base64Triplet]
  simp only [BitVec.toNat_or, BitVec.toNat_shiftLeft, toNat_setWidth_byte]
  rw [Nat.zero_shiftLeft, Nat.or_zero, Nat.zero_mul, Nat.zero_add] at hbytes
  rw [Nat.or_comm _ (UInt8.toNat _), Nat.or_comm (_ % _), ← Nat.or_assoc,
    Nat.mod_eq_of_lt (a := _ <<< 8), Nat.mod_eq_of_lt (a := _ <<< 16), hbytes]
  all_goals
    rw [Nat.shiftLeft_eq]
    omega

/-- The characters of a round by the bytes. -/
theorem base64Quad_eq (rest : Bytes) : base64Quad rest =
    [Base64.char ((rest.getD 0 0).toNat / 4),
      Base64.char ((rest.getD 0 0).toNat % 4 * 16 + (rest.getD 1 0).toNat / 16),
      if rest.length < 2 then Base64.pad
      else Base64.char ((rest.getD 1 0).toNat % 16 * 4 + (rest.getD 2 0).toNat / 64),
      if rest.length < 3 then Base64.pad else Base64.char ((rest.getD 2 0).toNat % 64)] := by
  have hlt (j : ℕ) := (rest.getD j 0).toNat_lt
  have hbyte0 := hlt 0
  have hbyte1 := hlt 1
  have hbyte2 := hlt 2
  have h0 := base64Index_eq (base64Triplet rest) (show 0 ≤ 3 by decide)
  have h1 := base64Index_eq (base64Triplet rest) (show 1 ≤ 3 by decide)
  have h2 := base64Index_eq (base64Triplet rest) (show 2 ≤ 3 by decide)
  have h3 := base64Index_eq (base64Triplet rest) (show 3 ≤ 3 by decide)
  rw [toNat_base64Triplet] at h0 h1 h2 h3
  generalize (rest.getD 0 0).toNat = a, (rest.getD 1 0).toNat = b, (rest.getD 2 0).toNat = c at *
  have hsix0 : base64Index (base64Triplet rest) 0 = a / 4 := by
    rw [h0]
    norm_num
    omega
  have hsix1 : base64Index (base64Triplet rest) 1 = a % 4 * 16 + b / 16 := by
    rw [h1]
    norm_num
    omega
  have hsix2 : base64Index (base64Triplet rest) 2 = b % 16 * 4 + c / 64 := by
    rw [h2]
    norm_num
    omega
  have hsix3 : base64Index (base64Triplet rest) 3 = c % 64 := by
    rw [h3]
    norm_num
    omega
  have hpad : base64Enc.getD 64 0 = Base64.pad := by decide +kernel
  rw [base64Quad, hsix0, hsix1, hsix2, hsix3, getD_base64Enc (by omega), getD_base64Enc (by omega)]
  have hchar2 := getD_base64Enc (show b % 16 * 4 + c / 64 < 65 by omega)
  have hchar3 := getD_base64Enc (show c % 64 < 65 by omega)
  split_ifs <;> simp only [hpad, hchar2, hchar3]

/-- A round writes what it should, and goes on behind three bytes. -/
theorem base64Quad_append (hrest : rest ≠ []) :
    base64Quad rest ++ Base64.encode (rest.drop 3) = Base64.encode rest := by
  rw [base64Quad_eq]
  rcases rest with _ | ⟨a, _ | ⟨b, _ | ⟨c, rest⟩⟩⟩
  · exact absurd rfl hrest
  · simp [Base64.encode]
  · simp [Base64.encode]
  · simp [Base64.encode]

/-- A text with a line break at a position, if it gets there. -/
def breakAt (n : ℕ) (cs : Bytes) : Bytes := if n ≤ cs.length then cs.take n ++ crlf ++ cs.drop n else cs

theorem breakAt_append {cs ds : Bytes} (h : cs.length = 4) (n : ℕ) :
    breakAt (n + 4) (cs ++ ds) = cs ++ breakAt n ds := by
  rw [breakAt, breakAt, List.length_append, h, ← h, Nat.add_comm n, List.take_length_add_append,
    List.drop_length_add_append]
  by_cases hn : n ≤ ds.length
  · rw [if_pos (by omega), if_pos hn]
    simp only [List.append_assoc]
  · rw [if_neg (by omega), if_neg hn]

/-- The loop writes the encoded text, with a line break behind the 19th quad. -/
theorem base64Loop_eq (hrounds : rest.length ≤ rounds)
    (hline : lineOut + (rest.length + 2) / 3 < 2 ^ 31) :
    base64Loop rounds rest lineOut = some (if lineOut < 19 then
      breakAt (4 * (19 - lineOut)) (Base64.encode rest) else Base64.encode rest) := by
  have hnil : ∀ lineOut rounds, base64Loop rounds [] lineOut = some (if lineOut < 19 then
      breakAt (4 * (19 - lineOut)) (Base64.encode []) else Base64.encode []) := by
    intro lineOut rounds
    rw [base64Loop, Base64.encode, breakAt]
    split_ifs with hlt hle
    · exact absurd hle (by rw [List.length_nil]; omega)
    · rfl
    · rfl
  induction rounds generalizing rest lineOut with
  | zero =>
    obtain rfl := List.eq_nil_of_length_eq_zero (Nat.le_zero.mp hrounds)
    exact hnil lineOut 0
  | succ rounds ih =>
    by_cases hrest : rest = []
    · rw [hrest]
      exact hnil lineOut (rounds + 1)
    · have hpos := List.length_pos_iff.mpr hrest
      have hlength : (base64Quad rest).length = 4 := rfl
      have hdrop : (rest.drop 3).length = rest.length - 3 := List.length_drop
      rw [base64Loop.eq_3 _ _ _ hrest, if_pos (by omega), ih (by omega) (by omega), Option.map_some,
        ← base64Quad_append hrest]
      refine congrArg some ?_
      by_cases hbefore : lineOut + 1 < 19
      · have hn : 4 * (19 - lineOut) = 4 * (19 - (lineOut + 1)) + 4 := by omega
        rw [if_neg (by omega), if_pos hbefore, if_pos (by omega), hn, breakAt_append hlength,
          List.append_nil]
      · by_cases hat : lineOut + 1 = 19
        · have hn : 4 * (19 - lineOut) = 0 + 4 := by omega
          rw [if_pos hat, if_neg (by omega), if_pos (by omega), hn, breakAt_append hlength, breakAt,
            if_pos (Nat.zero_le _), List.take_zero, List.nil_append, List.drop_zero, List.append_assoc]
        · rw [if_neg hat, if_neg (by omega), if_neg (by omega), List.append_nil]

/-- The characters of a text are no zeros. -/
theorem encode_ne_zero (bs : Bytes) : 0 ∉ Base64.encode bs := by
  have hchar : ∀ n, Base64.char n ≠ 0 := by
    intro n
    by_cases hn : n < 64
    · have hall : ∀ n < 64, Base64.char n ≠ 0 := by decide +kernel
      exact hall n hn
    · have hlen : Base64.alphabet.length = 64 := by decide +kernel
      rw [Base64.char, List.getD_eq_getElem?_getD, List.getElem?_eq_none (by omega)]
      decide
  have hpad : Base64.pad ≠ 0 := by decide
  induction bs using Base64.encode.induct with
  | case1 => simp [Base64.encode]
  | case2 a => simp [Base64.encode, (hchar _).symm, hpad.symm]
  | case3 a b => simp [Base64.encode, (hchar _).symm, hpad.symm]
  | case4 a b c rest ih => simp [Base64.encode, (hchar _).symm, ih]

theorem breakAt_spec (n : ℕ) (bs : Bytes) : 0 ∉ breakAt n (Base64.encode bs) ∧
    Base64.decode (breakAt n (Base64.encode bs)) = bs := by
  have hnone : ∀ c ∈ crlf, Base64.value c = none := by
    intro c hc
    rcases List.mem_pair.mp hc with rfl | rfl
    · exact Base64.value_cr
    · exact Base64.value_lf
  have hzero := encode_ne_zero bs
  rw [breakAt]
  split_ifs
  · refine ⟨?_, ?_⟩
    · rw [List.mem_append, List.mem_append]
      rintro ((hmem | hmem) | hmem)
      · exact hzero (List.mem_of_mem_take hmem)
      · exact absurd hmem (by decide)
      · exact hzero (List.mem_of_mem_drop hmem)
    · rw [Base64.decode_append_of_none hnone, List.take_append_drop, Base64.decode_encode]
  · exact ⟨hzero, Base64.decode_encode bs⟩

/-- **What is encoded fits into the buffer that is asked for, and is decoded to the input.** -/
theorem encode_decodes {input : Bytes} (hinput : input.length < 2 ^ 32) {outputSize : ℕ}
    (hsize : wbyBase64Bufsize input.length ≤ outputSize) :
    ∃ text, wbyBase64Encode outputSize input = some (text ++ [0]) ∧
      (text ++ [0]).length ≤ outputSize ∧ 0 ∉ text ∧ Base64.decode text = input := by
  have hloop := base64Loop_eq (le_refl input.length) (show 0 + (input.length + 2) / 3 < 2 ^ 31 by omega)
  rw [if_pos (by decide)] at hloop
  refine ⟨_, by rw [wbyBase64Encode, if_neg (not_lt.mpr hsize), hloop]; rfl, ?_, breakAt_spec _ _⟩
  rw [wbyBase64Bufsize] at hsize
  have hlen := Base64.length_encode input
  rw [List.length_append, List.length_singleton, breakAt]
  split_ifs with hbreak
  · have hcrlf : crlf.length = 2 := rfl
    rw [List.length_append, List.length_append, List.length_take, List.length_drop, hcrlf]
    omega
  · omega

/-- Sixty bytes, which make twenty quads. -/
theorem encode_decodes_sixty : ∃ text,
    wbyBase64Encode 83 (List.replicate 60 7) = some (text ++ [0]) ∧
      (text ++ [0]).length ≤ 83 ∧ 0 ∉ text ∧ Base64.decode text = List.replicate 60 7 :=
  encode_decodes (by decide) (by decide)

end Base64

/-! ## The handshake -/

/-- `wby_websocket_guid`. -/
def wbyWebsocketGuid : Bytes := ascii "258EAFA5-E914-47DA-95CA-C5AB0DC85B11"

/-- The digest of a key in `wby_connection_send_websocket_upgrade`. -/
def upgradeDigest (key : Bytes) : Bytes :=
  ((WbySha1.init.update (cstr key)).update wbyWebsocketGuid).final

/-- `output_digest`, a string in a buffer of 64 bytes. -/
def outputDigest (key : Bytes) : Option Bytes :=
  (wbyBase64Encode 64 (upgradeDigest key)).map cstr

section Handshake

variable {key : Bytes}

/-- The answer to a key is the digest of it in Base64, without a line break. -/
theorem outputDigest_eq (key : Bytes) :
    outputDigest key = some (Base64.encode (upgradeDigest key)) := by
  have hlen : (upgradeDigest key).length = 20 := rfl
  have hloop := base64Loop_eq (le_refl (upgradeDigest key).length)
    (show 0 + ((upgradeDigest key).length + 2) / 3 < 2 ^ 31 by omega)
  have hsize : ¬ 64 < wbyBase64Bufsize (upgradeDigest key).length := by
    rw [hlen]
    decide
  have hshort := Base64.length_encode (upgradeDigest key)
  rw [if_pos (by decide), breakAt, if_neg (by omega)] at hloop
  rw [outputDigest, wbyBase64Encode, if_neg hsize, hloop, Option.map_some, Option.map_some, cstr,
    List.takeWhile_append_of_pos]
  · rfl
  · intro c hc
    have hne : c ≠ 0 := fun hzero => encode_ne_zero _ (hzero ▸ hc)
    exact decide_eq_true hne

/-- The server with its own hash. -/
def Env.ofCode (spill : ℕ → UInt8) : Env where
  spill := spill
  accept key := Base64.encode (upgradeDigest key)
  length_accept key := by
    rw [Base64.length_encode, show (upgradeDigest key).length = 20 from rfl]

/-- The digest of a key is that of the key and the GUID. -/
theorem upgradeDigest_eq (hkey : (cstr key).length < 2 ^ 29) :
    upgradeDigest key = WbySha1.stateBytes (digest (cstr key ++ wbyWebsocketGuid)) := by
  have hguid : wbyWebsocketGuid.length < 2 ^ 29 := by decide +kernel
  have hholds := (WbySha1.holds_init.update (cstr key)).update wbyWebsocketGuid
  have hcount := (WbySha1.counted_init.update hkey).update hguid
  exact hholds.final hcount

/-- **The answer to an upgrade carries the hash of its key and the GUID.** -/
theorem upgrade_answers {c : Connection} (hc : c.Ready) (hmax : c.ioBuf.max < 2 ^ 31)
    (h : wbyConIsWebsocketRequest c.request = true) (hkey : Connection.upgradeKey c.request = some key)
    (hlen : (cstr key).length < 2 ^ 29) (spill : ℕ → UInt8) :
    ∃ d answer, c.castSendWebsocketUpgrade (.ofCode spill) = ⟨some true, d⟩ ∧ d.flags.alive = true ∧
      outputDigest key = some answer ∧
      headerLine ⟨ascii "Sec-WebSocket-Accept", answer⟩ ++ crlf <:+ d.socket.sent ∧
      Base64.decode answer = WbySha1.stateBytes (digest (cstr key ++ wbyWebsocketGuid)) := by
  obtain ⟨d, hsend, ⟨halive, -⟩, hsent, -, -⟩ :=
    Connection.sendWebsocketUpgrade_spec hc h (.ofCode spill) hkey
  rw [← Connection.castSendWebsocketUpgrade_eq ⟨hmax, hc.writable.fits⟩] at hsend
  refine ⟨d, _, hsend, halive, outputDigest_eq key, ?_, ?_⟩
  · refine List.IsSuffix.trans ?_ hsent
    have hshape : upgradeResponse (.ofCode spill) key =
        ascii "HTTP/1.1 101 Switching Protocols" ++ crlf ++ ascii "Content-Length: 0" ++ crlf ++
          ascii "Server: wby" ++ crlf ++ headerLine ⟨ascii "Upgrade", ascii "websocket"⟩ ++
          headerLine ⟨ascii "Connection", ascii "Upgrade"⟩ ++
          (headerLine ⟨ascii "Sec-WebSocket-Accept", Base64.encode (upgradeDigest key)⟩ ++ crlf) := by
      rw [upgradeResponse, Connection.upgradeHeaders]
      simp only [List.flatMap_cons, List.flatMap_nil, List.append_nil, List.append_assoc]
      rfl
    rw [hshape]
    exact List.suffix_append _ _
  · rw [Base64.decode_encode, upgradeDigest_eq hlen]

/-- The upgrade of a request with a body of one byte, and the key `a`. -/
theorem upgrade_answers_a : ∃ d answer,
    (oneRound (upgradeRequest ["Content-Length: 1"] ++ [120])).conn.serving.2.castSendWebsocketUpgrade
      (.ofCode fun _ => 0) = ⟨some true, d⟩ ∧ d.flags.alive = true ∧
      outputDigest (ascii "a") = some answer ∧
      headerLine ⟨ascii "Sec-WebSocket-Accept", answer⟩ ++ crlf <:+ d.socket.sent ∧
      Base64.decode answer = WbySha1.stateBytes (digest (cstr (ascii "a") ++ wbyWebsocketGuid)) := by
  have hready : (oneRound (upgradeRequest ["Content-Length: 1"] ++ [120])).conn.serving.2.Ready :=
    ⟨⟨by decide +kernel, by decide +kernel, ⟨by decide +kernel, by decide +kernel⟩, by decide +kernel⟩,
      ⟨by decide +kernel, by decide +kernel⟩, by decide +kernel, by decide +kernel,
      by decide +kernel, by decide +kernel, by decide +kernel, by decide +kernel⟩
  exact upgrade_answers hready (by decide +kernel) (by decide +kernel) (by decide +kernel)
    (by decide +kernel) _

end Handshake

end Mavicona.Mumux
