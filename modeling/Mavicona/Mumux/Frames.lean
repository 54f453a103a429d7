import Mavicona.Mumux.Connection

/-!
# Frames

Reference: `mumux/request.c` (`wby_scan_websocket_frame`, `wby_frame_begin`, `wby_frame_end`,
`wby_write`), `mumux/util.c` (`wby_make_websocket_header`).

A message is written as a frame for every `wby_write`, and an empty one at the end. The length of a
frame has three forms, of 7, 16 and 64 bits; of the last one only the lower half is used.
-/

namespace Mavicona.Mumux

open Bytes Socket

/-! ## The scanner -/

/-- The value of a big-endian number. -/
def ofBe (bs : Bytes) : ℕ := bs.foldl (fun n b => n * 256 + b.toNat) 0

/-- `wby_scan_websocket_frame`. A frame without a mask leaves the key as it was. -/
def wbyScanWebsocketFrame (frame : Frame) : Bytes → Option Frame
  | header0 :: header1 :: data =>
    let masked := header1 &&& 128 ≠ 0
    let maskBytes := if masked then 4 else 0
    let len := header1 &&& 127
    let lenBytes := if len = 126 then 2 else if len = 127 then 8 else 0
    if data.length < lenBytes + maskBytes then none
    else
      some
        { fin := header0 &&& 128 ≠ 0
          masked
          opcode := header0 &&& 15
          headerSize := 2 + lenBytes + maskBytes
          maskKey := if masked then (data.drop lenBytes).take 4 else frame.maskKey
          payloadLength := if lenBytes = 0 then len.toNat else toInt (ofBe (data.take lenBytes)) }
  | _ => none

section Header

variable {n : ℕ} {op : UInt8}

/-- A byte of a length. -/
theorem ofInt_shiftRight (n k : ℕ) : UInt8.ofInt ((n : ℤ) >>> k) = UInt8.ofNat (n / 2 ^ k) := by
  have hmod : ((n : ℤ) >>> k % 2 ^ 8).toNat = n / 2 ^ k % 2 ^ 8 := by
    rw [Int.shiftRight_eq_div_pow]
    norm_cast
  rw [UInt8.ofInt, hmod, UInt8.ofNat_mod_size]

/-- The first byte of a header. -/
theorem header0_bits (hop : op < 16) (fin : Bool) :
    (((if fin then 128 else 0) ||| op) &&& 128 ≠ 0 ↔ fin = true) ∧
      ((if fin then 128 else 0) ||| op) &&& 15 = op := by
  have hall : ∀ k < 16, ∀ fin : Bool,
      (((if fin then 128 else 0) ||| UInt8.ofNat k) &&& 128 ≠ 0 ↔ fin = true) ∧
        ((if fin then 128 else 0) ||| UInt8.ofNat k) &&& 15 = UInt8.ofNat k := by
    decide
  have := hall op.toNat (UInt8.lt_iff_toNat_lt.mp hop) fin
  rwa [UInt8.ofNat_toNat] at this

/-- The second byte of a header, if the length is in it. -/
theorem header1_bits (h : n < 126) :
    (UInt8.ofNat n &&& 127) &&& 128 = 0 ∧ (UInt8.ofNat n &&& 127) &&& 127 = UInt8.ofNat n ∧
      UInt8.ofNat n ≠ 126 ∧ UInt8.ofNat n ≠ 127 := by
  have hall : ∀ k < 126, (UInt8.ofNat k &&& 127) &&& 128 = 0 ∧
      (UInt8.ofNat k &&& 127) &&& 127 = UInt8.ofNat k ∧
        UInt8.ofNat k ≠ 126 ∧ UInt8.ofNat k ≠ 127 := by
    decide
  exact hall n h

/-- A header without a mask, of a form with `lenBytes` bytes of length. -/
theorem wbyScanWebsocketFrame_cons (frame : Frame) (header0 header1 : UInt8) (bytes rest : Bytes)
    (hmask : header1 &&& 128 = 0) (hform : (if header1 &&& 127 = 126 then 2
      else if header1 &&& 127 = 127 then 8 else 0) = bytes.length) :
    wbyScanWebsocketFrame frame (header0 :: header1 :: (bytes ++ rest)) =
      some { fin := header0 &&& 128 ≠ 0, masked := false, opcode := header0 &&& 15
             headerSize := 2 + bytes.length, maskKey := frame.maskKey
             payloadLength := if bytes.length = 0 then (header1 &&& 127).toNat
               else toInt (ofBe bytes) } := by
  rw [wbyScanWebsocketFrame]
  simp [hmask, hform]

/-- The scanner reads back a header that was made for any length, whatever stands behind it. -/
theorem wbyScanWebsocketFrame_header (frame : Frame) (hop : op < 16) (h : n < 2 ^ 31) (fin : Bool)
    (rest : Bytes) :
    wbyScanWebsocketFrame frame (wbyMakeWebsocketHeader op n fin ++ rest) =
      some { fin, masked := false, opcode := op
             headerSize := (wbyMakeWebsocketHeader op n fin).length
             maskKey := frame.maskKey, payloadLength := n } := by
  obtain ⟨hfin, hopcode⟩ := header0_bits hop fin
  rw [wbyMakeWebsocketHeader]
  simp only [ofInt_shiftRight]
  generalize (if fin then (128 : UInt8) else 0) ||| op = header0 at hfin hopcode
  by_cases hshort : n < 126
  · obtain ⟨hmask, hlen, hne126, hne127⟩ := header1_bits hshort
    have hvalue : (UInt8.ofNat n).toNat = n := by
      rw [UInt8.toNat_ofNat']
      omega
    have hscan := wbyScanWebsocketFrame_cons frame header0 _ [] rest hmask
      (by rw [hlen, if_neg hne126, if_neg hne127]; rfl)
    rw [if_pos (by omega)]
    simpa [hfin, hopcode, hlen, hvalue] using hscan
  · by_cases hlong : n < 65536
    · have hvalue : ofBe [UInt8.ofNat (n / 2 ^ 8), UInt8.ofNat (n / 2 ^ 0)] = n := by
        simp [ofBe]
        omega
      rw [if_neg (by omega), if_pos (by omega)]
      refine (wbyScanWebsocketFrame_cons frame header0 126 [_, _] rest (by decide) rfl).trans ?_
      rw [hvalue, toInt_of_lt h]
      simp [hfin, hopcode]
    · have hvalue : ofBe [0, 0, 0, 0, UInt8.ofNat (n / 2 ^ 24), UInt8.ofNat (n / 2 ^ 16),
          UInt8.ofNat (n / 2 ^ 8), UInt8.ofNat (n / 2 ^ 0)] = n := by
        simp [ofBe]
        omega
      rw [if_neg (by omega), if_neg (by omega)]
      refine (wbyScanWebsocketFrame_cons frame header0 127 [_, _, _, _, _, _, _, _] rest
        (by decide) rfl).trans ?_
      rw [hvalue, toInt_of_lt h]
      simp [hfin, hopcode]

end Header

/-! ## The stream of a message -/

/-- The frames of a stream, with their payloads, one after the other. -/
def scanFrames (frame : Frame) : ℕ → Bytes → Option (List (Frame × Bytes))
  | _, [] => some []
  | 0, _ :: _ => none
  | fuel + 1, b :: bs =>
    match wbyScanWebsocketFrame frame (b :: bs) with
    | none => none
    | some f =>
      let size := f.headerSize + f.payloadLength.toNat
      if (b :: bs).length < size then none
      else
        (scanFrames f fuel ((b :: bs).drop size)).map
          ((f, ((b :: bs).drop f.headerSize).take f.payloadLength.toNat) :: ·)

/-- A frame, as it is sent. -/
def encodeFrame (op : UInt8) (fin : Bool) (bs : Bytes) : Bytes :=
  wbyMakeWebsocketHeader op bs.length fin ++ bs

/-- The frames that are written after the first: continuations, and an empty one at the end. -/
def encodeRest (writes : List Bytes) : Bytes :=
  writes.flatMap (encodeFrame 0 false) ++ encodeFrame 0 true []

/-- A message, as it is sent. -/
def encodeMessage (op : UInt8) : List Bytes → Bytes
  | [] => encodeFrame op true []
  | bs :: writes => encodeFrame op false bs ++ encodeRest writes

section Scanning

variable {op : UInt8} {bs : Bytes} {writes : List Bytes}

theorem two_le_length_wbyMakeWebsocketHeader (op : UInt8) (n : ℤ) (fin : Bool) :
    2 ≤ (wbyMakeWebsocketHeader op n fin).length := by
  rw [wbyMakeWebsocketHeader]
  split_ifs <;> simp

theorem length_lt_length_encodeRest (writes : List Bytes) :
    writes.length < (encodeRest writes).length := by
  induction writes with
  | nil =>
    have := two_le_length_wbyMakeWebsocketHeader 0 0 true
    simp [encodeRest, encodeFrame]
    omega
  | cons bs writes ih =>
    have := two_le_length_wbyMakeWebsocketHeader 0 bs.length false
    rw [encodeRest, List.flatMap_cons, List.append_assoc, ← encodeRest, encodeFrame]
    simp only [List.length_append, List.length_cons]
    omega

/-- There are more bytes than writes. -/
theorem length_lt_length_encodeMessage (op : UInt8) (writes : List Bytes) :
    writes.length < (encodeMessage op writes).length := by
  cases writes with
  | nil =>
    have := two_le_length_wbyMakeWebsocketHeader op 0 true
    simp [encodeMessage, encodeFrame]
    omega
  | cons bs writes =>
    have := two_le_length_wbyMakeWebsocketHeader op bs.length false
    have := length_lt_length_encodeRest writes
    rw [encodeMessage, encodeFrame]
    simp only [List.length_append, List.length_cons]
    omega

/-- A frame without a mask, as it is scanned. -/
def plainFrame (key : Bytes) (op : UInt8) (fin : Bool) (bs : Bytes) : Frame where
  fin := fin
  masked := false
  opcode := op
  headerSize := (wbyMakeWebsocketHeader op bs.length fin).length
  maskKey := key
  payloadLength := bs.length

/-- A frame at the start of a stream. -/
theorem scanFrames_encodeFrame (frame : Frame) (hop : op < 16) (hbs : bs.length < 2 ^ 31)
    (fin : Bool) {fuel : ℕ} (hfuel : 0 < fuel) (rest : Bytes) :
    scanFrames frame fuel (encodeFrame op fin bs ++ rest) =
      (scanFrames (plainFrame frame.maskKey op fin bs) (fuel - 1) rest).map
        ((plainFrame frame.maskKey op fin bs, bs) :: ·) := by
  have hscan := wbyScanWebsocketFrame_header frame hop hbs fin (bs ++ rest)
  have hpos := two_le_length_wbyMakeWebsocketHeader op bs.length fin
  rw [encodeFrame, List.append_assoc]
  generalize hheader : wbyMakeWebsocketHeader op bs.length fin = header at hscan hpos ⊢
  obtain ⟨b, header, rfl⟩ :=
    List.exists_cons_of_ne_nil (List.ne_nil_of_length_pos (Nat.zero_lt_of_lt hpos))
  obtain ⟨fuel, rfl⟩ := Nat.exists_eq_succ_of_ne_zero hfuel.ne'
  rw [List.cons_append, scanFrames, ← List.cons_append, hscan]
  have hplain : plainFrame frame.maskKey op fin bs =
      { fin, masked := false, opcode := op, headerSize := (b :: header).length
        maskKey := frame.maskKey, payloadLength := bs.length } := by
    rw [plainFrame, hheader]
  dsimp only
  rw [if_neg (by simp; omega), hplain, Int.toNat_natCast, ← List.drop_drop, List.drop_left, List.drop_left,
    List.take_left]
  rfl

/-- The frames of a message after the first. -/
theorem scanFrames_encodeRest (frame : Frame) (hwrites : ∀ bs ∈ writes, bs.length < 2 ^ 31)
    {fuel : ℕ} (hfuel : writes.length < fuel) :
    scanFrames frame fuel (encodeRest writes) =
      some (writes.map (fun bs => (plainFrame frame.maskKey 0 false bs, bs)) ++
        [(plainFrame frame.maskKey 0 true [], [])]) := by
  induction writes generalizing frame fuel with
  | nil =>
    have hscan : scanFrames frame fuel (encodeFrame 0 true [] ++ []) = _ :=
      scanFrames_encodeFrame frame (by decide) (by simp) true (Nat.zero_lt_of_lt hfuel) []
    rw [encodeRest, List.flatMap_nil, List.nil_append, ← List.append_nil (encodeFrame 0 true []), hscan]
    simp [scanFrames]
  | cons bs writes ih =>
    rw [encodeRest, List.flatMap_cons, List.append_assoc, ← encodeRest,
      scanFrames_encodeFrame frame (by decide) (hwrites bs (.head _)) false (Nat.zero_lt_of_lt hfuel),
      ih _ (fun b hb => hwrites b (.tail _ hb)) (Nat.lt_sub_of_add_lt hfuel)]
    rfl

/-- The frames of a message. -/
theorem scanFrames_encodeMessage (frame : Frame) (hop : op < 16)
    (hwrites : ∀ bs ∈ writes, bs.length < 2 ^ 31) {fuel : ℕ} (hfuel : writes.length < fuel) :
    ∃ frames, scanFrames frame fuel (encodeMessage op writes) = some frames ∧
      frames.map (·.1.opcode) = op :: List.replicate writes.length 0 ∧
      frames.map (·.1.fin) = List.replicate writes.length false ++ [true] ∧
      (∀ f ∈ frames, f.1.masked = false) ∧ frames.flatMap Prod.snd = writes.flatten := by
  have hpos : 0 < fuel := Nat.zero_lt_of_lt hfuel
  cases writes with
  | nil =>
    have hscan : scanFrames frame fuel (encodeFrame op true [] ++ []) = _ :=
      scanFrames_encodeFrame frame hop (by simp) true hpos []
    rw [List.append_nil] at hscan
    exact ⟨_, hscan.trans (by rw [scanFrames]; rfl), rfl, rfl, by simp [plainFrame], rfl⟩
  | cons bs writes =>
    have hscan := scanFrames_encodeFrame frame hop (hwrites bs (.head _)) false hpos
      (encodeRest writes)
    rw [scanFrames_encodeRest _ (fun b hb => hwrites b (.tail _ hb)) (Nat.lt_sub_of_add_lt hfuel)]
      at hscan
    refine ⟨_, hscan, ?_, ?_, ?_, ?_⟩
    · simp [plainFrame, Function.comp_def, List.map_const', List.replicate_succ']
    · simp [plainFrame, Function.comp_def, List.map_const', List.replicate_succ]
    · simp only [plainFrame, List.forall_mem_cons, List.forall_mem_append, List.forall_mem_map]
      simp
    · simp [List.flatMap_map]

end Scanning

/-! ## Writing a message -/

namespace Connection

/-- `wby_frame_begin`, the calls of `wby_write`, and `wby_frame_end`. -/
def sendMessage (opcode : ℕ) (writes : List Bytes) (c : Connection) : Connection :=
  (((c.frameBegin opcode).2.writeAll writes).frameEnd).2

section Writing

variable {c : Connection} {bs : Bytes} {writes : List Bytes}

theorem sendOrKill_of_open (h : c.socket.Open) (bs : Bytes) :
    ∃ t, c.sendOrKill bs = (true, { c with socket := t }) ∧ c.socket.Took bs t := by
  obtain ⟨t, hsend, ht⟩ := wbySocketSend_of_open h bs
  exact ⟨t, by rw [sendOrKill, hsend], ht⟩

/-- A mode of the connection that is set sends nothing. -/
theorem setBlocking_socket (h : c.socket.Open) : c.setBlocking.2.socket.Open ∧
    c.setBlocking.2.socket.sent = c.socket.sent ∧
      c.setBlocking.2.flags.websocket = c.flags.websocket ∧
        c.setBlocking.2.wsOpcode = c.wsOpcode := by
  have hopen := h.setBlocking true
  have hsent := c.socket.sent_setBlocking true
  rw [setBlocking]
  split_ifs
  · split
    · rename_i hset
      rw [hset] at hopen hsent
      exact ⟨hopen, hsent, rfl, rfl⟩
    · rename_i hset
      rw [hset] at hopen hsent
      exact ⟨hopen, hsent, rfl, rfl⟩
  · exact ⟨h, rfl, rfl, rfl⟩

theorem setNonblocking_sent (c : Connection) : c.setNonblocking.2.socket.sent = c.socket.sent := by
  have hsent := c.socket.sent_setBlocking false
  rw [setNonblocking]
  split_ifs
  · split
    · rename_i hset
      rw [hset] at hsent
      exact hsent
    · rename_i hset
      rw [hset] at hsent
      exact hsent
  · rfl

/-- A write on a WebSocket connection is one frame. -/
theorem wbyWrite_websocket (hws : c.flags.websocket = true) (hopen : c.socket.Open)
    (hbs : bs.length < 2 ^ 31) :
    ∃ t, (c.wbyWrite bs).2 = { c with wsOpcode := 0, socket := t } ∧
      c.socket.Took (encodeFrame c.wsOpcode false bs) t := by
  obtain ⟨t, hheader, ht⟩ := sendOrKill_of_open (c := { c with wsOpcode := 0 }) hopen
    (wbyMakeWebsocketHeader c.wsOpcode bs.length false)
  obtain ⟨u, hpayload, hu⟩ := sendOrKill_of_open (c := { c with wsOpcode := 0, socket := t })
    ht.isOpen bs
  refine ⟨u, ?_, ht.trans hu⟩
  rw [wbyWrite, if_pos hws, intLen_of_lt hbs]
  simp only [hheader, Int.toNat_natCast, List.take_length, hpayload]

/-- The writes after the first. -/
theorem writeAll_continued (hws : c.flags.websocket = true) (hopen : c.socket.Open)
    (hop : c.wsOpcode = 0) (hwrites : ∀ bs ∈ writes, bs.length < 2 ^ 31) :
    ∃ t, c.writeAll writes = { c with socket := t } ∧
      c.socket.Took (writes.flatMap (encodeFrame 0 false)) t := by
  induction writes generalizing c with
  | nil => exact ⟨c.socket, rfl, .refl hopen⟩
  | cons bs writes ih =>
    obtain ⟨t, hwrite, ht⟩ := wbyWrite_websocket hws hopen (hwrites bs (.head _))
    obtain ⟨u, hrest, hu⟩ := ih (c := { c with wsOpcode := 0, socket := t }) hws ht.isOpen rfl
      fun b hb => hwrites b (.tail _ hb)
    rw [hop] at ht
    refine ⟨u, ?_, ht.trans hu⟩
    rw [writeAll, List.foldl_cons, hwrite, ← writeAll, hrest, ← hop]

/-- `wby_frame_end` sends an empty frame. -/
theorem sent_frameEnd (hopen : c.socket.Open) :
    c.frameEnd.2.socket.sent = c.socket.sent ++ encodeFrame c.wsOpcode true [] := by
  obtain ⟨t, hsend, ht⟩ := sendOrKill_of_open hopen (wbyMakeWebsocketHeader c.wsOpcode 0 true)
  rw [frameEnd, hsend, setNonblocking_sent, encodeFrame, List.append_nil]
  exact ht.sent_eq

/-- A message is sent as it is encoded. -/
theorem sent_sendMessage (hws : c.flags.websocket = true) (hopen : c.socket.Open) (opcode : ℕ)
    (hwrites : ∀ bs ∈ writes, bs.length < 2 ^ 31) :
    (c.sendMessage opcode writes).socket.sent =
      c.socket.sent ++ encodeMessage (UInt8.ofNat opcode) writes := by
  obtain ⟨hopen', hsent, hws', hop⟩ :=
    setBlocking_socket (c := { c with wsOpcode := UInt8.ofNat opcode }) hopen
  rw [sendMessage, frameBegin]
  generalize ({ c with wsOpcode := UInt8.ofNat opcode } : Connection).setBlocking.2 = d at *
  have hsent : d.socket.sent = c.socket.sent := hsent
  have hop : d.wsOpcode = UInt8.ofNat opcode := hop
  cases writes with
  | nil => rw [writeAll, List.foldl_nil, sent_frameEnd hopen', hsent, hop, encodeMessage]
  | cons bs writes =>
    obtain ⟨t, hwrite, ht⟩ := wbyWrite_websocket (hws'.trans hws) hopen' (hwrites bs (.head _))
    obtain ⟨u, hrest, hu⟩ := writeAll_continued (c := { d with wsOpcode := 0, socket := t })
      (hws'.trans hws) ht.isOpen rfl fun b hb => hwrites b (.tail _ hb)
    rw [writeAll, List.foldl_cons, hwrite, ← writeAll, hrest, sent_frameEnd hu.isOpen]
    have hall := (ht.trans hu).sent_eq
    rw [hsent, hop] at hall
    rw [hall, encodeMessage, encodeRest]
    simp only [List.append_assoc]

end Writing

end Connection

/-- What is written between `wby_frame_begin` and `wby_frame_end` is read back by the scanner as one
message in fragments: it consumes the whole stream, the first frame has the opcode and the others are
continuations, only the last one is final, none has a mask, and the payloads are what was written. -/
theorem scanFrames_sendMessage (c : Connection) (frame : Frame) (opcode : ℕ) (writes : List Bytes)
    (hws : c.flags.websocket = true) (hopen : c.socket.Open) (hop : opcode < 16)
    (hwrites : ∀ bs ∈ writes, bs.length < 2 ^ 31) :
    ∃ out frames, (c.sendMessage opcode writes).socket.sent = c.socket.sent ++ out ∧
      scanFrames frame out.length out = some frames ∧
      frames.map (·.1.opcode.toNat) = opcode :: List.replicate writes.length 0 ∧
      frames.map (·.1.fin) = List.replicate writes.length false ++ [true] ∧
      (∀ f ∈ frames, f.1.masked = false) ∧ frames.flatMap Prod.snd = writes.flatten := by
  have hsent := Connection.sent_sendMessage hws hopen opcode hwrites
  have hbyte : (UInt8.ofNat opcode).toNat = opcode := by
    rw [UInt8.toNat_ofNat']
    omega
  have hlt : UInt8.ofNat opcode < 16 := by
    rw [UInt8.lt_iff_toNat_lt, hbyte]
    exact hop
  obtain ⟨frames, hscan, hopcodes, hfin, hmask, hpayload⟩ :=
    scanFrames_encodeMessage frame hlt hwrites (length_lt_length_encodeMessage _ writes)
  refine ⟨_, frames, hsent, hscan, ?_, hfin, hmask, hpayload⟩
  have := congrArg (List.map UInt8.toNat) hopcodes
  simpa [Function.comp_def, hbyte] using this

/-- A text in two writes. -/
theorem scanFrames_sendMessage_text :
    let c := Connection.blank (.ready [])
    let c := { c with flags := { c.flags with websocket := true } }
    ∃ out frames, (c.sendMessage 1 [ascii "Hel", ascii "lo"]).socket.sent = c.socket.sent ++ out ∧
      scanFrames c.wsFrame out.length out = some frames ∧
      frames.map (·.1.opcode.toNat) = [1, 0, 0] ∧ frames.map (·.1.fin) = [false, false, true] ∧
      (∀ f ∈ frames, f.1.masked = false) ∧ frames.flatMap Prod.snd = ascii "Hello" :=
  scanFrames_sendMessage _ _ 1 [ascii "Hel", ascii "lo"] rfl (open_ready []) (by decide) (by decide)

end Mavicona.Mumux
