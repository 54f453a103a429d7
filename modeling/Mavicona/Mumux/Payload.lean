import Mavicona.Mumux.Input
import Mavicona.Mumux.Update

/-!
# The payload of a masked frame

Reference: `mumux/request.c` (`wby_read`), `mumux/server.c` (`wby_update_connection`).

A part of the payload is in the I/O buffer when a frame is dispatched, with what came behind it, and
the rest arrives later. `wby_read` removes the mask by the position in the payload, which it keeps from
one call to the next. What is left in the buffer is computed with an `int`: of a buffer that holds 2 GiB
or more, a part or all of what is buffered is passed over, and the socket is read instead.
-/

namespace Mavicona.Mumux

open Bytes Socket

namespace Connection

/-- Calls of `wby_read`, one after the other: what they give to the caller, if all of them succeed. -/
def readAll : List ℕ → Connection → Option Bytes
  | [], _ => some []
  | len :: lens, c =>
    match c.wbyRead len with
    | ⟨some (true, bs), d⟩ => (readAll lens d).map (bs ++ ·)
    | _ => none

/-- The connection in which a frame is dispatched, if its socket can be switched to blocking mode. -/
def dispatchFrame (c : Connection) : Option Connection :=
  match wbyScanWebsocketFrame c.wsFrame c.ioBuf.data with
  | none => none
  | some f =>
    match { c with
        wsFrame := f, bodyBytesRead := 0
        ioDataLeft := leftBehind f.headerSize c.ioBuf.data }.setBlocking with
    | (false, _) => none
    | (true, d) => some d

/-- What is still to come is something else. -/
def supplied (incoming : List Event) (c : Connection) : Connection :=
  { c with socket := { c.socket with incoming } }

/-- A WebSocket that waits for a frame, as `wby_connection_reset` leaves it but for its I/O buffer. -/
structure Expecting (c : Connection) : Prop where
  websocket : c.flags.websocket = true
  header : c.headerBodyLeft = 0
  count : c.blockingCount = 0

/-! ## The mask -/

section Mask

variable (key : Bytes)

theorem unmask_append (i : ℕ) (xs ys : Bytes) :
    unmask key i (xs ++ ys) = unmask key i xs ++ unmask key (i + xs.length) ys := by
  induction xs generalizing i with
  | nil => rfl
  | cons x xs ih =>
    have hindex : i + (x :: xs).length = i + 1 + xs.length := by
      rw [List.length_cons]
      omega
    rw [List.cons_append, unmask, unmask, ih, hindex, List.cons_append]

/-- No byte is lost. -/
theorem unmask_injective (i : ℕ) {xs ys : Bytes} (h : unmask key i xs = unmask key i ys) : xs = ys := by
  induction xs generalizing i ys with
  | nil =>
    cases ys with
    | nil => rfl
    | cons => exact absurd h nofun
  | cons x xs ih =>
    cases ys with
    | nil => exact absurd h nofun
    | cons y ys =>
      obtain ⟨hbyte, hrest⟩ := List.cons.inj h
      rw [UInt8.xor_left_inj] at hbyte
      rw [hbyte, ih (i + 1) hrest]

/-- Every byte has its own byte of the key. -/
theorem unmask_eq_mapIdx (i : ℕ) (bs : Bytes) :
    unmask key i bs = bs.mapIdx fun k b => b ^^^ key.getD ((i + k) % 4) 0 := by
  induction bs generalizing i with
  | nil => rfl
  | cons b bs ih =>
    rw [unmask, List.mapIdx_cons, ih, Nat.add_zero]
    congr 2
    funext k
    rw [Nat.add_assoc, Nat.add_comm 1 k]

end Mask

/-! ## Calls in sequence -/

section Reads

variable {c d : Connection} {n : ℕ} {lens : List ℕ}

theorem Received.masked (h : c.Received d) (hc : c.Masked) : d.Masked := by
  rw [h]
  exact hc

theorem Received.maskKey_eq (h : c.Received d) : d.wsFrame.maskKey = c.wsFrame.maskKey := by
  rw [h]

/-- However many calls there are, they read the payload from where the last one stopped. -/
theorem readAll_of_masked (hmasked : c.Masked) (hc : c.Inside) (hvalid : c.socket.valid = true)
    (hblocking : c.socket.blocking = true) (hlens : lens.sum ≤ c.unread.length) :
    readAll lens c = some (unmask c.wsFrame.maskKey c.bodyBytesRead (c.unread.take lens.sum)) := by
  induction lens generalizing c with
  | nil => rfl
  | cons len lens ih =>
    rw [List.sum_cons] at hlens ⊢
    obtain ⟨d, hread, hd⟩ := wbyRead_of_le hc hvalid hblocking (show len ≤ c.unread.length by omega)
    have hrest := ih (hd.received.masked hmasked) hd.inside (hd.valid_eq.trans hvalid)
      (hd.blocking_eq.trans hblocking) (by rw [hd.unread, List.length_drop]; omega)
    have hlen : (c.unread.take len).length = len := by
      rw [List.length_take]
      omega
    rw [readAll, hread]
    dsimp only
    rw [hrest, Option.map_some, clear, if_pos hmasked, hd.received.maskKey_eq, hd.count, hd.unread,
      List.take_add, unmask_append, hlen]

end Reads

/-! ## Frames -/

section Frames

variable {c d : Connection} {payload rest : Bytes} {lens : List ℕ}

/-- A socket whose mode was changed is open. -/
theorem switched_socket {s t : Socket} {blocking : Bool} (h : s.setBlocking blocking = (true, t)) :
    t.valid = true ∧ t.blocking = blocking ∧ t.incoming = s.incoming := by
  rw [Socket.setBlocking] at h
  split_ifs at h with hvalid
  · split at h
    · obtain rfl := (Prod.mk.inj h).2
      exact ⟨hvalid, rfl, rfl⟩
    · obtain rfl := (Prod.mk.inj h).2
      exact ⟨hvalid, rfl, rfl⟩
    · exact absurd (Prod.mk.inj h).1 Bool.false_ne_true
  · exact absurd (Prod.mk.inj h).1 Bool.false_ne_true

theorem switched_conn (h : c.setBlocking = (true, d)) (hcount : c.blockingCount = 0) :
    ∃ t, d = { c with socket := t, blockingCount := 1 } ∧ t.valid = true ∧ t.blocking = true ∧
      t.incoming = c.socket.incoming := by
  rw [setBlocking, if_pos hcount] at h
  split at h
  · rename_i t ht
    obtain rfl := (Prod.mk.inj h).2
    exact ⟨t, rfl, switched_socket ht⟩
  · exact absurd (Prod.mk.inj h).1 Bool.false_ne_true

theorem headerSize_lt {frame f : Frame} {bs : Bytes} (h : wbyScanWebsocketFrame frame bs = some f) :
    f.headerSize < 2 ^ 31 := by
  rcases bs with _ | ⟨header0, _ | ⟨header1, data⟩⟩
  · exact absurd h nofun
  · exact absurd h nofun
  · rw [wbyScanWebsocketFrame, Option.ite_none_left_eq_some] at h
    rw [← Option.some.inj h.2]
    dsimp only
    split_ifs <;> omega

/-- What is left behind the header of a frame, as far as its length is cast to `int`. -/
theorem lastBytes_leftBehind {size : ℕ} {bs : Bytes} :
    lastBytes (leftBehind size bs) bs = (bs.drop size).take (leftBehind size bs) := by
  rcases Nat.eq_zero_or_pos (leftBehind size bs) with hzero | hpos
  · rw [hzero, List.take_zero, lastBytes_zero]
  · have hoffset : (intLen bs - leftBehind size bs).toNat = size := by
      rw [leftBehind] at hpos ⊢
      omega
    rw [lastBytes, hoffset]

/-- What is left to be read when a frame is dispatched. -/
theorem dispatchFrame_spec (hc : c.Expecting) (h : c.dispatchFrame = some d) :
    wbyScanWebsocketFrame c.wsFrame c.ioBuf.data = some d.wsFrame ∧
      d.flags = c.flags ∧ d.bodyBytesRead = 0 ∧ d.Inside ∧ d.socket.valid = true ∧
      d.socket.blocking = true ∧
      d.buffered = (c.ioBuf.data.drop d.wsFrame.headerSize).take
        (leftBehind d.wsFrame.headerSize c.ioBuf.data) := by
  rw [dispatchFrame] at h
  split at h
  · exact absurd h nofun
  · rename_i f hscan
    split at h
    · exact absurd h nofun
    · rename_i e hset
      obtain rfl := Option.some.inj h
      obtain ⟨t, rfl, hvalid, hblocking, -⟩ := switched_conn hset hc.count
      have hheader := hc.header
      refine ⟨hscan, rfl, rfl, ⟨?_, holds_leftBehind _ _⟩, hvalid, hblocking, ?_⟩
      · dsimp only
        rw [hheader]
        exact holds_zero _
      · rw [buffered]
        dsimp only
        rw [hheader, lastBytes_zero, List.nil_append, lastBytes_leftBehind]

/-- It is what `wby_update_connection` serves the frame in. -/
theorem receiveFrame_of_dispatchFrame (h : c.dispatchFrame = some d) (env : Env) (cfg : Config)
    (cb : Callbacks) : c.receiveFrame env cfg cb = d.serveFrame env cfg cb := by
  rw [dispatchFrame] at h
  rw [receiveFrame]
  generalize wbyScanWebsocketFrame c.wsFrame c.ioBuf.data = scanned at h ⊢
  cases scanned with
  | none => exact absurd h nofun
  | some f =>
    dsimp only at h ⊢
    generalize Connection.setBlocking _ = r at h ⊢
    obtain ⟨_ | _, e⟩ := r
    · exact absurd h nofun
    · rw [Option.some.inj h]

/-- What is read of a frame, whatever comes behind what is buffered. -/
theorem readAll_supplied (hc : c.Expecting) (hd : c.dispatchFrame = some d)
    (hmasked : d.wsFrame.masked = true) (es : List Event)
    (hlens : lens.sum ≤ (d.buffered ++ deliverable es).length) :
    readAll lens (d.supplied es) =
      some (unmask d.wsFrame.maskKey 0 ((d.buffered ++ deliverable es).take lens.sum)) := by
  obtain ⟨-, hflags, hcount, hinside, hvalid, hblocking, -⟩ := dispatchFrame_spec hc hd
  have hread := @readAll_of_masked (d.supplied es) lens ⟨hflags ▸ hc.websocket, hmasked⟩
    ⟨hinside.header, hinside.io⟩ hvalid hblocking hlens
  rw [hread]
  exact congrArg (fun i => some (unmask d.wsFrame.maskKey i _)) hcount

/-- The payload is read as far as it is in the buffer or follows all of that. -/
theorem take_unread {bs : Bytes} {size n : ℕ} (es : List Event)
    (hpayload : bs.drop size ++ deliverable es = payload ++ rest) (hn : n ≤ payload.length)
    (h : bs.length < 2 ^ 31 ∨ n ≤ leftBehind size bs) :
    n ≤ ((bs.drop size).take (leftBehind size bs) ++ deliverable es).length ∧
      ((bs.drop size).take (leftBehind size bs) ++ deliverable es).take n = payload.take n := by
  have hlength := congrArg List.length hpayload
  rw [List.length_append, List.length_append] at hlength
  rcases h with h | h
  · have hall : (bs.drop size).take (leftBehind size bs) = bs.drop size := by
      rw [leftBehind_of_lt h, ← List.length_drop, List.take_length]
    rw [hall, hpayload, List.take_append_of_le_length hn, List.length_append]
    exact ⟨by omega, rfl⟩
  · have hle := intLen_le bs
    have hdrop : n ≤ (bs.drop size).length := by
      rw [List.length_drop]
      rw [leftBehind] at h
      omega
    have htake : n ≤ ((bs.drop size).take (leftBehind size bs)).length := by
      rw [List.length_take]
      omega
    rw [List.take_append_of_le_length htake, List.take_take, Nat.min_eq_left h, List.length_append]
    refine ⟨by omega, ?_⟩
    have hbehind : (bs.drop size ++ deliverable es).take n = (bs.drop size).take n :=
      List.take_append_of_le_length hdrop
    rw [← hbehind, hpayload,
      List.take_append_of_le_length hn]

/-- A byte that was buffered and passed over is not what comes behind all of that. -/
theorem exists_unread {bs : Bytes} {size n : ℕ} (hsize : size < 2 ^ 31) (hlarge : 2 ^ 31 ≤ bs.length)
    (hn : leftBehind size bs < n) :
    ∃ es, n ≤ (bs.drop size ++ deliverable es).length ∧
      leftBehind size bs + 1 ≤ ((bs.drop size).take (leftBehind size bs) ++ deliverable es).length ∧
      ((bs.drop size).take (leftBehind size bs) ++ deliverable es).take (leftBehind size bs + 1) ≠
        (bs.drop size ++ deliverable es).take (leftBehind size bs + 1) := by
  have hint : intLen bs < 2 ^ 31 := toInt_lt bs.length
  obtain ⟨left, hleft⟩ : ∃ left, left = leftBehind size bs := ⟨_, rfl⟩
  have hlt : left < (bs.drop size).length := by
    rw [List.length_drop, hleft, leftBehind]
    omega
  rw [← hleft] at hn ⊢
  have htake : ((bs.drop size).take left).length = left := by
    rw [List.length_take]
    omega
  refine ⟨[.data (List.replicate n ((bs.drop size)[left] + 1))], ?_, ?_, fun heq => ?_⟩
  · simp only [deliverable_data, deliverable_nil, List.append_nil, List.length_append,
      List.length_replicate]
    omega
  · simp only [deliverable_data, deliverable_nil, List.append_nil, List.length_append,
      List.length_replicate, htake]
    omega
  · have hbyte := congrArg (·[left]?) heq
    simp only [deliverable_data, deliverable_nil, List.append_nil] at hbyte
    rw [List.getElem?_take_of_lt (Nat.lt_succ_self left), List.getElem?_take_of_lt (Nat.lt_succ_self left),
      List.getElem?_append_right htake.le, htake, Nat.sub_self, List.getElem?_append_left hlt,
      List.getElem?_replicate, if_pos (by omega), List.getElem?_eq_getElem hlt] at hbyte
    exact absurd (Option.some.inj hbyte) (by simp)

/-- **The payload of a masked frame is read without its mask**, whatever part of it was buffered,
however the rest arrives and however it is read, exactly if less than 2 GiB are buffered or what is left of
them after the cast has all of the payload. -/
theorem readAll_payload_iff (hc : c.Expecting) (hd : c.dispatchFrame = some d)
    (hmasked : d.wsFrame.masked = true) :
    (∀ es payload rest lens,
        c.ioBuf.data.drop d.wsFrame.headerSize ++ deliverable es = payload ++ rest →
        payload.length = d.wsFrame.payloadLength → (lens : List ℕ).sum ≤ d.wsFrame.payloadLength →
        readAll lens (d.supplied es) = some ((payload.take lens.sum).mapIdx fun i b =>
          b ^^^ d.wsFrame.maskKey.getD (i % 4) 0)) ↔
      c.ioBuf.data.length < 2 ^ 31 ∨
        d.wsFrame.payloadLength ≤ max (toInt c.ioBuf.data.length - d.wsFrame.headerSize) 0 := by
  obtain ⟨hscan, -, -, -, -, -, hbuffered⟩ := dispatchFrame_spec hc hd
  have hmap : ∀ bs, unmask d.wsFrame.maskKey 0 bs =
      bs.mapIdx fun i b => b ^^^ d.wsFrame.maskKey.getD (i % 4) 0 := by
    intro bs
    rw [unmask_eq_mapIdx]
    simp only [Nat.zero_add]
  have hleft : (leftBehind d.wsFrame.headerSize c.ioBuf.data : ℤ) =
      max (toInt c.ioBuf.data.length - d.wsFrame.headerSize) 0 := Int.toNat_eq_max _
  rw [← hleft]
  constructor
  · intro h
    by_contra hnot
    rw [not_or, not_lt, not_le] at hnot
    obtain ⟨hlarge, hlong⟩ := hnot
    obtain ⟨es, hn, hlen, hne⟩ := exists_unread (n := d.wsFrame.payloadLength.toNat)
      (headerSize_lt hscan) hlarge (by omega)
    rw [← hbuffered] at hlen hne
    have hread := h es _ _ [leftBehind d.wsFrame.headerSize c.ioBuf.data + 1]
      (List.take_append_drop d.wsFrame.payloadLength.toNat _).symm
      (by rw [List.length_take]; omega) (by rw [List.sum_singleton]; omega)
    rw [readAll_supplied hc hd hmasked es (by rwa [List.sum_singleton]), List.sum_singleton,
      List.take_take,
      Nat.min_eq_left (by omega), ← hmap] at hread
    exact hne (unmask_injective _ 0 (Option.some.inj hread))
  · intro h es payload rest lens hpayload hlength hlens
    obtain ⟨hle, htake⟩ := take_unread (n := lens.sum) es hpayload (by omega)
      (h.imp_right fun h => by omega)
    rw [← hbuffered] at hle htake
    rw [readAll_supplied hc hd hmasked es hle, htake, hmap]

/-- A WebSocket that has received a piece of a stream. -/
def halfReceived (bs : Bytes) : Connection :=
  { blank (.ready []) with
    flags := { Flags.none with alive := true, websocket := true }
    state := .websocket
    ioBuf := ⟨bs, 3 * 2 ^ 30⟩ }

/-- A text frame of five bytes, masked with the key 1, 2, 3, 4, of which two bytes are buffered. -/
theorem readAll_payload_hello :
    ((halfReceived [129, 133, 1, 2, 3, 4, 105, 103]).dispatchFrame.bind fun d =>
      readAll [1, 0, 3] (d.supplied [.data [111], .again, .data [104, 110, 129]])) =
        some (ascii "hell") := by
  obtain ⟨d, hd⟩ : ∃ d, (halfReceived [129, 133, 1, 2, 3, 4, 105, 103]).dispatchFrame = some d :=
    ⟨_, rfl⟩
  have hframe : d.wsFrame = ⟨true, true, 1, 6, [1, 2, 3, 4], 5⟩ := by
    obtain rfl := Option.some.inj hd
    decide
  have hread := (@readAll_payload_iff _ d ⟨rfl, rfl, rfl⟩ hd (by rw [hframe])).mpr
    (.inl (by decide)) [.data [111], .again, .data [104, 110, 129]] [105, 103, 111, 104, 110] [129]
    [1, 0, 3] (by rw [hframe]; decide) (by rw [hframe]; decide) (by rw [hframe]; decide)
  rw [hd, Option.bind_some, hread, hframe]
  decide

/-- A frame of one byte, masked with zeros. -/
def oneByte : Bytes := [129, 129, 0, 0, 0, 0, 7]

/-- The frame is dispatched, whatever stands behind it. -/
theorem dispatchFrame_oneByte (behind : Bytes) :
    ∃ d, (halfReceived (oneByte ++ behind)).dispatchFrame = some d ∧
      d.wsFrame = ⟨true, true, 1, 6, [0, 0, 0, 0], 1⟩ := by
  have hscan : ∀ frame, wbyScanWebsocketFrame frame (oneByte ++ behind) =
      some ⟨true, true, 1, 6, [0, 0, 0, 0], 1⟩ := by
    intro frame
    have hfin : (129 : UInt8) &&& 128 ≠ 0 := by decide
    have hlen : (129 : UInt8) &&& 127 = 1 := by decide
    have hopcode : (129 : UInt8) &&& 15 = 1 := by decide
    simp [oneByte, wbyScanWebsocketFrame, hfin, hlen, hopcode]
  rw [dispatchFrame]
  dsimp only [halfReceived]
  rw [hscan]
  exact ⟨_, rfl, rfl⟩

/-- The payload is in the buffer, with 2 GiB behind it, and what is read comes from the socket. -/
theorem not_readAll_payload_two_gib :
    ∃ d, (halfReceived (oneByte ++ List.replicate (2 ^ 31) 8)).dispatchFrame = some d ∧
      d.wsFrame = ⟨true, true, 1, 6, [0, 0, 0, 0], 1⟩ ∧
      (oneByte ++ List.replicate (2 ^ 31) 8).drop 6 = [7] ++ List.replicate (2 ^ 31) 8 ∧
      readAll [1] (d.supplied [.data [9]]) ≠ some [7] := by
  have hleft : leftBehind 6 (oneByte ++ List.replicate (2 ^ 31) 8) = 0 := by
    rw [leftBehind, intLen, List.length_append, List.length_replicate]
    decide
  generalize List.replicate (2 ^ 31) (8 : UInt8) = behind at hleft ⊢
  have hc : (halfReceived (oneByte ++ behind)).Expecting := ⟨rfl, rfl, rfl⟩
  obtain ⟨d, hd, hframe⟩ := dispatchFrame_oneByte behind
  obtain ⟨-, -, -, -, -, -, hbuffered⟩ := dispatchFrame_spec hc hd
  rw [hframe, halfReceived, hleft, List.take_zero] at hbuffered
  refine ⟨d, hd, hframe, rfl, ?_⟩
  rw [readAll_supplied hc hd (by rw [hframe]) _ (by rw [hbuffered]; decide), hbuffered, hframe]
  decide

end Frames

end Connection

end Mavicona.Mumux
