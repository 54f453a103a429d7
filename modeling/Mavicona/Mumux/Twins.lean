import Mavicona.Mumux.Blind

/-!
# Two connections that receive the same bytes

Reference: `mumux/request.c` (`wby_read`, `wby_con_discard_incoming_data`), `mumux/response.c`
(`wby_response_begin`, `wby_response_end`), `mumux/server.c` (`wby_update_connection`, the state SERVE).

While a request is served, two connections may differ in what was received already and what is still to
come, as long as both together are the same bytes. No call of a callback tells them apart: reads are
answered from the buffer first and from the socket then, and everything else does not look at either.
`twins_run` says so of a whole callback, `twins_serve` of a request.
-/

namespace Mavicona.Mumux

open Bytes Socket

/-! ## A connection that is served -/

/-- No more is buffered than is left of the body, and the socket waits. -/
structure Input.Serves (contentLength : ℤ) (i : Input) : Prop where
  count : i.blockingCount = 1
  blocking : i.blocking = true
  io : i.ioDataLeft = 0
  header : Connection.Holds i.headerBodyLeft i.headerBuf.data
  body : i.headerBodyLeft ≤ (contentLength - i.bodyBytesRead).toNat
  fails : fails i.incoming = false

namespace Connection

/-- A request is served. The connection is closed early only if the request has no body, and its mode
can be changed back. -/
structure Serving (c : Connection) : Prop where
  state : c.state = .serve
  http : c.flags.websocket = false
  input : c.input.Serves c.request.contentLength
  valid : c.socket.valid = c.flags.alive
  modes : ∀ m ∈ c.socket.modes, m = true
  closed : c.flags.alive = false → c.request.contentLength = 0

section Serving

variable {c d : Connection} {f : Connection → Connection} {len n fuel : ℕ}

theorem Serving.inside (h : c.Serving) : c.Inside where
  header := h.input.header
  io := by
    have hio : c.ioDataLeft = 0 := h.input.io
    rw [hio]
    exact holds_zero _

theorem Serving.buffered_eq (h : c.Serving) :
    c.buffered = lastBytes c.headerBodyLeft c.headerBuf.data := by
  have hio : c.ioDataLeft = 0 := h.input.io
  rw [buffered, hio, lastBytes_zero, List.append_nil]

theorem Serving.length_buffered (h : c.Serving) : c.buffered.length = c.headerBodyLeft := by
  rw [h.buffered_eq, length_lastBytes h.inside.header]

theorem Quiet.serving (hf : Quiet f) (h : c.Serving) : (f c).Serving := by
  have hinput := hf.input_eq h.http
  have halive : (f c).flags.alive = c.flags.alive := congrArg Input.alive hinput
  have hrequest := (hf.confined c).request
  have hwrote := hf.wrote c h.http
  refine ⟨(hf.confined c).state.trans h.state, (hf.confined c).http h.http, ?_, ?_, ?_, ?_⟩
  · rw [hinput, hrequest]
    exact h.input
  · rw [hwrote, halive]
    exact h.valid
  · rw [hwrote]
    exact h.modes
  · rw [halive, hrequest]
    exact h.closed

/-! ### Reading -/

theorem ioDataLeft_wbyRead_le (len : ℕ) (c : Connection) :
    (c.wbyRead len).conn.ioDataLeft ≤ c.ioDataLeft := by
  have hbuffers : (c.readBuffers len).2.ioDataLeft ≤ c.ioDataLeft := Nat.sub_le _ _
  generalize hloop : readLoop (len - (c.readBuffers len).1.length)
    (len - (c.readBuffers len).1.length) c.socket = r
  obtain ⟨ok, got, s⟩ := r
  rw [wbyRead_eq hloop]
  rcases ok with _ | _ | _ <;> exact hbuffers

theorem ioDataLeft_discardLoop_le (fuel n : ℕ) (c : Connection) :
    (discardLoop fuel n c).conn.ioDataLeft ≤ c.ioDataLeft := by
  induction fuel generalizing n c with
  | zero => cases n <;> exact le_rfl
  | succ fuel ih =>
    cases n with
    | zero => exact le_rfl
    | succ n =>
      have hread := ioDataLeft_wbyRead_le (min (n + 1) 1024) c
      rw [discardLoop]
      generalize c.wbyRead (min (n + 1) 1024) = r at hread ⊢
      obtain ⟨_ | ⟨_ | _, got⟩, d⟩ := r
      · exact hread
      · exact hread
      · exact (ih _ d).trans hread

/-- The next bytes were read, from the header section on. -/
theorem Serving.readTo (h : c.Serving) (hcd : c.ReadTo n d) (hio : d.ioDataLeft ≤ c.ioDataLeft) :
    d.Serving := by
  have hframe := hcd.received
  have hzero : c.ioDataLeft = 0 := h.input.io
  have hio' : d.ioDataLeft = 0 := by omega
  have hbuf : d.headerBuf = c.headerBuf := by rw [hframe]
  have hrequest : d.request = c.request := by rw [hframe]
  have hleft : d.headerBodyLeft = c.headerBodyLeft - n := by
    have hlen := congrArg List.length hcd.buffered
    rw [List.length_drop, h.length_buffered, buffered, List.length_append,
      length_lastBytes hcd.inside.header, length_lastBytes hcd.inside.io, hio'] at hlen
    exact hlen
  have hbody : c.headerBodyLeft ≤ (c.request.contentLength - c.bodyBytesRead).toNat := h.input.body
  have hstate : d.state = c.state := by rw [hframe]
  have hhttp : d.flags.websocket = c.flags.websocket := by rw [hframe]
  have hcount : d.blockingCount = c.blockingCount := by rw [hframe]
  refine ⟨hstate.trans h.state, hhttp.trans h.http, ⟨hcount.trans h.input.count,
    hcd.blocking_eq.trans h.input.blocking, hio', hcd.inside.header, ?_,
    hcd.rest.fails_eq.trans h.input.fails⟩, ?_, ?_, ?_⟩
  · show d.headerBodyLeft ≤ (d.request.contentLength - d.bodyBytesRead).toNat
    rw [hleft, hrequest, hcd.count]
    omega
  · rw [hcd.valid_eq, hcd.alive]
    exact h.valid
  · rw [hframe]
    exact h.modes
  · rw [hcd.alive, hrequest]
    exact h.closed

/-- Nothing is left to be read from a connection that was closed. -/
theorem Serving.wbyRead_closed (h : c.Serving) (hclosed : c.flags.alive = false) (len : ℕ) :
    c.wbyRead len = ⟨some (decide (len = 0), []), c⟩ := by
  have hlength := h.closed hclosed
  have hleft : c.headerBodyLeft = 0 := by
    have hbody : c.headerBodyLeft ≤ (c.request.contentLength - c.bodyBytesRead).toNat := h.input.body
    omega
  have hio : c.ioDataLeft = 0 := h.input.io
  have heta : ∀ k l, k = c.headerBodyLeft → l = c.ioDataLeft →
      { c with headerBodyLeft := k, ioDataLeft := l } = c := by
    rintro _ _ rfl rfl
    rfl
  have hbuffers : c.readBuffers len = ([], c) := by
    simp only [readBuffers, readBuffered, hleft, hio, Nat.min_zero, List.take_zero, List.append_nil,
      List.length_nil, Nat.sub_zero]
    rw [heta 0 0 hleft.symm hio.symm]
  have hvalid : ¬ c.socket.valid = true := by simp [h.valid, hclosed]
  have hkill : c.kill = c := by
    rw [kill, ← hclosed]
  cases len with
  | zero =>
    rw [wbyRead, hbuffers]
    simp [readLoop, endRead, clear, Masked, h.http]
  | succ len =>
    have hrecv : c.socket.recv (len + 1) = (.error, c.socket) := by rw [recv, if_neg hvalid]
    rw [wbyRead, hbuffers]
    simp [readLoop, hrecv, endRead, hkill]

end Serving

/-! ## Two connections -/

/-- Two connections agree in everything but their inputs. -/
def Same (c d : Connection) : Prop := d = c.withInput d.input

section Same

variable {c d e : Connection} {f : Connection → Connection}

theorem Same.refl (c : Connection) : c.Same c := rfl

theorem Same.symm (h : c.Same d) : d.Same c := by
  rw [Same, h]
  rfl

theorem Same.trans (hcd : c.Same d) (hde : d.Same e) : c.Same e := by
  rw [Same, hde, hcd]
  rfl

theorem Received.same (h : c.Received d) : c.Same d := by
  rw [Same, h]
  rfl

/-- Something was read on both. -/
theorem Same.received {c' d' : Connection} (h : c.Same d) (hc : c.Received c') (hd : d.Received d') :
    c'.Same d' := (hc.same.symm.trans h).trans hd.same

theorem Same.request_eq (h : c.Same d) : d.request = c.request := by rw [h]; rfl

theorem Quiet.same (hf : Quiet f) (h : c.Same d) (hc : c.flags.websocket = false) :
    (f c).Same (f d) := by
  have hd : f d = (f c).withInput d.input := by
    rw [← hf.blind d.input c hc, ← h]
  rw [Same, hd]
  rfl

end Same

/-- Two connections that are served, and have the same bytes left to read. -/
structure Twins (c d : Connection) : Prop where
  left : c.Serving
  right : d.Serving
  same : c.Same d
  alive : d.flags.alive = c.flags.alive
  count : d.bodyBytesRead = c.bodyBytesRead
  unread : d.unread = c.unread
  ends : ends d.socket.incoming = ends c.socket.incoming

section Twins

variable {c d : Connection} {f : Connection → Connection} {len n : ℕ} {env : Env}

theorem Twins.symm (h : c.Twins d) : d.Twins c where
  left := h.right
  right := h.left
  same := h.same.symm
  alive := h.alive.symm
  count := h.count.symm
  unread := h.unread.symm
  ends := h.ends.symm

/-- What is unread is part of the input. -/
theorem Quiet.unread_eq (hf : Quiet f) (h : c.Serving) : (f c).unread = c.unread := by
  have hinput := hf.input_eq h.http
  have hleft : (f c).headerBodyLeft = c.headerBodyLeft := congrArg Input.headerBodyLeft hinput
  have hbuf : (f c).headerBuf = c.headerBuf := congrArg Input.headerBuf hinput
  have hincoming : (f c).socket.incoming = c.socket.incoming := congrArg Input.incoming hinput
  rw [Connection.unread, Connection.unread, (hf.serving h).buffered_eq, h.buffered_eq, hleft, hbuf,
    hincoming]

theorem Twins.quiet (h : c.Twins d) (hf : Quiet f) : (f c).Twins (f d) := by
  have hc := hf.input_eq h.left.http
  have hd := hf.input_eq h.right.http
  refine ⟨hf.serving h.left, hf.serving h.right, hf.same h.same h.left.http, ?_, ?_, ?_, ?_⟩
  · exact (congrArg Input.alive hd).trans (h.alive.trans (congrArg Input.alive hc).symm)
  · exact (congrArg Input.bodyBytesRead hd).trans
      (h.count.trans (congrArg Input.bodyBytesRead hc).symm)
  · rw [hf.unread_eq h.left, hf.unread_eq h.right, h.unread]
  · have hc' : (f c).socket.incoming = c.socket.incoming := congrArg Input.incoming hc
    have hd' : (f d).socket.incoming = d.socket.incoming := congrArg Input.incoming hd
    rw [hc', hd', h.ends]

/-- The next bytes were read on both. -/
theorem Twins.readTo {c' d' : Connection} (h : c.Twins d) (hc : c.ReadTo n c') (hd : d.ReadTo n d')
    (hioc : c'.ioDataLeft ≤ c.ioDataLeft) (hiod : d'.ioDataLeft ≤ d.ioDataLeft) : c'.Twins d' where
  left := h.left.readTo hc hioc
  right := h.right.readTo hd hiod
  same := h.same.received hc.received hd.received
  alive := by rw [hd.alive, hc.alive, h.alive]
  count := by rw [hd.count, hc.count, h.count]
  unread := by rw [hd.unread, hc.unread, h.unread]
  ends := by rw [hd.rest.ends_eq, hc.rest.ends_eq, h.ends]

end Twins

/-! ## Calls -/

/-- Two calls give the same value back and lead to connections in a relation, or both never return. -/
def Agree {α : Type} (P : Connection → Connection → Prop) (o o' : Outcome α) : Prop :=
  (o.value = none ∧ o'.value = none ∧ o.conn.Same o'.conn) ∨
    ∃ a c d, o = ⟨some a, c⟩ ∧ o' = ⟨some a, d⟩ ∧ P c d

section Calls

variable {c d : Connection} {len n : ℕ} {env : Env} {α : Type} {P Q : Connection → Connection → Prop}
  {o o' : Outcome α}

theorem Agree.mono (h : Agree P o o') (hPQ : ∀ c d, P c d → Q c d) : Agree Q o o' := by
  rcases h with h | ⟨a, c, d, hc, hd, hP⟩
  · exact .inl h
  · exact .inr ⟨a, c, d, hc, hd, hPQ c d hP⟩

theorem agree_of_stuck (ho : o.value = none) (ho' : o'.value = none) (h : o.conn.Same o'.conn) :
    Agree P o o' := .inl ⟨ho, ho', h⟩

theorem agree_of_some (a : α) (h : P c d) : Agree P ⟨some a, c⟩ ⟨some a, d⟩ :=
  .inr ⟨a, c, d, rfl, rfl, h⟩

theorem Serving.clear_eq (h : c.Serving) (bs : Bytes) : c.clear bs = bs := by
  rw [clear, if_neg]
  rintro ⟨hws, -⟩
  rw [h.http] at hws
  exact Bool.false_ne_true hws

/-- `wby_read` gives the same bytes on both. -/
theorem agree_wbyRead (h : c.Twins d) (len : ℕ) :
    Agree (fun c' d' => c'.Twins d' ∧ c.bodyBytesRead ≤ c'.bodyBytesRead)
      (c.wbyRead len) (d.wbyRead len) := by
  cases halive : c.flags.alive with
  | false =>
    rw [h.left.wbyRead_closed halive, h.right.wbyRead_closed (h.alive.trans halive)]
    exact agree_of_some _ ⟨h, le_rfl⟩
  | true =>
    have hvalid : c.socket.valid = true := h.left.valid.trans halive
    have hvalid' : d.socket.valid = true := h.right.valid.trans (h.alive.trans halive)
    have hunread := congrArg List.length h.unread
    by_cases hlen : len ≤ c.unread.length
    · obtain ⟨c', hread, hc'⟩ := wbyRead_of_le h.left.inside hvalid h.left.input.blocking hlen
      obtain ⟨d', hread', hd'⟩ := wbyRead_of_le h.right.inside hvalid' h.right.input.blocking
        (hlen.trans_eq hunread.symm)
      have hio := ioDataLeft_wbyRead_le len c
      have hio' := ioDataLeft_wbyRead_le len d
      rw [hread] at hio
      rw [hread'] at hio'
      rw [hread, hread', h.left.clear_eq, h.right.clear_eq, h.unread]
      exact agree_of_some _ ⟨h.readTo hc' hd' hio hio', hc'.count.ge.trans' (Nat.le_add_right _ _)⟩
    · rw [not_le] at hlen
      exact agree_of_stuck
        (wbyRead_stuck h.left.inside hvalid h.left.input.blocking h.left.input.fails hlen)
        (wbyRead_stuck h.right.inside hvalid' h.right.input.blocking h.right.input.fails
          (hunread.trans_lt hlen))
        (h.same.received (received_wbyRead len c) (received_wbyRead len d))

/-- The rest of a body is discarded on both. -/
theorem agree_discardLoop (h : c.Twins d) (halive : c.flags.alive = true) (n : ℕ) :
    ((discardLoop n n c).value = none ∧ (discardLoop n n d).value = none ∧
      (discardLoop n n c).conn.Same (discardLoop n n d).conn) ∨
      ∃ c' d', discardLoop n n c = ⟨some true, c'⟩ ∧ discardLoop n n d = ⟨some true, d'⟩ ∧
        c'.Twins d' ∧ c'.bodyBytesRead = c.bodyBytesRead + n ∧ c'.request = c.request := by
  have hvalid : c.socket.valid = true := h.left.valid.trans halive
  have hvalid' : d.socket.valid = true := h.right.valid.trans (h.alive.trans halive)
  have hunread := congrArg List.length h.unread
  by_cases hlen : n ≤ c.unread.length
  · obtain ⟨c', hread, hc'⟩ :=
      discardLoop_of_le h.left.inside hvalid h.left.input.blocking (le_refl n) hlen
    obtain ⟨d', hread', hd'⟩ := discardLoop_of_le h.right.inside hvalid' h.right.input.blocking
      (le_refl n) (hlen.trans_eq hunread.symm)
    have hio := ioDataLeft_discardLoop_le n n c
    have hio' := ioDataLeft_discardLoop_le n n d
    rw [hread] at hio
    rw [hread'] at hio'
    exact .inr ⟨c', d', hread, hread', h.readTo hc' hd' hio hio', hc'.count,
      hc'.received.same.request_eq⟩
  · rw [not_le] at hlen
    exact .inl ⟨discardLoop_stuck h.left.inside hvalid h.left.input.blocking h.left.input.fails hlen,
      discardLoop_stuck h.right.inside hvalid' h.right.input.blocking h.right.input.fails
        (hunread.trans_lt hlen), h.same.received (received_discardLoop n n c)
          (received_discardLoop n n d)⟩

/-- The body of the request was read. -/
def Consumed (c : Connection) : Prop := c.request.contentLength ≤ c.bodyBytesRead

theorem Quiet.bodyBytesRead_eq {f : Connection → Connection} (hf : Quiet f) (h : c.Serving) :
    (f c).bodyBytesRead = c.bodyBytesRead := congrArg Input.bodyBytesRead (hf.input_eq h.http)

theorem Quiet.consumed {f : Connection → Connection} (hf : Quiet f) (h : c.Serving)
    (hc : c.Consumed) : (f c).Consumed := by
  rw [Consumed, hf.bodyBytesRead_eq h, (hf.confined c).request]
  exact hc

/-- `wby_response_begin` reads the rest of the body. -/
theorem agree_responseBegin (h : c.Twins d) (env : Env) (status contentLength : ℤ)
    (headers : List Header) :
    Agree (fun c' d' => c'.Twins d' ∧ c.bodyBytesRead ≤ c'.bodyBytesRead ∧ c'.Consumed)
      (c.responseBegin env status contentLength headers)
      (d.responseBegin env status contentLength headers) := by
  have hhead := quiet_responseHead env status contentLength headers
  rw [responseBegin, responseBegin, h.same.request_eq, h.count]
  by_cases hrest : c.bodyBytesRead < c.request.contentLength
  · rw [if_pos hrest, if_pos hrest, wbyConDiscardIncomingData, wbyConDiscardIncomingData]
    have halive : c.flags.alive = true := by
      by_contra hdead
      have := h.left.closed (Bool.eq_false_of_not_eq_true hdead)
      omega
    rcases agree_discardLoop h halive (c.request.contentLength - c.bodyBytesRead).toNat with
      ⟨hstuck, hstuck', hsame⟩ | ⟨c', d', hloop, hloop', htwins, hcount, hrequest⟩
    · generalize discardLoop _ _ c = o at hstuck hsame ⊢
      generalize discardLoop _ _ d = o' at hstuck' hsame ⊢
      obtain ⟨value, c'⟩ := o
      obtain ⟨value', d'⟩ := o'
      obtain rfl : value = none := hstuck
      obtain rfl : value' = none := hstuck'
      exact agree_of_stuck rfl rfl hsame
    · rw [hloop, hloop']
      have hconsumed : c'.Consumed := by
        rw [Consumed, hrequest, hcount]
        omega
      refine agree_of_some true ⟨htwins.quiet hhead, ?_, hhead.consumed htwins.left hconsumed⟩
      rw [hhead.bodyBytesRead_eq htwins.left, hcount]
      exact Nat.le_add_right _ _
  · rw [if_neg hrest, if_neg hrest]
    refine agree_of_some true ⟨h.quiet hhead, (hhead.bodyBytesRead_eq h.left).ge, ?_⟩
    exact hhead.consumed h.left (not_lt.mp hrest)

theorem Serving.close (h : c.Serving) (hlength : c.request.contentLength = 0) : c.close.Serving where
  state := h.state
  http := rfl
  input := ⟨h.input.count, h.input.blocking, h.input.io, h.input.header, h.input.body, h.input.fails⟩
  valid := rfl
  modes := h.modes
  closed := fun _ => hlength

/-- A request without a body is closed at its end. -/
theorem Twins.close (h : c.Twins d) (hlength : c.request.contentLength = 0) :
    c.close.Twins d.close where
  left := h.left.close hlength
  right := h.right.close (by rw [h.same.request_eq, hlength])
  same := by
    rw [Same, h.same]
    rfl
  alive := rfl
  count := h.count
  unread := h.unread
  ends := h.ends

theorem responseEnd_eq (c : Connection) : c.responseEnd =
    if (c.endChunks.push []).2.request.contentLength = 0 then (c.endChunks.push []).2.close
    else (c.endChunks.push []).2 := rfl

theorem Twins.responseEnd (h : c.Twins d) :
    c.responseEnd.Twins d.responseEnd ∧ c.responseEnd.bodyBytesRead = c.bodyBytesRead := by
  have hflush : (c.endChunks.push []).2.Twins (d.endChunks.push []).2 := h.quiet quiet_flushChunks
  have hcount : (c.endChunks.push []).2.bodyBytesRead = c.bodyBytesRead :=
    quiet_flushChunks.bodyBytesRead_eq h.left
  rw [responseEnd_eq, responseEnd_eq, hflush.same.request_eq]
  by_cases hlength : (c.endChunks.push []).2.request.contentLength = 0
  · rw [if_pos hlength, if_pos hlength]
    exact ⟨hflush.close hlength, hcount⟩
  · rw [if_neg hlength, if_neg hlength]
    exact ⟨hflush, hcount⟩

end Calls

end Connection

/-! ## Callbacks -/

/-- A call that belongs to a response. -/
def Call.Http : Call → Prop
  | .frameBegin _ | .frameEnd => False
  | _ => True

/-- The call that begins a response, which reads the rest of the body. -/
def Call.Begins : Call → Prop
  | .responseBegin .. => True
  | _ => False

/-- A callback makes no frames, and does not return 0 without having begun a response. -/
def Prog.Responds : Prop → Prog → Prop
  | begun, .done ok => ok = true → begun
  | begun, .call k next => k.Http ∧ ∀ r, (next r).Responds (begun ∨ k.Begins)

/-- Two runs of callbacks return the same, note the same and send the same, and what they lead to is in
a relation if they return. -/
structure Ran.Alike (P : Bool → Connection → Connection → Prop) (ran ran' : Ran) : Prop where
  value : ran.value = ran'.value
  notes : ran.notes = ran'.notes
  same : ran.conn.Same ran'.conn
  conn : ∀ ok, ran.value = some ok → P ok ran.conn ran'.conn

section Callbacks

open Connection

variable {c d : Connection} {env : Env} {P Q : Bool → Connection → Connection → Prop}

theorem agree_perform (h : c.Twins d) (env : Env) {k : Call} (hk : k.Http) :
    Agree (fun c' d' => c'.Twins d' ∧ c.bodyBytesRead ≤ c'.bodyBytesRead ∧ (k.Begins → c'.Consumed))
      (k.perform env c) (k.perform env d) := by
  cases k with
  | read len =>
    rw [Call.perform, Call.perform]
    rcases agree_wbyRead h len with
      ⟨hstuck, hstuck', hsame⟩ | ⟨r, c', d', hread, hread', htwins, hcount⟩
    · exact agree_of_stuck (by dsimp only; rw [hstuck]; rfl) (by dsimp only; rw [hstuck']; rfl) hsame
    · rw [hread, hread']
      exact agree_of_some _ ⟨htwins, hcount, False.elim⟩
  | write bs =>
    have hwrite := quiet_wbyWrite bs
    have hvalue : (d.wbyWrite bs).1 = (c.wbyWrite bs).1 := by
      rw [h.same, wbyWrite_withInput _ _ h.left.http]
      rfl
    rw [Call.perform, Call.perform, Outcome.returned, Outcome.returned, hvalue]
    exact agree_of_some _ ⟨h.quiet hwrite, (hwrite.bodyBytesRead_eq h.left).ge, False.elim⟩
  | responseBegin status contentLength headers =>
    rw [Call.perform, Call.perform]
    rcases agree_responseBegin h env status contentLength headers with
      ⟨hstuck, hstuck', hsame⟩ | ⟨r, c', d', hbegin, hbegin', htwins, hcount, hconsumed⟩
    · exact agree_of_stuck (by dsimp only; rw [hstuck]; rfl) (by dsimp only; rw [hstuck']; rfl) hsame
    · rw [hbegin, hbegin']
      exact agree_of_some _ ⟨htwins, hcount, fun _ => hconsumed⟩
  | responseEnd => exact agree_of_some _ ⟨h.responseEnd.1, h.responseEnd.2.ge, False.elim⟩
  | frameBegin => exact hk.elim
  | frameEnd => exact hk.elim

/-- **A callback cannot tell the two apart.** -/
theorem twins_run {p : Prog} {begun : Prop} (hp : p.Responds begun) (h : c.Twins d)
    (hbegun : begun → c.Consumed) :
    (p.run env c).Alike (fun ok c' d' => c'.Twins d' ∧ (ok = true → c'.Consumed)) (p.run env d) := by
  induction p generalizing begun c d with
  | done ok =>
    refine ⟨rfl, rfl, h.same, fun ok' hok => ⟨h, fun htrue => hbegun (hp ?_)⟩⟩
    rw [← htrue]
    exact Option.some.inj hok
  | call k next ih =>
    obtain ⟨hk, hnext⟩ := hp
    rw [Prog.run, Prog.run]
    have hrequest := (confined_perform env k c).request
    rcases agree_perform h env hk with
      ⟨hstuck, hstuck', hsame⟩ | ⟨r, c', d', hcall, hcall', htwins, hcount, hbegins⟩
    · generalize k.perform env c = o at hstuck hsame ⊢
      generalize k.perform env d = o' at hstuck' hsame ⊢
      obtain ⟨value, c'⟩ := o
      obtain ⟨value', d'⟩ := o'
      obtain rfl : value = none := hstuck
      obtain rfl : value' = none := hstuck'
      exact ⟨rfl, rfl, hsame, fun _ hok => absurd hok.symm (Option.some_ne_none _)⟩
    · rw [hcall] at hrequest
      rw [hcall, hcall']
      have hconsumed : begun ∨ k.Begins → c'.Consumed := by
        rintro (hb | hb)
        · have hc := hbegun hb
          rw [Consumed] at hc ⊢
          rw [hrequest]
          omega
        · exact hbegins hb
      obtain ⟨hvalue, hnotes, hsame, hconn⟩ := ih r (hnext r) htwins hconsumed
      exact ⟨hvalue, by dsimp only; rw [hnotes], hsame, hconn⟩

theorem Ran.Alike.noted {ran ran' : Ran} (h : ran.Alike P ran') (n : Note) :
    (ran.noted n).Alike P (ran'.noted n) :=
  ⟨h.value, congrArg (n :: ·) h.notes, h.same, h.conn⟩

/-- What follows two callbacks that were alike. -/
theorem Ran.Alike.andThen {ran ran' : Ran} {f : Bool → Connection → Ran} (h : ran.Alike P ran')
    (hf : ∀ ok c d, P ok c d → (f ok c).Alike Q (f ok d)) :
    (ran.andThen f).Alike Q (ran'.andThen f) := by
  have hvalue := h.value
  have hconn := h.conn
  rw [Ran.andThen, Ran.andThen, ← hvalue, ← h.notes]
  cases hran : ran.value with
  | none =>
    exact ⟨hvalue, h.notes, h.same, fun ok hok =>
      absurd (hran.symm.trans hok).symm (Option.some_ne_none _)⟩
  | some ok =>
    obtain ⟨hvalue', hnotes', hsame', hconn'⟩ := hf ok _ _ (hconn ok hran)
    exact ⟨hvalue', by dsimp only; rw [hnotes'], hsame', hconn'⟩

/-- A response with an error is the same on both. -/
theorem alike_refuse (h : c.Twins d) (env : Env) (status : ℤ) (headers : List Header) (text : Bytes) :
    (c.refuse env status headers text).Alike (fun _ c' d' => c'.Twins d' ∧ c'.Consumed)
      (d.refuse env status headers text) := by
  rw [refuse, refuse]
  rcases agree_responseBegin h env status (-1) headers with
    ⟨hstuck, hstuck', hsame⟩ | ⟨r, c', d', hbegin, hbegin', htwins, -, hconsumed⟩
  · generalize c.responseBegin env status (-1) headers = o at hstuck hsame ⊢
    generalize d.responseBegin env status (-1) headers = o' at hstuck' hsame ⊢
    obtain ⟨value, c'⟩ := o
    obtain ⟨value', d'⟩ := o'
    obtain rfl : value = none := hstuck
    obtain rfl : value' = none := hstuck'
    exact ⟨rfl, rfl, hsame, fun _ hok => absurd hok.symm (Option.some_ne_none _)⟩
  · rw [hbegin, hbegin']
    have hprint := quiet_wbyPrintf env text
    have hend := (htwins.quiet hprint).responseEnd
    have hprinted := hprint.consumed htwins.left hconsumed
    refine ⟨rfl, rfl, hend.1.same, fun _ _ => ⟨hend.1, ?_⟩⟩
    rw [Consumed, hend.2, (confined_responseEnd _).request]
    exact hprinted

/-- **A request is served alike on both.** -/
theorem alike_serveRequest (h : c.Twins d) (env : Env) {cb : Callbacks}
    (hcb : ∀ r, (cb.dispatch r).Responds False) :
    (c.serveRequest env cb).Alike (fun _ c' d' => c'.Twins d' ∧ c'.Consumed)
      (d.serveRequest env cb) := by
  rw [serveRequest, serveRequest, h.same.request_eq]
  refine Ran.Alike.noted (Ran.Alike.andThen (twins_run (hcb _) h False.elim) ?_) _
  rintro ok c' d' ⟨htwins, hconsumed⟩
  cases ok with
  | false =>
    rw [if_neg Bool.false_ne_true, if_neg Bool.false_ne_true, notFound, notFound,
      htwins.same.request_eq]
    exact alike_refuse htwins env _ _ _
  | true =>
    rw [if_pos rfl, if_pos rfl]
    exact ⟨rfl, rfl, htwins.same, fun _ _ => ⟨htwins, hconsumed rfl⟩⟩

end Callbacks

end Mavicona.Mumux
