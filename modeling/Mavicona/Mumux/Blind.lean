import Mavicona.Mumux.Calls

/-!
# What a response does not look at

Reference: `mumux/connection.c` (`wby_connection_push`), `mumux/request.c` (`wby_write`),
`mumux/response.c`.

A response is written without a look at what was received, or at what is still to be received: every
step of it does the same whatever these are, and leaves them alone.
-/

namespace Mavicona.Mumux

open Bytes

/-! ## The socket -/

/-- A socket with another mode, and other events to come. -/
def receiving (blocking : Bool) (es : List Event) (s : Socket) : Socket :=
  { s with blocking, incoming := es }

section Socket

variable (blocking : Bool) (es : List Event)

theorem send_receiving (bs : Bytes) (s : Socket) :
    (receiving blocking es s).send bs = (s.send bs).map id (receiving blocking es) := by
  obtain ⟨valid, mode, incoming, sent, accepts, modes⟩ := s
  cases valid with
  | false => rfl
  | true => rcases accepts with _ | ⟨_ | k, ks⟩ <;> rfl

theorem sendLoop_receiving (fuel : ℕ) (bs : Bytes) (s : Socket) :
    sendLoop fuel bs (receiving blocking es s) =
      (sendLoop fuel bs s).map id (receiving blocking es) := by
  induction fuel generalizing bs s with
  | zero => cases bs <;> rfl
  | succ fuel ih =>
    cases bs with
    | nil => rfl
    | cons b bs =>
      rw [sendLoop, sendLoop, send_receiving]
      obtain ⟨sent, t⟩ := s.send (b :: bs)
      cases sent with
      | none => rfl
      | some k => exact ih _ t

theorem wbySocketSend_receiving (bs : Bytes) (s : Socket) :
    wbySocketSend bs (receiving blocking es s) =
      (wbySocketSend bs s).map id (receiving blocking es) :=
  sendLoop_receiving blocking es bs.length bs s

theorem wbySocketFlush_receiving (s : Socket) (buf : Buffer) :
    wbySocketFlush (receiving blocking es s) buf =
      (wbySocketFlush s buf).map id (Prod.map (receiving blocking es) id) := by
  rw [wbySocketFlush, wbySocketFlush, wbySocketSend_receiving]
  obtain ⟨sent, t⟩ := wbySocketSend buf.data s
  cases sent <;> rfl

/-- Something was sent, and nothing else happened. -/
def Wrote (s t : Socket) : Prop := t = { s with sent := t.sent, accepts := t.accepts }

theorem Wrote.refl (s : Socket) : Wrote s s := rfl

theorem Wrote.trans {s t u : Socket} (hst : Wrote s t) (htu : Wrote t u) : Wrote s u := by
  rw [Wrote] at *
  rw [hst] at htu
  exact htu

theorem wrote_send (bs : Bytes) (s : Socket) : Wrote s (s.send bs).2 := by
  rw [Socket.send]
  split_ifs
  · split <;> rfl
  · rfl

theorem wrote_sendLoop (fuel : ℕ) (bs : Bytes) (s : Socket) : Wrote s (sendLoop fuel bs s).2 := by
  induction fuel generalizing bs s with
  | zero => cases bs <;> rfl
  | succ fuel ih =>
    cases bs with
    | nil => rfl
    | cons b bs =>
      have hsend := wrote_send (b :: bs) s
      rw [sendLoop]
      generalize s.send (b :: bs) = r at hsend ⊢
      obtain ⟨sent, t⟩ := r
      cases sent with
      | none => exact hsend
      | some k => exact hsend.trans (ih _ t)

theorem wrote_wbySocketFlush (s : Socket) (buf : Buffer) : Wrote s (wbySocketFlush s buf).2.1 := by
  have hsend := wrote_sendLoop buf.data.length buf.data s
  rw [wbySocketFlush, wbySocketSend]
  generalize sendLoop buf.data.length buf.data s = r at hsend ⊢
  obtain ⟨sent, t⟩ := r
  cases sent <;> exact hsend

end Socket

/-! ## The connection -/

/-- What was received and read so far, what is to be received, and whether the connection is alive, and
fresh. -/
structure Input where
  alive : Bool
  fresh : Bool
  headerBuf : Buffer
  headerBodyLeft : ℕ
  ioDataLeft : ℕ
  bodyBytesRead : ℕ
  blockingCount : UInt64
  blocking : Bool
  incoming : List Event

namespace Connection

def input (c : Connection) : Input where
  alive := c.flags.alive
  fresh := c.flags.fresh
  headerBuf := c.headerBuf
  headerBodyLeft := c.headerBodyLeft
  ioDataLeft := c.ioDataLeft
  bodyBytesRead := c.bodyBytesRead
  blockingCount := c.blockingCount
  blocking := c.socket.blocking
  incoming := c.socket.incoming

/-- A connection with another input. -/
def withInput (i : Input) (c : Connection) : Connection :=
  { c with
    flags := { c.flags with alive := i.alive, fresh := i.fresh }
    headerBuf := i.headerBuf
    headerBodyLeft := i.headerBodyLeft
    ioDataLeft := i.ioDataLeft
    bodyBytesRead := i.bodyBytesRead
    blockingCount := i.blockingCount
    socket := receiving i.blocking i.incoming c.socket }

@[simp] theorem withInput_input (c : Connection) : c.withInput c.input = c := rfl

@[simp] theorem input_withInput (i : Input) (c : Connection) : (c.withInput i).input = i := rfl

/-- A step of a response on a connection that is no WebSocket. -/
structure Quiet (f : Connection → Connection) : Prop where
  blind : ∀ i c, c.flags.websocket = false → f (c.withInput i) = (f c).withInput i
  wrote : ∀ c, c.flags.websocket = false → Wrote c.socket (f c).socket
  confined : ∀ c : Connection, c.Confined (f c)

section Quiet

variable {f g : Connection → Connection}

theorem Confined.http {c d : Connection} (h : c.Confined d) (hc : c.flags.websocket = false) :
    d.flags.websocket = false := by
  by_contra hd
  rw [h.websocket (Bool.eq_true_of_not_eq_false hd)] at hc
  exact Bool.false_ne_true hc.symm

/-- What a step of a response does not touch. -/
theorem Quiet.input_eq (h : Quiet f) {c : Connection} (hc : c.flags.websocket = false) :
    (f c).input = c.input := by
  have hblind := h.blind c.input c hc
  rw [withInput_input] at hblind
  rw [hblind, input_withInput]

theorem Quiet.id : Quiet id := ⟨fun _ _ _ => rfl, fun _ _ => rfl, .refl⟩

theorem Quiet.comp (hg : Quiet g) (hf : Quiet f) : Quiet (g ∘ f) where
  blind i c hc := by
    rw [Function.comp_apply, hf.blind i c hc, hg.blind i _ ((hf.confined c).http hc)]
    rfl
  wrote c hc := (hf.wrote c hc).trans (hg.wrote _ ((hf.confined c).http hc))
  confined c := (hf.confined c).trans (hg.confined _)

/-- A step that is made if a condition holds, which does not depend on the input. -/
theorem Quiet.ite (hf : Quiet f) (hg : Quiet g) {p : Connection → Prop} [DecidablePred p]
    (hp : ∀ i c, p (c.withInput i) ↔ p c) : Quiet fun c => if p c then f c else g c where
  blind i c hc := by
    simp only [hp]
    split_ifs
    · exact hf.blind i c hc
    · exact hg.blind i c hc
  wrote c hc := by
    split_ifs
    · exact hf.wrote c hc
    · exact hg.wrote c hc
  confined c := by
    split_ifs
    · exact hf.confined c
    · exact hg.confined c

end Quiet

/-! ### Writing -/

section Write

/-- A choice that does not depend on the input. -/
theorem ite_withInput (i : Input) {p q : Prop} [Decidable p] [Decidable q]
    {x y x' y' : Bool × Connection} (hpq : p = q) (hx : q → x = x'.map id (withInput i))
    (hy : ¬ q → y = y'.map id (withInput i)) :
    ite p x y = Prod.map id (withInput i) (ite q x' y') := by
  rw [apply_ite (Prod.map id (withInput i))]
  exact ite_congr hpq hx hy

theorem pushLoop_withInput (i : Input) (fuel : ℕ) (data : Bytes) (c : Connection) :
    pushLoop fuel data (c.withInput i) = (pushLoop fuel data c).map id (withInput i) := by
  induction fuel generalizing data c with
  | zero => cases data <;> rfl
  | succ fuel ih =>
    cases data with
    | nil => rfl
    | cons b bs =>
      rw [pushLoop.eq_3 _ _ _ (List.cons_ne_nil b bs), pushLoop.eq_3 _ _ _ (List.cons_ne_nil b bs)]
      refine ite_withInput i rfl (fun _ => ?_) fun _ =>
        ih _ { c with ioBuf := ⟨c.ioBuf.data ++ _, c.ioBuf.max⟩ }
      have hflush := wbySocketFlush_receiving i.blocking i.incoming c.socket
        { c.ioBuf with data := c.ioBuf.data ++ (b :: bs).take (c.ioBuf.max - c.ioBuf.data.length) }
      dsimp only [withInput]
      rw [hflush]
      generalize wbySocketFlush c.socket _ = r
      obtain ⟨ok, t, buf⟩ := r
      cases ok with
      | false => rfl
      | true =>
        refine ite_withInput i rfl (fun _ => ?_) fun _ => ih _ { c with socket := t, ioBuf := buf }
        have hsend := wbySocketSend_receiving i.blocking i.incoming
          ((b :: bs).drop (c.ioBuf.max - c.ioBuf.data.length)) t
        dsimp only [Prod.map, id]
        rw [hsend]
        rfl

theorem push_withInput (i : Input) (data : Bytes) (c : Connection) :
    (c.withInput i).push data = (c.push data).map id (withInput i) := by
  rw [push, push]
  refine ite_withInput i rfl (fun _ => rfl) fun _ => ?_
  refine ite_withInput i rfl (fun _ => ?_) fun _ => pushLoop_withInput i _ data c
  dsimp only [withInput]
  rw [wbySocketFlush_receiving]
  rfl

theorem pushInt_withInput (i : Input) (bs : Bytes) (c : Connection) :
    (c.withInput i).pushInt bs = (c.pushInt bs).map id (withInput i) :=
  ite_withInput i rfl (fun _ => rfl) fun _ => push_withInput i _ c

theorem wbyWrite_withInput (i : Input) (bs : Bytes) {c : Connection} (hc : c.flags.websocket = false) :
    (c.withInput i).wbyWrite bs = (c.wbyWrite bs).map id (withInput i) := by
  have hws : ¬ c.flags.websocket = true := by simp [hc]
  refine ite_withInput i rfl (fun h => absurd h hws) fun _ => ?_
  refine ite_withInput i rfl (fun _ => ?_) fun _ => pushInt_withInput i bs c
  rw [push_withInput]
  dsimp only [Prod.map]
  rw [pushInt_withInput]
  exact push_withInput i crlf _

theorem wrote_pushLoop (fuel : ℕ) (data : Bytes) (c : Connection) :
    Wrote c.socket (pushLoop fuel data c).2.socket := by
  induction fuel generalizing data c with
  | zero => cases data <;> rfl
  | succ fuel ih =>
    cases data with
    | nil => rfl
    | cons b bs =>
      rw [pushLoop.eq_3 _ _ _ (List.cons_ne_nil b bs)]
      dsimp only
      split_ifs
      · have hflush := wrote_wbySocketFlush c.socket
          ⟨c.ioBuf.data ++ (b :: bs).take (c.ioBuf.max - c.ioBuf.data.length), c.ioBuf.max⟩
        generalize wbySocketFlush c.socket _ = r at hflush ⊢
        obtain ⟨ok, t, buf⟩ := r
        cases ok with
        | false => exact hflush
        | true =>
          dsimp only
          split_ifs
          · exact hflush.trans (wrote_sendLoop _ _ t)
          · exact hflush.trans (ih _ { c with socket := t, ioBuf := buf })
      · exact ih _ { c with ioBuf := ⟨c.ioBuf.data ++ _, c.ioBuf.max⟩ }

theorem wrote_push (data : Bytes) (c : Connection) : Wrote c.socket (c.push data).2.socket := by
  rw [push]
  split_ifs
  · exact .refl _
  · exact wrote_wbySocketFlush c.socket c.ioBuf
  · exact wrote_pushLoop _ data c

theorem wrote_pushInt (bs : Bytes) (c : Connection) : Wrote c.socket (c.pushInt bs).2.socket := by
  rw [pushInt]
  split_ifs
  · exact .refl _
  · exact wrote_push _ c

theorem quiet_push (data : Bytes) : Quiet fun c => (c.push data).2 where
  blind i c _ := congrArg Prod.snd (push_withInput i data c)
  wrote c _ := wrote_push data c
  confined := confined_push data

theorem quiet_wbyWrite (bs : Bytes) : Quiet fun c => (c.wbyWrite bs).2 where
  blind i _ hc := congrArg Prod.snd (wbyWrite_withInput i bs hc)
  wrote c hc := by
    have hws : ¬ c.flags.websocket = true := by simp [hc]
    rw [wbyWrite, if_neg hws]
    split_ifs
    · exact ((wrote_push _ c).trans (wrote_pushInt bs _)).trans (wrote_push crlf _)
    · exact wrote_pushInt bs c
  confined := confined_wbyWrite bs

end Write

/-! ### Responses -/

section Response

variable (env : Env)

theorem quiet_wbyPrintf (text : Bytes) : Quiet fun c => c.wbyPrintf env text := quiet_wbyWrite _

theorem quiet_markClose (close : Bool) : Quiet (markClose close) :=
  ⟨fun _ _ _ => rfl, fun _ _ => rfl, confined_markClose close⟩

theorem quiet_responseHeaders (headers : List Header) : Quiet (responseHeaders env headers) := by
  induction headers with
  | nil => exact .id
  | cons h hs ih => exact ih.comp ((quiet_wbyPrintf env (headerLine h)).comp (quiet_markClose h.closes))

theorem quiet_responseClose : Quiet (responseClose env) :=
  ((quiet_wbyPrintf env _).comp (quiet_markClose true)).ite .id fun _ _ => Iff.rfl

/-- The mark that a response is sent in chunks. -/
theorem quiet_chunked (chunked : Bool) :
    Quiet fun c => { c with flags := { c.flags with chunkedResponse := chunked } } :=
  ⟨fun _ _ _ => rfl, fun _ _ => rfl, fun _ => confined_of_eq rfl rfl rfl⟩

theorem quiet_markChunked (contentLength : ℤ) : Quiet (markChunked contentLength) :=
  Quiet.ite (p := fun _ => contentLength < 0) (quiet_chunked true) .id fun _ _ => Iff.rfl

theorem quiet_responseHead (status contentLength : ℤ) (headers : List Header) :
    Quiet (responseHead env status contentLength headers) :=
  (quiet_markChunked contentLength).comp ((quiet_wbyPrintf env crlf).comp
    ((quiet_responseClose env).comp ((quiet_responseHeaders env headers).comp
      ((quiet_wbyPrintf env _).comp ((quiet_wbyPrintf env _).comp (quiet_wbyPrintf env _))))))

theorem quiet_endChunks : Quiet endChunks :=
  Quiet.ite (p := fun c => c.flags.chunkedResponse = true)
    ((quiet_chunked false).comp (quiet_push lastChunk)) .id fun _ _ => Iff.rfl

/-- What `wby_response_end` sends. -/
theorem quiet_flushChunks : Quiet fun c => (c.endChunks.push []).2 :=
  (quiet_push []).comp quiet_endChunks

end Response

end Connection

end Mavicona.Mumux
