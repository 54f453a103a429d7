import Mavicona.Mumux.Twins

/-!
# Rounds on two connections

Reference: `mumux/server.c` (`wby_update_connection`), `mumux/socket.c` (`wby_socket_recv`).

Two connections get the same bytes, in other pieces, and at other times. A round of the loop either
waits for more, or comes to the same on both (`Turn.Alike`): the header section is found by the size
that it has in the stream, the header that is expected is sent, and the request is served.

This needs that a request is `Whole`: what arrives together with the end of a header section belongs to
the body of that request, and the stream does not end at once. Otherwise the pieces do matter. The bytes
of a next request that are in the buffer already are lost when it is cleared, and a request is lost if
the end of the stream is met in the same call of `wby_socket_recv` as the end of its header section.
-/

namespace Mavicona.Mumux

open Bytes Socket

/-! ## Filling a buffer -/

/-- What `wby_socket_recv` does with a socket that does not wait. -/
structure Filled (s : Socket) (buf : Buffer) (fill : Fill) (t : Socket) (buf' : Buffer) : Prop where
  moved : s.Moved t
  rest : Rest s.incoming t.incoming
  max : buf'.max = buf.max
  fits : buf'.data.length ≤ buf.max
  grows : buf.data <+: buf'.data
  stream : buf'.data ++ deliverable t.incoming = buf.data ++ deliverable s.incoming
  full : fill = .full → buf'.data.length = buf.max
  ok : fill = .ok → buf'.data.length < buf.max ∧ (t.incoming = s.incoming → s.incoming = [])
  error : fill = .error → deliverable t.incoming = [] ∧ ends s.incoming = true
  returns : fill ≠ .stuck

section Fill

variable {s t : Socket} {buf buf' : Buffer} {fill : Fill} {fuel : ℕ}

/-- Nothing more fits. -/
theorem filled_full (s : Socket) (h : buf.data.length = buf.max) : Filled s buf .full s buf :=
  ⟨.refl s, .refl _, rfl, h.le, List.prefix_rfl, rfl, fun _ => h, nofun, nofun, nofun⟩

/-- A piece of the stream was received first. -/
theorem Filled.cons {n : ℕ} {bs : Bytes} {es : List Event} (hgot : Got n s.incoming bs es)
    (h : Filled { s with incoming := es } { buf with data := buf.data ++ bs } fill t buf') :
    Filled s buf fill t buf' where
  moved := Moved.trans (t := { s with incoming := es }) rfl h.moved
  rest := hgot.rest.trans h.rest
  max := h.max
  fits := h.fits
  grows := (List.prefix_append _ bs).trans h.grows
  stream := by
    have hstream := h.stream
    dsimp only at hstream
    rw [hstream, hgot.stream, List.append_assoc]
  full := h.full
  ok hok := by
    refine ⟨(h.ok hok).1, fun hsame => ?_⟩
    -- fewer bytes are left to come
    have hpos := List.length_pos_iff.mpr hgot.ne_nil
    have hstream := congrArg List.length h.stream
    have hgrows := h.grows.length_le
    have hdeliver := congrArg List.length hgot.stream
    rw [hsame] at hstream
    simp only [List.length_append] at hstream hgrows hdeliver
    omega
  error herror := ⟨(h.error herror).1, hgot.rest.ends_eq.symm.trans (h.error herror).2⟩
  returns := h.returns

theorem recvLoop_spec (hvalid : s.valid = true) (hblocking : s.blocking = false)
    (hfails : fails s.incoming = false) (hfits : buf.data.length ≤ buf.max)
    (hfuel : buf.max - buf.data.length ≤ fuel) :
    Filled s buf (recvLoop fuel s buf).1 (recvLoop fuel s buf).2.1 (recvLoop fuel s buf).2.2 := by
  induction fuel generalizing s buf with
  | zero => exact filled_full s (by omega)
  | succ fuel ih =>
    rw [recvLoop]
    split_ifs with hfull
    · exact filled_full s (by omega)
    · have hmet := met_recvFrom false (Nat.pos_of_ne_zero hfull) s.incoming
      generalize hrecv : recvFrom false (buf.max - buf.data.length) s.incoming = r at hmet
      cases hmet with
      | bytes hgot =>
        rw [recv_of_valid hvalid hblocking hrecv]
        have hpos := List.length_pos_iff.mpr hgot.ne_nil
        have hle := hgot.length_le
        refine Filled.cons hgot (ih hvalid hblocking (hgot.rest.fails_eq.trans hfails) ?_ ?_)
        · dsimp only
          rw [List.length_append]
          omega
        · dsimp only
          rw [List.length_append]
          omega
      | again _ hdeliver hrest hshorter =>
        rw [recv_of_valid hvalid hblocking hrecv]
        have hlt : buf.data.length < buf.max := by omega
        refine ⟨rfl, hrest, rfl, hfits, List.prefix_rfl, congrArg (buf.data ++ ·) hdeliver, nofun, ?_,
          nofun, nofun⟩
        refine fun _ => ⟨hlt, fun hsame => ?_⟩
        dsimp only at hsame
        rcases hshorter with hlt | hnil
        · exact absurd hlt (by rw [hsame]; exact lt_irrefl _)
        · rw [← hsame, hnil]
      | closed hnone hnone' hends hrest =>
        rw [recv_of_valid hvalid hblocking hrecv]
        refine ⟨rfl, hrest, rfl, hfits, List.prefix_rfl, ?_, nofun, nofun,
          fun _ => ⟨hnone', hends⟩, nofun⟩
        dsimp only
        rw [hnone, hnone']
      | error _ hfail => exact absurd (hfails.symm.trans hfail) Bool.false_ne_true
      | stuck hmode => exact absurd hmode Bool.false_ne_true

end Fill

/-- The sizes of the buffers of a connection fit into an `int`. -/
structure Config.Small (cfg : Config) : Prop where
  request : cfg.requestBufferSize < 2 ^ 31
  io : cfg.ioBufferSize < 2 ^ 31

/-- The text of an error fits into the buffer of `wby_printf`, with the URI in it. -/
def Request.Brief (r : Request) : Prop := r.uri.length < 985

instance (r : Request) : Decidable r.Brief := inferInstanceAs (Decidable (_ < _))

namespace Connection

/-! ## Between two requests -/

/-- A connection that is in use, on which no request is served at the moment. -/
structure Sound (c : Connection) : Prop where
  http : c.flags.websocket = false
  alive : c.flags.alive = true
  valid : c.socket.valid = true
  blocking : c.socket.blocking = false
  modes : ∀ m ∈ c.socket.modes, m = true
  count : c.blockingCount = 0
  io : c.ioDataLeft = 0
  body : c.bodyBytesRead = 0
  fails : fails c.socket.incoming = false

/-- A connection that waits for the header section of a request. -/
structure Listens (c : Connection) : Prop extends c.Sound where
  state : c.state = .request
  fits : c.headerBuf.data.length ≤ c.headerBuf.max
  small : c.headerBuf.max < 2 ^ 31

/-- A connection whose request is to be served. -/
structure Due (c : Connection) : Prop extends c.Sound where
  state : c.state = .sendContinue ∨ c.state = .serve
  header : Holds c.headerBodyLeft c.headerBuf.data
  length : c.headerBodyLeft ≤ c.request.contentLength.toNat
  brief : c.request.Brief

/-- A connection that was closed by the response, in the round before it is found to be. -/
structure Shut (c : Connection) : Prop where
  http : c.flags.websocket = false
  alive : c.flags.alive = false
  valid : c.socket.valid = false
  count : c.blockingCount = 0
  state : c.state = .serve

/-- The bytes that belong to the next header section, and all that follows. -/
def stream (c : Connection) : Bytes := c.headerBuf.data ++ deliverable c.socket.incoming

/-- The bytes behind the header section. -/
def behind (c : Connection) : Bytes :=
  lastBytes c.headerBodyLeft c.headerBuf.data ++ deliverable c.socket.incoming

/-- The size of the next header section, if it fits into the buffer. -/
def heading (c : Connection) : Option ℕ := wbPeekRequestSize (c.stream.take c.headerBuf.max)

/-- Two connections with the same stream, which wait for a request. -/
structure Hearing (c d : Connection) : Prop where
  left : c.Listens
  right : d.Listens
  same : c.Same d
  max : d.headerBuf.max = c.headerBuf.max
  stream : d.stream = c.stream
  ends : ends d.socket.incoming = ends c.socket.incoming

/-- Two connections with the same request, and the same bytes behind it. -/
structure Called (c d : Connection) : Prop where
  left : c.Due
  right : d.Due
  same : c.Same d
  behind : d.behind = c.behind
  ends : ends d.socket.incoming = ends c.socket.incoming

/-- Two connections that the server cannot tell apart for good. -/
inductive Paired : Connection → Connection → Prop
  | hearing {c d : Connection} : c.Hearing d → Paired c d
  | called {c d : Connection} : c.Called d → Paired c d
  | shut {c d : Connection} : c.Shut → d.Shut → Paired c d

/-- The connection is not fresh any more. -/
def stale (c : Connection) : Connection := { c with flags := { c.flags with fresh := false } }

section Pairs

variable {c d e : Connection}

theorem Hearing.symm (h : c.Hearing d) : d.Hearing c :=
  ⟨h.right, h.left, h.same.symm, h.max.symm, h.stream.symm, h.ends.symm⟩

theorem Hearing.trans (hcd : c.Hearing d) (hde : d.Hearing e) : c.Hearing e :=
  ⟨hcd.left, hde.right, hcd.same.trans hde.same, hde.max.trans hcd.max, hde.stream.trans hcd.stream,
    hde.ends.trans hcd.ends⟩

theorem Hearing.heading_eq (h : c.Hearing d) : d.heading = c.heading := by
  rw [heading, heading, h.stream, h.max]

theorem Called.symm (h : c.Called d) : d.Called c :=
  ⟨h.right, h.left, h.same.symm, h.behind.symm, h.ends.symm⟩

theorem Paired.symm (h : Paired c d) : Paired d c := by
  cases h with
  | hearing h => exact .hearing h.symm
  | called h => exact .called h.symm
  | shut hc hd => exact .shut hd hc

theorem same_stale (c : Connection) : c.Same c.stale := rfl

theorem Sound.stale (h : c.Sound) : c.stale.Sound :=
  ⟨h.http, h.alive, h.valid, h.blocking, h.modes, h.count, h.io, h.body, h.fails⟩

theorem Listens.stale (h : c.Listens) : c.stale.Listens :=
  ⟨h.toSound.stale, h.state, h.fits, h.small⟩

theorem Due.stale (h : c.Due) : c.stale.Due :=
  ⟨h.toSound.stale, h.state, h.header, h.length, h.brief⟩

theorem Shut.stale (h : c.Shut) : c.stale.Shut := ⟨h.http, h.alive, h.valid, h.count, h.state⟩

theorem Same.stale (h : c.Same d) : c.stale.Same d.stale :=
  (same_stale c).symm.trans (h.trans (same_stale d))

theorem Listens.hearing_stale (h : c.Listens) : c.Hearing c.stale :=
  ⟨h, h.stale, same_stale c, rfl, rfl, rfl⟩

theorem Hearing.stale (h : c.Hearing d) : c.stale.Hearing d.stale :=
  (h.left.hearing_stale.symm.trans h).trans h.right.hearing_stale

theorem Called.stale (h : c.Called d) : c.stale.Called d.stale :=
  ⟨h.left.stale, h.right.stale, h.same.stale, h.behind, h.ends⟩

end Pairs

/-! ## A header section -/

/-- What arrives together with the end of a header section belongs to the body of that request, the stream
does not end at once, and the URI is not too long. -/
def Whole (c : Connection) : Prop :=
  ∀ size ∈ wbPeekRequestSize (wbySocketRecv c.socket c.headerBuf).2.2.data,
    (wbySocketRecv c.socket c.headerBuf).1 ≠ .error ∧
    ∀ r ∈ setupRequest ((wbySocketRecv c.socket c.headerBuf).2.2.data.take size),
      (wbySocketRecv c.socket c.headerBuf).2.2.data.length - size ≤ r.contentLength.toNat ∧ r.Brief

instance (c : Connection) : Decidable c.Whole :=
  inferInstanceAs (Decidable
    (∀ size ∈ wbPeekRequestSize (wbySocketRecv c.socket c.headerBuf).2.2.data, _))

/-- What a round comes to in the state REQUEST. -/
inductive Heard (c : Connection) : Turn → Prop
  | waits {d : Connection} : c.Hearing d → d.headerBuf.data.length < d.headerBuf.max →
      wbPeekRequestSize d.headerBuf.data = none →
      (d.socket.incoming = c.socket.incoming → c.socket.incoming = []) → Heard c ⟨.ret, [], d⟩
  | refused {d : Connection} : c.Hearing d → c.heading = none →
      c.headerBuf.max ≤ c.stream.length ∨ Socket.ends c.socket.incoming = true →
      Heard c ⟨.ret, [], d.kill⟩
  | malformed {d : Connection} {size : ℕ} : c.Hearing d → c.heading = some size →
      setupRequest (c.stream.take size) = none → Heard c ⟨.ret, [], d.kill⟩
  | request {d : Connection} {size : ℕ} {r : Request} : c.Hearing d → c.heading = some size →
      setupRequest (c.stream.take size) = some r → size ≤ d.headerBuf.data.length →
      leftBehind size d.headerBuf.data ≤ r.contentLength.toNat → r.Brief →
      Heard c ⟨.loop, [],
        { d with request := r, headerBodyLeft := leftBehind size d.headerBuf.data }.expect⟩

section Heard

variable {c d : Connection}

theorem Listens.length_lt (h : c.Listens) : c.headerBuf.data.length < 2 ^ 31 := h.fits.trans_lt h.small

/-- The connection once the buffer was filled. -/
theorem Listens.hearing_filled (h : c.Listens) {fill : Fill} {t : Socket} {buf : Buffer}
    (hfill : Filled c.socket c.headerBuf fill t buf) :
    c.Hearing { c with socket := t, headerBuf := buf } := by
  have hmoved := hfill.moved
  refine ⟨h, ⟨⟨h.http, h.alive, ?_, ?_, ?_, h.count, h.io, h.body, ?_⟩, h.state, ?_, ?_⟩, ?_, hfill.max,
    hfill.stream, hfill.rest.ends_eq⟩
  · rw [hmoved]
    exact h.valid
  · rw [hmoved]
    exact h.blocking
  · rw [hmoved]
    exact h.modes
  · exact hfill.rest.fails_eq.trans h.fails
  · exact hfill.fits.trans_eq hfill.max.symm
  · exact hfill.max.trans_lt h.small
  · rw [Same, hmoved]
    rfl

/-- A buffer that was filled holds the next bytes of the stream. -/
theorem filled_prefix {fill : Fill} {t : Socket} {buf : Buffer}
    (hfill : Filled c.socket c.headerBuf fill t buf) :
    buf.data <+: c.stream.take c.headerBuf.max := by
  rw [stream, ← hfill.stream, List.take_append, List.take_of_length_le hfill.fits]
  exact List.prefix_append _ _

theorem heard_requestTurn (h : c.Listens) (hwhole : c.Whole) : c.Heard c.requestTurn := by
  have hfill := recvLoop_spec h.valid h.blocking h.fails h.fits (le_refl _)
  rw [Whole, wbySocketRecv] at hwhole
  rw [requestTurn, wbySocketRecv]
  generalize recvLoop (c.headerBuf.max - c.headerBuf.data.length) c.socket c.headerBuf = r
    at hfill hwhole ⊢
  obtain ⟨fill, t, buf⟩ := r
  dsimp only at hfill hwhole
  have hhearing := h.hearing_filled hfill
  have hprefix := filled_prefix hfill
  cases hpeek : wbPeekRequestSize buf.data with
  | none =>
    have hall : buf.data = c.stream.take c.headerBuf.max → c.heading = none := by
      intro hall
      rw [heading, ← hall, hpeek]
    have hlength : buf.data.length ≤ c.stream.length :=
      hprefix.length_le.trans (List.length_take_le' _ _)
    cases fill with
    | ok =>
      have hlt := (hfill.ok rfl).1
      have hmax := hfill.max
      dsimp only
      rw [receiveRequest]
      dsimp only
      rw [hpeek]
      dsimp only
      rw [if_neg (by omega)]
      exact .waits hhearing (by dsimp only; omega) hpeek (hfill.ok rfl).2
    | full =>
      have hfull := hfill.full rfl
      have hmax := hfill.max
      dsimp only
      rw [receiveRequest]
      dsimp only
      rw [hpeek]
      dsimp only
      rw [if_pos (by omega)]
      refine .refused hhearing (hall ?_) (.inl (by omega))
      exact hprefix.eq_of_length (by rw [List.length_take]; omega)
    | error =>
      obtain ⟨hnone, hends⟩ := hfill.error rfl
      refine .refused hhearing (hall ?_) (.inr hends)
      have hstream := hfill.stream
      rw [hnone, List.append_nil] at hstream
      rw [stream, ← hstream, List.take_of_length_le hfill.fits]
    | stuck => exact absurd rfl hfill.returns
  | some size =>
    obtain ⟨hne, hbody⟩ := hwhole size hpeek
    have hsize := (wbPeekRequestSize_le hpeek).2
    obtain ⟨rest, hrest⟩ := hprefix
    have hheading : c.heading = some size := by
      rw [heading, ← hrest]
      exact wbPeekRequestSize_append hpeek rest
    have htake : buf.data.take size = c.stream.take size := by
      have hmore : (buf.data ++ rest).take size = buf.data.take size := by
        rw [List.take_append, Nat.sub_eq_zero_of_le hsize, List.take_zero, List.append_nil]
      have hlength := congrArg List.length hrest
      rw [List.length_append, List.length_take] at hlength
      rw [← hmore, hrest, List.take_take, Nat.min_eq_left (by omega)]
    have hreceive : c.Heard (receiveRequest { c with socket := t, headerBuf := buf }) := by
      rw [receiveRequest]
      dsimp only
      rw [hpeek]
      dsimp only
      cases hsetup : setupRequest (buf.data.take size) with
      | none => exact .malformed hhearing hheading (htake ▸ hsetup)
      | some r =>
        obtain ⟨hleft, hbrief⟩ := hbody r hsetup
        rw [← leftBehind_of_lt hhearing.right.length_lt] at hleft
        exact .request hhearing hheading (htake ▸ hsetup) hsize hleft hbrief
    cases fill with
    | ok => exact hreceive
    | full => exact hreceive
    | error => exact absurd rfl hne
    | stuck => exact absurd rfl hfill.returns

end Heard

/-! ## Rounds that do not wait -/

/-- The connection is closed at the end of this update. -/
def GivenUp (c : Connection) : Prop := c.flags.alive = false ∧ c.flags.websocket = false

end Connection

/-- The function returns, as there is nothing more to be received yet. -/
def Turn.Waits (t : Turn) : Prop := t.fate = .ret ∧ t.conn.flags.alive = true

/-- Two rounds come to the same. -/
structure Turn.Alike (t t' : Turn) : Prop where
  fate : t.fate = t'.fate
  notes : t.notes = t'.notes
  same : t.conn.Same t'.conn
  loop : t.fate = .loop → t.conn.Paired t'.conn
  ret : t.fate = .ret → t.conn.GivenUp ∧ t'.conn.GivenUp

namespace Connection

section Rounds

variable {c d : Connection} {t t' : Turn} {notes : List Note} {env : Env} {cfg : Config}
  {cb : Callbacks}

/-- The connections are given up. -/
theorem alike_ret (hsame : c.Same d) (hc : c.GivenUp) (hd : d.GivenUp) :
    Turn.Alike ⟨.ret, notes, c⟩ ⟨.ret, notes, d⟩ :=
  ⟨rfl, rfl, hsame, nofun, fun _ => ⟨hc, hd⟩⟩

theorem alike_loop (hsame : c.Same d) (h : Paired c d) :
    Turn.Alike ⟨.loop, notes, c⟩ ⟨.loop, notes, d⟩ :=
  ⟨rfl, rfl, hsame, fun _ => h, nofun⟩

theorem Sound.givenUp (h : c.Sound) : c.kill.GivenUp := ⟨rfl, h.http⟩

theorem Same.kill (h : c.Same d) : c.kill.Same d.kill := by
  rw [Same, h]
  rfl

theorem Same.close (h : c.Same d) : c.close.Same d.close := by
  rw [Same, h]
  rfl

/-! ### Receiving -/

/-- The request is to be served, on both. -/
theorem called_expect (hc : c.Sound) (hd : d.Sound) (hsame : c.Same d)
    (hlen : Holds c.headerBodyLeft c.headerBuf.data) (hlen' : Holds d.headerBodyLeft d.headerBuf.data)
    (hbody : c.headerBodyLeft ≤ c.request.contentLength.toNat)
    (hbody' : d.headerBodyLeft ≤ d.request.contentLength.toNat) (hbrief : c.request.Brief)
    (hbehind : d.behind = c.behind)
    (hends : ends d.socket.incoming = ends c.socket.incoming) : c.expect.Called d.expect := by
  have hbrief' : d.request.Brief := hsame.request_eq ▸ hbrief
  have hserve : Called { c with state := .serve } { d with state := .serve } :=
    ⟨⟨⟨hc.http, hc.alive, hc.valid, hc.blocking, hc.modes, hc.count, hc.io, hc.body, hc.fails⟩,
        .inr rfl, hlen, hbody, hbrief⟩,
      ⟨⟨hd.http, hd.alive, hd.valid, hd.blocking, hd.modes, hd.count, hd.io, hd.body, hd.fails⟩,
        .inr rfl, hlen', hbody', hbrief'⟩, by rw [Same, hsame]; rfl, hbehind, hends⟩
  have hfind : wbyFindHeader d.request (ascii "Expect") = wbyFindHeader c.request (ascii "Expect") := by
    rw [hsame.request_eq]
  rw [expect, expect, hfind]
  cases wbyFindHeader c.request (ascii "Expect") with
  | none => exact hserve
  | some value =>
    dsimp only
    split_ifs
    · exact ⟨⟨⟨hc.http, hc.alive, hc.valid, hc.blocking, hc.modes, hc.count, hc.io, hc.body, hc.fails⟩,
          .inl rfl, hlen, hbody, hbrief⟩,
        ⟨⟨hd.http, hd.alive, hd.valid, hd.blocking, hd.modes, hd.count, hd.io, hd.body, hd.fails⟩,
          .inl rfl, hlen', hbody', hbrief'⟩, by rw [Same, hsame]; rfl, hbehind, hends⟩
    · exact hserve

theorem state_expect (c : Connection) :
    c.expect.state = .sendContinue ∨ c.expect.state = .serve := by
  rw [expect]
  cases wbyFindHeader c.request (ascii "Expect") with
  | none => exact .inr rfl
  | some value =>
    dsimp only
    split_ifs
    · exact .inl rfl
    · exact .inr rfl

theorem Sound.request (h : c.Sound) (r : Request) (k : ℕ) :
    Sound { c with request := r, headerBodyLeft := k } :=
  ⟨h.http, h.alive, h.valid, h.blocking, h.modes, h.count, h.io, h.body, h.fails⟩

/-- What is behind a header section. -/
theorem behind_request {size : ℕ} (hlt : c.headerBuf.data.length < 2 ^ 31)
    (h : size ≤ c.headerBuf.data.length) (r : Request) :
    Connection.behind { c with request := r, headerBodyLeft := leftBehind size c.headerBuf.data } =
      c.stream.drop size := by
  rw [Connection.behind, Connection.stream, List.drop_append_of_le_length h]
  dsimp only
  rw [leftBehind_of_lt hlt, lastBytes_of_lt hlt (Nat.sub_le _ _), Nat.sub_sub_self h]

theorem Hearing.alike_turn (h : c.Hearing d) (ht : c.Heard t) (ht' : d.Heard t')
    (hwaits : ¬ t.Waits) (hwaits' : ¬ t'.Waits) : t.Alike t' := by
  have hheading := h.heading_eq
  cases ht with
  | waits hc => exact absurd ⟨rfl, hc.right.alive⟩ hwaits
  | refused hc hnone =>
    cases ht' with
    | waits hd => exact absurd ⟨rfl, hd.right.alive⟩ hwaits'
    | refused hd =>
      exact alike_ret ((hc.symm.trans h).trans hd).same.kill hc.right.givenUp hd.right.givenUp
    | malformed hd hsome =>
      exact absurd (hsome.symm.trans (hheading.trans hnone)) (Option.some_ne_none _)
    | request hd hsome =>
      exact absurd (hsome.symm.trans (hheading.trans hnone)) (Option.some_ne_none _)
  | malformed hc hsome hsetup =>
    cases ht' with
    | waits hd => exact absurd ⟨rfl, hd.right.alive⟩ hwaits'
    | refused hd =>
      exact alike_ret ((hc.symm.trans h).trans hd).same.kill hc.right.givenUp hd.right.givenUp
    | malformed hd =>
      exact alike_ret ((hc.symm.trans h).trans hd).same.kill hc.right.givenUp hd.right.givenUp
    | request hd hsome' hsetup' =>
      obtain rfl := Option.some.inj (hsome'.symm.trans (hheading.trans hsome))
      rw [h.stream, hsetup] at hsetup'
      exact absurd hsetup'.symm (Option.some_ne_none _)
  | @request e size r hc hsome hsetup hsize hbody hbrief =>
    cases ht' with
    | waits hd => exact absurd ⟨rfl, hd.right.alive⟩ hwaits'
    | refused hd hnone =>
      exact absurd (hsome.symm.trans (hheading.symm.trans hnone)) (Option.some_ne_none _)
    | malformed hd hsome' hsetup' =>
      obtain rfl := Option.some.inj (hsome'.symm.trans (hheading.trans hsome))
      rw [h.stream, hsetup] at hsetup'
      exact absurd hsetup' (Option.some_ne_none _)
    | @request e' size' _ hd hsome' hsetup' hsize' hbody' _ =>
      obtain rfl : size' = size := Option.some.inj (hsome'.symm.trans (hheading.trans hsome))
      rw [h.stream, hsetup] at hsetup'
      obtain rfl := Option.some.inj hsetup'
      have hpair := (hc.symm.trans h).trans hd
      have hcalled := called_expect
        (hc.right.toSound.request r (leftBehind size' e.headerBuf.data))
        (hd.right.toSound.request r (leftBehind size' e'.headerBuf.data))
        (by rw [Same, hpair.same]; rfl) (holds_leftBehind size' e.headerBuf.data)
        (holds_leftBehind size' e'.headerBuf.data) hbody hbody' hbrief
        ((behind_request hd.right.length_lt hsize' _).trans
          ((congrArg _ hpair.stream).trans (behind_request hc.right.length_lt hsize _).symm))
        hpair.ends
      exact alike_loop hcalled.same (.called hcalled)

/-! ### The header that is expected -/

/-- A piece of it was sent. -/
theorem Due.sent {s : Socket} (h : c.Due) (hs : Wrote c.socket s) (left : ℕ) {state : State}
    (hstate : state = .sendContinue ∨ state = .serve) :
    Due { c with socket := s, continueDataLeft := left, state } := by
  refine ⟨⟨h.http, h.alive, ?_, ?_, ?_, h.count, h.io, h.body, ?_⟩, hstate, h.header, h.length,
    h.brief⟩
  · rw [hs]
    exact h.valid
  · rw [hs]
    exact h.blocking
  · rw [hs]
    exact h.modes
  · rw [hs]
    exact h.fails

theorem Called.alike_continueTurn (h : c.Called d) : c.continueTurn.Alike d.continueTurn := by
  have hsocket : d.socket = receiving d.socket.blocking d.socket.incoming c.socket := by
    rw [h.same]
    rfl
  have hleft : d.continueDataLeft = c.continueDataLeft := by rw [h.same]; rfl
  have hstate : d.state = c.state := by rw [h.same]; rfl
  rw [continueTurn, continueTurn, hleft]
  have hwrote := wrote_send (wbyContinueHeader.drop (wbyContinueHeader.length - c.continueDataLeft))
    c.socket
  have hwrote' := wrote_send (wbyContinueHeader.drop (wbyContinueHeader.length - c.continueDataLeft))
    d.socket
  have hsend := send_receiving d.socket.blocking d.socket.incoming
    (wbyContinueHeader.drop (wbyContinueHeader.length - c.continueDataLeft)) c.socket
  rw [← hsocket] at hsend
  rw [hsend] at hwrote' ⊢
  generalize c.socket.send _ = r at hwrote hwrote' ⊢
  obtain ⟨written, s⟩ := r
  cases written with
  | none =>
    refine alike_ret ?_ ⟨rfl, h.left.http⟩ ⟨rfl, h.right.http⟩
    rw [Same, h.same]
    rfl
  | some written =>
    have hs : Wrote c.socket s := hwrote
    have hincoming : s.incoming = c.socket.incoming := by rw [hs]
    have hnext : (if c.continueDataLeft - written = 0 then State.serve else c.state) = .sendContinue ∨
        (if c.continueDataLeft - written = 0 then State.serve else c.state) = .serve := by
      split_ifs
      · exact .inr rfl
      · exact h.left.state
    have hleft' := h.left.sent hwrote (c.continueDataLeft - written) hnext
    have hright' := h.right.sent hwrote' (c.continueDataLeft - written) hnext
    dsimp only [Prod.map, id]
    rw [hstate]
    have hbehind : Connection.behind { d with
        socket := receiving d.socket.blocking d.socket.incoming s
        continueDataLeft := c.continueDataLeft - written
        state := if c.continueDataLeft - written = 0 then State.serve else c.state } =
      Connection.behind { c with
        socket := s
        continueDataLeft := c.continueDataLeft - written
        state := if c.continueDataLeft - written = 0 then State.serve else c.state } := by
      have hb := h.behind
      rw [Connection.behind, Connection.behind] at hb ⊢
      dsimp only
      rw [hincoming]
      exact hb
    have hsame : Same { c with
        socket := s
        continueDataLeft := c.continueDataLeft - written
        state := if c.continueDataLeft - written = 0 then State.serve else c.state } { d with
        socket := receiving d.socket.blocking d.socket.incoming s
        continueDataLeft := c.continueDataLeft - written
        state := if c.continueDataLeft - written = 0 then State.serve else c.state } := by
      rw [Same, h.same]
      rfl
    refine alike_loop hsame (.called ⟨hleft', hright', hsame, hbehind, ?_⟩)
    dsimp only
    rw [hincoming]
    exact h.ends

/-! ### Serving -/

/-- A mode that can be changed is changed. -/
theorem setBlocking_of_modes {s : Socket} (hvalid : s.valid = true) (h : ∀ m ∈ s.modes, m = true)
    (blocking : Bool) :
    s.setBlocking blocking = (true, { s with blocking, modes := s.modes.tail }) := by
  rw [Socket.setBlocking, if_pos hvalid]
  obtain ⟨valid, mode, incoming, sent, accepts, modes⟩ := s
  cases modes with
  | nil => rfl
  | cons m ms =>
    obtain rfl : m = true := h m List.mem_cons_self
    rfl

/-- The connection once it is to be served. -/
def occupied (c : Connection) : Connection :=
  { c with
    ioBuf := { c.ioBuf with data := [] }
    socket := { c.socket with blocking := true, modes := c.socket.modes.tail }
    blockingCount := 1 }

theorem Due.serving (h : c.Due) (hstate : c.state = .serve) : c.occupied.Serving where
  state := hstate
  http := h.http
  input := by
    refine ⟨rfl, rfl, h.io, h.header, ?_, h.fails⟩
    have hbody : c.bodyBytesRead = 0 := h.body
    have hlength : c.headerBodyLeft ≤ c.request.contentLength.toNat := h.length
    show c.headerBodyLeft ≤ (c.request.contentLength - c.bodyBytesRead).toNat
    omega
  valid := h.valid.trans h.alive.symm
  modes := fun m hm => h.modes m (List.mem_of_mem_tail hm)
  closed hdead := absurd (h.alive.symm.trans hdead) (Ne.symm Bool.false_ne_true)

theorem Called.twins (h : c.Called d) (hstate : c.state = .serve) : c.occupied.Twins d.occupied := by
  have hd : d.state = .serve := by
    rw [h.same]
    exact hstate
  have hserving := h.left.serving hstate
  have hserving' := h.right.serving hd
  refine ⟨hserving, hserving', by rw [Same, occupied, occupied, h.same]; rfl, ?_, ?_, ?_, h.ends⟩
  · exact h.right.alive.trans h.left.alive.symm
  · exact h.right.body.trans h.left.body.symm
  · rw [unread, unread, hserving.buffered_eq, hserving'.buffered_eq]
    exact h.behind

theorem Due.setBlocking_eq (h : c.Due) :
    setBlocking { c with ioBuf := { c.ioBuf with data := [] } } = (true, c.occupied) := by
  rw [Connection.setBlocking, if_pos h.count, setBlocking_of_modes h.valid h.modes]
  rfl

/-- A connection that was closed is found to be in the next round. -/
theorem Serving.afterServe_closed (h : c.Serving) (hclosed : c.flags.alive = false) (cfg : Config) :
    c.afterServe cfg = (.loop, { c with blockingCount := 0 }) ∧ Shut { c with blockingCount := 0 } := by
  have hcount : c.blockingCount = 1 := h.input.count
  refine ⟨?_, h.http, hclosed, h.valid.trans hclosed, rfl, h.state⟩
  rw [afterServe, setNonblocking, if_neg (by simp [hclosed]), hcount]
  exact if_neg (by simp [hclosed])

/-- The connection once it was served. -/
def released (c : Connection) : Connection :=
  { c with
    socket := { c.socket with blocking := false, modes := c.socket.modes.tail }
    blockingCount := 0 }

/-- A connection that is not closed is asked for the next request, or closed then. -/
theorem Serving.afterServe_alive (h : c.Serving) (halive : c.flags.alive = true) (cfg : Config) :
    c.afterServe cfg = if c.flags.closeAfterResponse then (.ret, c.released.kill)
      else (.loop, { c.released.reset cfg.requestBufferSize cfg.ioBufferSize with
        state := if c.flags.websocket then .websocket else .request }) := by
  have hcount : c.blockingCount = 1 := h.input.count
  have hset : c.setNonblocking = (true, c.released) := by
    rw [setNonblocking, if_pos ⟨halive, hcount⟩,
      setBlocking_of_modes (h.valid.trans halive) h.modes, hcount]
    rfl
  rw [afterServe, hset]
  exact if_pos halive

theorem Serving.listens (h : c.Serving) (halive : c.flags.alive = true) {cfg : Config}
    (hcfg : cfg.Small) :
    Listens { c.released.reset cfg.requestBufferSize cfg.ioBufferSize with
      state := if c.flags.websocket then .websocket else .request } := by
  refine ⟨⟨h.http, halive, h.valid.trans halive, rfl, ?_, rfl, rfl, rfl, h.input.fails⟩, ?_,
    Nat.zero_le _, hcfg.request⟩
  · exact fun m hm => h.modes m (List.mem_of_mem_tail hm)
  · exact if_neg (by simp [h.http])

/-- Nothing of the body is left in the buffer that is cleared. -/
theorem Serving.unread_eq (h : c.Serving) (hconsumed : c.Consumed) :
    c.unread = deliverable c.socket.incoming := by
  have hbody : c.headerBodyLeft ≤ (c.request.contentLength - c.bodyBytesRead).toNat := h.input.body
  rw [Consumed] at hconsumed
  have hzero : c.headerBodyLeft = 0 := by omega
  rw [unread, h.buffered_eq, hzero, lastBytes_zero, List.nil_append]

theorem Twins.alike_afterServe (h : c.Twins d) (hconsumed : c.Consumed) {cfg : Config}
    (hcfg : cfg.Small) :
    Turn.Alike ⟨(c.afterServe cfg).1, notes, (c.afterServe cfg).2⟩
      ⟨(d.afterServe cfg).1, notes, (d.afterServe cfg).2⟩ := by
  cases halive : c.flags.alive with
  | false =>
    obtain ⟨hc, hshut⟩ := h.left.afterServe_closed halive cfg
    obtain ⟨hd, hshut'⟩ := h.right.afterServe_closed (h.alive.trans halive) cfg
    rw [hc, hd]
    refine alike_loop ?_ (.shut hshut hshut')
    rw [Same, h.same]
    rfl
  | true =>
    have halive' : d.flags.alive = true := h.alive.trans halive
    have hclose : d.flags.closeAfterResponse = c.flags.closeAfterResponse := by
      rw [h.same]
      rfl
    rw [h.left.afterServe_alive halive, h.right.afterServe_alive halive', hclose]
    by_cases hasked : c.flags.closeAfterResponse = true
    · rw [if_pos hasked, if_pos hasked]
      refine alike_ret ?_ ⟨rfl, h.left.http⟩ ⟨rfl, h.right.http⟩
      rw [Same, released, released, h.same]
      rfl
    · rw [if_neg hasked, if_neg hasked]
      have hconsumed' : d.Consumed := by
        rw [Consumed, h.same.request_eq, h.count]
        exact hconsumed
      have hstream : deliverable d.socket.incoming = deliverable c.socket.incoming := by
        rw [← h.left.unread_eq hconsumed, ← h.right.unread_eq hconsumed', h.unread]
      have hhearing := Hearing.mk (h.left.listens halive hcfg) (h.right.listens halive' hcfg)
        (by rw [Same, released, released, h.same]; rfl) rfl hstream h.ends
      exact alike_loop hhearing.same (.hearing hhearing)

/-- The request is served alike, if the application answers. -/
theorem Called.alike_served (h : c.Called d) (hstate : c.state = .serve) (env : Env)
    (hws : cb.wsConnect = none) (hcb : ∀ r, (cb.dispatch r).Responds False) :
    Ran.Alike (fun _ c' d' => c'.Twins d' ∧ c'.Consumed)
      (if wbyConIsWebsocketRequest c.occupied.request then c.occupied.serveUpgrade env cb
        else c.occupied.serveRequest env cb)
      (if wbyConIsWebsocketRequest d.occupied.request then d.occupied.serveUpgrade env cb
        else d.occupied.serveRequest env cb) := by
  have htwins := h.twins hstate
  rw [htwins.same.request_eq]
  split_ifs
  · rw [serveUpgrade, serveUpgrade, hws]
    dsimp only
    rw [refuseUpgrade, refuseUpgrade, htwins.same.request_eq]
    exact alike_refuse htwins env _ _ _
  · exact alike_serveRequest htwins env hcb

theorem Called.serveTurn_cases (h : c.Called d) (hstate : c.state = .serve) (env : Env) (cfg : Config)
    (hws : cb.wsConnect = none) (hcb : ∀ r, (cb.dispatch r).Responds False) :
    ∃ notes c' d', c'.Same d' ∧
      ((c.serveTurn env cfg cb = ⟨.stuck, notes, c'⟩ ∧ d.serveTurn env cfg cb = ⟨.stuck, notes, d'⟩) ∨
        (c'.Twins d' ∧ c'.Consumed ∧
          c.serveTurn env cfg cb = ⟨(c'.afterServe cfg).1, notes, (c'.afterServe cfg).2⟩ ∧
          d.serveTurn env cfg cb = ⟨(d'.afterServe cfg).1, notes, (d'.afterServe cfg).2⟩)) := by
  have hran := h.alike_served hstate env hws hcb
  rw [serveTurn, serveTurn, h.left.setBlocking_eq, h.right.setBlocking_eq]
  dsimp only
  generalize (if wbyConIsWebsocketRequest c.occupied.request then c.occupied.serveUpgrade env cb
    else c.occupied.serveRequest env cb) = ran at hran ⊢
  generalize (if wbyConIsWebsocketRequest d.occupied.request then d.occupied.serveUpgrade env cb
    else d.occupied.serveRequest env cb) = ran' at hran ⊢
  obtain ⟨value, notes, c'⟩ := ran
  obtain ⟨value', notes', d'⟩ := ran'
  obtain ⟨hvalue, hnotes, hsame, hconn⟩ := hran
  obtain rfl : value = value' := hvalue
  obtain rfl : notes = notes' := hnotes
  refine ⟨notes, c', d', hsame, ?_⟩
  cases value with
  | none => exact .inl ⟨rfl, rfl⟩
  | some ok => exact .inr ⟨(hconn ok rfl).1, (hconn ok rfl).2, rfl, rfl⟩

theorem Called.alike_serveTurn (h : c.Called d) (hstate : c.state = .serve) (env : Env) {cfg : Config}
    (hcfg : cfg.Small) (hws : cb.wsConnect = none) (hcb : ∀ r, (cb.dispatch r).Responds False) :
    (c.serveTurn env cfg cb).Alike (d.serveTurn env cfg cb) := by
  obtain ⟨notes, c', d', hsame, ⟨hc, hd⟩ | ⟨htwins, hconsumed, hc, hd⟩⟩ :=
    h.serveTurn_cases hstate env cfg hws hcb
  · rw [hc, hd]
    exact ⟨rfl, rfl, hsame, nofun, nofun⟩
  · rw [hc, hd]
    exact htwins.alike_afterServe hconsumed hcfg

/-- A connection that was closed cannot be served. -/
theorem Shut.serveTurn_eq (h : c.Shut) (env : Env) (cfg : Config) (cb : Callbacks) :
    c.serveTurn env cfg cb = ⟨.ret, [], kill { c with ioBuf := { c.ioBuf with data := [] } }⟩ := by
  have hset : setBlocking { c with ioBuf := { c.ioBuf with data := [] } } =
      (false, kill { c with ioBuf := { c.ioBuf with data := [] } }) := by
    rw [Connection.setBlocking, if_pos h.count, Socket.setBlocking, if_neg (by simp [h.valid])]
  rw [serveTurn, hset]

theorem Shut.alike_serveTurn (hc : c.Shut) (hd : d.Shut) (hsame : c.Same d) (env : Env) (cfg : Config)
    (cb : Callbacks) : (c.serveTurn env cfg cb).Alike (d.serveTurn env cfg cb) := by
  rw [hc.serveTurn_eq, hd.serveTurn_eq]
  refine alike_ret ?_ ⟨rfl, hc.http⟩ ⟨rfl, hd.http⟩
  rw [Same, hsame]
  rfl

/-! ### Progress -/

theorem send_ne_zero {s t : Socket} {bs : Bytes} (hbs : bs ≠ []) : s.send bs ≠ (some 0, t) := by
  have hpos := List.length_pos_iff.mpr hbs
  obtain ⟨valid, mode, incoming, sent, accepts, modes⟩ := s
  intro hsend
  have hfst := congrArg Prod.fst hsend
  cases valid with
  | false => exact absurd hfst (Option.some_ne_none 0).symm
  | true =>
    rcases accepts with _ | ⟨_ | k, ks⟩
    · have hzero : bs.length = 0 := Option.some.inj hfst
      omega
    · exact absurd hfst (Option.some_ne_none 0).symm
    · have hzero : min (k + 1) bs.length = 0 := Option.some.inj hfst
      omega

/-- Neither the state of a connection nor what it is to send has changed. -/
structure Still (c d : Connection) : Prop where
  left : d.continueDataLeft = c.continueDataLeft
  state : d.state = c.state
  alive : d.flags.alive = c.flags.alive

/-- Sending the header goes on. -/
theorem not_still_continueTurn (hstate : c.state = .sendContinue)
    (hloop : c.continueTurn.fate = .loop) : ¬ c.Still c.continueTurn.conn := by
  rw [continueTurn] at hloop ⊢
  generalize hsend : c.socket.send
    (wbyContinueHeader.drop (wbyContinueHeader.length - c.continueDataLeft)) = r at hloop ⊢
  obtain ⟨written, s⟩ := r
  cases written with
  | none => exact absurd hloop nofun
  | some written =>
    intro hstill
    have hleft : c.continueDataLeft - written = c.continueDataLeft := hstill.left
    have hnext : (if c.continueDataLeft - written = 0 then State.serve else c.state) = c.state :=
      hstill.state
    by_cases hzero : c.continueDataLeft - written = 0
    · rw [if_pos hzero, hstate] at hnext
      exact absurd hnext nofun
    · obtain rfl : written = 0 := by omega
      refine absurd hsend (send_ne_zero ?_)
      have hlength : wbyContinueHeader.length = 25 := by decide +kernel
      rw [← List.length_pos_iff, List.length_drop, hlength]
      omega

/-- A request that was served is done with. -/
theorem Called.not_still_serveTurn (h : c.Called d) (hstate : c.state = .serve) (env : Env)
    {cfg : Config} (hcfg : cfg.Small) (hws : cb.wsConnect = none) (hcb : ∀ r, (cb.dispatch r).Responds False)
    (hloop : (c.serveTurn env cfg cb).fate = .loop) : ¬ c.Still (c.serveTurn env cfg cb).conn := by
  obtain ⟨notes, c', d', -, ⟨hc, -⟩ | ⟨htwins, -, hc, -⟩⟩ := h.serveTurn_cases hstate env cfg hws hcb
  · rw [hc] at hloop
    exact absurd hloop nofun
  · rw [hc] at hloop ⊢
    intro hstill
    cases halive : c'.flags.alive with
    | false =>
      rw [(htwins.left.afterServe_closed halive cfg).1] at hstill
      have hdead : c'.flags.alive = c.flags.alive := hstill.alive
      rw [halive, h.left.alive] at hdead
      exact absurd hdead Bool.false_ne_true
    | true =>
      rw [htwins.left.afterServe_alive halive] at hloop hstill
      by_cases hasked : c'.flags.closeAfterResponse = true
      · rw [if_pos hasked] at hloop
        exact absurd hloop nofun
      · rw [if_neg hasked] at hstill
        have hnext := (htwins.left.listens halive hcfg).state
        exact absurd (hnext.symm.trans (hstill.state.trans hstate)) nofun

end Rounds

end Connection

end Mavicona.Mumux
