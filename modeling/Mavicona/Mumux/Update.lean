import Mavicona.Mumux.Frames
import Mavicona.Mumux.Slots

/-!
# The life of a connection

Reference: `mumux/server.c` (`wby_on_incoming`, `wby_update_connection`, `wby_update`),
`mumux/connection.c` (`wby_connection_send_websocket_upgrade`).

`wby_update_connection` goes round a loop, over the states of a connection, until it has to wait for
the other side. A connection that was given up is closed and removed at the end of the update.

The callbacks of the application are arbitrary programs over the calls that are open to them, and may
be different ones every time. What the application sees is noted: which callbacks were made, and what
was read in them.
-/

namespace Mavicona.Mumux

open Bytes

/-! ## Callbacks -/

/-- The calls that are open to a callback. -/
inductive Call
  | read (len : ℕ)
  | write (bs : Bytes)
  | responseBegin (status contentLength : ℤ) (headers : List Header)
  | responseEnd
  | frameBegin (opcode : ℕ)
  | frameEnd

/-- What a call gives back: whether it returns 0, and what was read. -/
structure Result where
  ok : Bool
  data : Bytes

/-- A callback: it returns, with 0 or not, or makes a call and goes on with its result. -/
inductive Prog
  | done (ok : Bool)
  | call (k : Call) (next : Result → Prog)

/-- What the application sees. -/
inductive Note
  | dispatch (r : Request)
  | connect (r : Request)
  /-- `ws_connected`, with what is true of the connection, and what was sent on it so far. -/
  | connected (alive valid : Bool) (sent : Bytes)
  | frame (f : Frame)
  | closed
  | read (ok : Bool) (data : Bytes)
deriving DecidableEq

/-- What is noted of a call. -/
def Call.notes : Call → Result → List Note
  | .read _, r => [.read r.ok r.data]
  | _, _ => []

/-- What a callback comes to. -/
structure Ran where
  value : Option Bool
  notes : List Note
  conn : Connection

namespace Ran

/-- Something is noted first. -/
def noted (note : Note) (ran : Ran) : Ran := { ran with notes := note :: ran.notes }

/-- What follows a callback that returns. -/
def andThen (ran : Ran) (f : Bool → Connection → Ran) : Ran :=
  match ran.value with
  | none => ran
  | some ok => { f ok ran.conn with notes := ran.notes ++ (f ok ran.conn).notes }

end Ran

/-- A call that returns. -/
def Outcome.returned {α : Type} (r : Bool × Connection) (f : Bool → α) : Outcome α :=
  ⟨some (f r.1), r.2⟩

/-- A call of a callback. -/
def Call.perform (env : Env) (c : Connection) : Call → Outcome Result
  | .read len =>
    let o := c.wbyRead len
    ⟨o.value.map fun (ok, data) => ⟨ok, data⟩, o.conn⟩
  | .write bs => .returned (c.wbyWrite bs) (⟨·, []⟩)
  | .responseBegin status contentLength headers =>
    let o := c.responseBegin env status contentLength headers
    ⟨o.value.map (⟨·, []⟩), o.conn⟩
  | .responseEnd => ⟨some ⟨true, []⟩, c.responseEnd⟩
  | .frameBegin opcode => .returned (c.frameBegin opcode) (⟨·, []⟩)
  | .frameEnd => .returned c.frameEnd (⟨·, []⟩)

/-- A callback is run. -/
def Prog.run (env : Env) : Prog → Connection → Ran
  | .done ok, c => ⟨some ok, [], c⟩
  | .call k next, c =>
    match k.perform env c with
    | ⟨none, c⟩ => ⟨none, [], c⟩
    | ⟨some r, c⟩ =>
      let ran := (next r).run env c
      { ran with notes := k.notes r ++ ran.notes }

/-- The callbacks of `wby_config`. -/
structure Callbacks where
  dispatch : Request → Prog
  wsConnect : Option (Request → Prog)
  wsConnected : Request → Prog
  wsFrame : Request → Frame → Prog
  wsClosed : Request → Prog

/-! ## One round of `wby_update_connection` -/

/-- How a round of the loop ends: it goes on, the function returns, or it never does. -/
inductive Fate
  | loop
  | ret
  | stuck
deriving DecidableEq

structure Turn where
  fate : Fate
  notes : List Note
  conn : Connection

/-- `wby_continue_header`. -/
def wbyContinueHeader : Bytes := ascii "HTTP/1.1 100 Continue" ++ crlf ++ crlf

/-- `wby_websocket_pong`. -/
def wbyWebsocketPong : Bytes := [128, 10, 0]

namespace Connection

variable (env : Env) (cfg : Config) (cb : Callbacks)

/-- What follows a request that was set up: the client may expect a header first. -/
def expect (c : Connection) : Connection :=
  match wbyFindHeader c.request (ascii "Expect") with
  | some value =>
    if caseEq value (ascii "100-continue") then
      { c with continueDataLeft := wbyContinueHeader.length, state := .sendContinue }
    else { c with state := .serve }
  | none => { c with state := .serve }

/-- What is done with the header section, once the buffer was filled. -/
def receiveRequest (c : Connection) : Turn :=
  match wbPeekRequestSize c.headerBuf.data with
  | none => ⟨.ret, [], if c.headerBuf.max = c.headerBuf.data.length then c.kill else c⟩
  | some size =>
    match setupRequest (c.headerBuf.data.take size) with
    | none => ⟨.ret, [], c.kill⟩
    | some request =>
      ⟨.loop, [], { c with request, headerBodyLeft := leftBehind size c.headerBuf.data }.expect⟩

/-- `WBY_CON_STATE_REQUEST`. -/
def requestTurn (c : Connection) : Turn :=
  match wbySocketRecv c.socket c.headerBuf with
  | (.stuck, s, buf) => ⟨.stuck, [], { c with socket := s, headerBuf := buf }⟩
  | (.error, s, buf) => ⟨.ret, [], { c with socket := s, headerBuf := buf }.kill⟩
  | (_, s, buf) => { c with socket := s, headerBuf := buf }.receiveRequest

/-- `WBY_CON_STATE_SEND_CONTINUE`. -/
def continueTurn (c : Connection) : Turn :=
  let offset := wbyContinueHeader.length - c.continueDataLeft
  match c.socket.send (wbyContinueHeader.drop offset) with
  | (none, s) => ⟨.ret, [], { c with socket := s }.kill⟩
  | (some written, s) =>
    let left := c.continueDataLeft - written
    ⟨.loop, [], { c with
      socket := s, continueDataLeft := left, state := if left = 0 then .serve else c.state }⟩

/-- A response with an error. -/
def refuse (status : ℤ) (headers : List Header) (text : Bytes) (c : Connection) : Ran :=
  match c.responseBegin env status (-1) headers with
  | ⟨none, c⟩ => ⟨none, [], c⟩
  | ⟨some _, c⟩ => ⟨some true, [], (c.wbyPrintf env text).responseEnd⟩

/-- `wby_plain_text_headers`. -/
def plainTextHeaders : List Header := [⟨ascii "Content-Type", ascii "text/plain"⟩]

/-- The headers of the response to an upgrade. -/
def upgradeHeaders (key : Bytes) : List Header :=
  [⟨ascii "Upgrade", ascii "websocket"⟩, ⟨ascii "Connection", ascii "Upgrade"⟩,
    ⟨ascii "Sec-WebSocket-Accept", env.accept key⟩]

/-- The key of an upgrade of the version that is supported. -/
def upgradeKey (r : Request) : Option Bytes :=
  match wbyFindHeader r (ascii "Sec-WebSocket-Version") with
  | some version =>
    if version = ascii "13" then wbyFindHeader r (ascii "Sec-WebSocket-Key") else none
  | none => none

/-- `wby_connection_send_websocket_upgrade`, which is true for 0. -/
def sendWebsocketUpgrade (c : Connection) : Outcome Bool :=
  match upgradeKey c.request with
  | none => ⟨some false, c⟩
  | some key =>
    match c.responseBegin env 101 0 (upgradeHeaders env key) with
    | ⟨none, c⟩ => ⟨none, c⟩
    | ⟨some _, c⟩ => ⟨some true, c.responseEnd⟩

/-- The connection has become a WebSocket. -/
def becomeWebsocket (c : Connection) : Ran :=
  let c := { c with flags := { c.flags with websocket := true } }
  ((cb.wsConnected c.request).run env c).noted
    (.connected c.flags.alive c.socket.valid c.socket.sent)

/-- An upgrade that the application does not refuse. -/
def acceptUpgrade (c : Connection) : Ran :=
  match c.sendWebsocketUpgrade env with
  | ⟨none, c⟩ => ⟨none, [], c⟩
  | ⟨some false, c⟩ =>
    c.refuse env 400 plainTextHeaders (ascii "WebSockets couldn't not be enabled" ++ crlf)
  | ⟨some true, c⟩ => c.becomeWebsocket env cb

/-- An upgrade that the application refuses. -/
def refuseUpgrade (c : Connection) : Ran :=
  c.refuse env 400 plainTextHeaders
    (ascii "WebSockets not supported at " ++ c.request.uri ++ crlf)

/-- A request for an upgrade. -/
def serveUpgrade (c : Connection) : Ran :=
  match cb.wsConnect with
  | none => c.refuseUpgrade env
  | some wsConnect =>
    (((wsConnect c.request).run env c).andThen fun ok c =>
      if ok then c.acceptUpgrade env cb else c.refuseUpgrade env).noted (.connect c.request)

/-- A request that the application does not know. -/
def notFound (c : Connection) : Ran :=
  c.refuse env 404 [⟨ascii "Content-Type", ascii "text/html"⟩]
    (ascii "<h1>404 Not Found</h1><hr />Request: " ++ c.request.uri ++ crlf)

/-- A request for the application. -/
def serveRequest (c : Connection) : Ran :=
  (((cb.dispatch c.request).run env c).andThen fun ok c =>
    if ok then ⟨some true, [], c⟩ else c.notFound env).noted (.dispatch c.request)

/-- What follows a request that was served. -/
def afterServe (c : Connection) : Fate × Connection :=
  let (_, c) := c.setNonblocking
  if c.flags.alive then
    if c.flags.closeAfterResponse then (.ret, c.kill)
    else
      let c := c.reset cfg.requestBufferSize cfg.ioBufferSize
      (.loop, { c with state := if c.flags.websocket then .websocket else .request })
  else (.loop, c)

/-- `WBY_CON_STATE_SERVE`. -/
def serveTurn (c : Connection) : Turn :=
  match { c with ioBuf := { c.ioBuf with data := [] } }.setBlocking with
  | (false, c) => ⟨.ret, [], c⟩
  | (true, c) =>
    let ran := if wbyConIsWebsocketRequest c.request then c.serveUpgrade env cb
      else c.serveRequest env cb
    match ran.value with
    | none => ⟨.stuck, ran.notes, ran.conn⟩
    | some _ => ⟨(ran.conn.afterServe cfg).1, ran.notes, (ran.conn.afterServe cfg).2⟩

/-- What follows a frame that was served: the rest of its payload is discarded. -/
def afterFrame (c : Connection) : Fate × Connection :=
  let o := if c.bodyBytesRead < c.wsFrame.payloadLength then
      c.wbyConDiscardIncomingData (c.wsFrame.payloadLength - c.bodyBytesRead)
    else ⟨some true, c⟩
  match o with
  | ⟨none, c⟩ => (.stuck, c)
  | ⟨some false, c⟩ => (.ret, c.kill)
  | ⟨some true, c⟩ =>
    match c.setNonblocking with
    | (false, c) => (.ret, c)
    | (true, c) =>
      (.loop, { c.reset cfg.requestBufferSize cfg.ioBufferSize with state := .websocket })

/-- A frame whose header is complete. -/
def serveFrame (c : Connection) : Turn :=
  if c.wsFrame.opcode = 8 then ⟨.ret, [], c.kill⟩
  else if c.wsFrame.opcode = 9 then
    match c.sendOrKill wbyWebsocketPong with
    | (false, c) => ⟨.ret, [], c⟩
    | (true, c) => ⟨(c.afterFrame cfg).1, [], (c.afterFrame cfg).2⟩
  else
    let ran := ((cb.wsFrame c.request c.wsFrame).run env c).noted (.frame c.wsFrame)
    match ran.value with
    | none => ⟨.stuck, ran.notes, ran.conn⟩
    | some false => ⟨.ret, ran.notes, ran.conn.kill⟩
    | some true => ⟨(ran.conn.afterFrame cfg).1, ran.notes, (ran.conn.afterFrame cfg).2⟩

/-- What is done with the header of a frame, once the buffer was filled. -/
def receiveFrame (c : Connection) : Turn :=
  match wbyScanWebsocketFrame c.wsFrame c.ioBuf.data with
  | none => ⟨.ret, [], c⟩
  | some f =>
    match { c with
        wsFrame := f, bodyBytesRead := 0
        ioDataLeft := leftBehind f.headerSize c.ioBuf.data }.setBlocking with
    | (false, c) => ⟨.ret, [], c⟩
    | (true, c) => c.serveFrame env cfg cb

/-- `WBY_CON_STATE_WEBSOCKET`. -/
def websocketTurn (c : Connection) : Turn :=
  match wbySocketRecv c.socket c.ioBuf with
  | (.stuck, s, buf) => ⟨.stuck, [], { c with socket := s, ioBuf := buf }⟩
  | (.error, s, buf) => ⟨.ret, [], { c with socket := s, ioBuf := buf }.kill⟩
  | (_, s, buf) => { c with socket := s, ioBuf := buf }.receiveFrame env cfg cb

/-- A round of the loop of `wby_update_connection`. -/
def turn (c : Connection) : Turn :=
  let c := { c with flags := { c.flags with fresh := false } }
  match c.state with
  | .request => c.requestTurn
  | .sendContinue => c.continueTurn
  | .serve => c.serveTurn env cfg cb
  | .websocket => c.websocketTurn env cfg cb

/-- `wby_on_incoming`, for a socket that was accepted; it may fail to be configured. -/
def accept (configured : Bool) (fd : Socket) (c : Connection) : Connection :=
  { c.reset cfg.requestBufferSize cfg.ioBufferSize with
    flags := { Flags.none with fresh := true, alive := configured }
    socket := if configured then fd else c.socket }

end Connection

/-! ## From `accept` to `close` -/

/-- Whether a connection is in use, was removed from the server, or is one the server hangs in. -/
inductive Stage
  | live
  | removed
  | hung
deriving DecidableEq

/-- A connection, and what was noted of it. -/
structure Life where
  conn : Connection
  notes : List Note
  stage : Stage

namespace Life

variable (env : Env) (cfg : Config)

/-- A connection that was accepted. -/
def start (c : Connection) : Life := ⟨c, [], .live⟩

/-- A connection that was given up is removed at the end of `wby_update`. -/
def reap (cb : Callbacks) (l : Life) : Life :=
  if l.conn.flags.websocket then
    let ran := ((cb.wsClosed l.conn.request).run env l.conn).noted .closed
    match ran.value with
    | none => ⟨ran.conn, l.notes ++ ran.notes, .hung⟩
    | some _ => ⟨ran.conn.close, l.notes ++ ran.notes, .removed⟩
  else ⟨l.conn.close, l.notes, .removed⟩

/-- What follows a round of `wby_update_connection`. -/
def after (cb : Callbacks) (l : Life) (t : Turn) : Life :=
  let l := { l with conn := t.conn, notes := l.notes ++ t.notes }
  match t.fate with
  | .loop => l
  | .stuck => { l with stage := .hung }
  | .ret => if l.conn.flags.alive then l else l.reap env cb

/-- A round of `wby_update_connection`, and what follows it. -/
def step (l : Life) (cb : Callbacks) : Life :=
  match l.stage with
  | .live => l.after env cb (l.conn.turn env cfg cb)
  | _ => l

end Life

end Mavicona.Mumux
