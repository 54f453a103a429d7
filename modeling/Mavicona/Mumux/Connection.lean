import Mavicona.Common.Socket
import Mavicona.Mumux.Request

/-!
# Connections

Reference: `mumux/socket.c`, `mumux/connection.c`, `mumux/request.c`, `mumux/response.c`,
`mumux/util.c` (`wby_make_websocket_header`, `wby_read_buffered_data`).

What a callback can do with a connection: read the body of a request or the payload of a frame, write
a response through the I/O buffer, and send frames without a buffer.
-/

namespace Mavicona.Mumux

open Bytes Numeral

/-! ## The state of a connection -/

/-- `wby_buffer`: the bytes in use, and how many there may be. -/
structure Buffer where
  data : Bytes
  max : ℕ
deriving DecidableEq

/-- `wby_connection_flags`. -/
structure Flags where
  alive : Bool
  fresh : Bool
  closeAfterResponse : Bool
  chunkedResponse : Bool
  websocket : Bool
deriving DecidableEq

/-- `flags = 0`. -/
def Flags.none : Flags := ⟨false, false, false, false, false⟩

/-- `wby_connection_state`. -/
inductive State
  | request
  | sendContinue
  | serve
  | websocket
deriving DecidableEq

/-- `wby_frame`. -/
structure Frame where
  fin : Bool
  masked : Bool
  opcode : UInt8
  headerSize : ℕ
  maskKey : Bytes
  payloadLength : ℤ
deriving DecidableEq

/-- `wby_connection`. -/
structure Connection where
  request : Request
  flags : Flags
  state : State
  socket : Socket
  headerBuf : Buffer
  ioBuf : Buffer
  headerBodyLeft : ℕ
  ioDataLeft : ℕ
  continueDataLeft : ℕ
  bodyBytesRead : ℕ
  wsFrame : Frame
  wsOpcode : UInt8
  blockingCount : UInt64
deriving DecidableEq

/-- A slot that `memset` has cleared, with a socket. -/
def Connection.blank (socket : Socket) : Connection where
  request := ⟨[], [], [], none, 0, []⟩
  flags := .none
  state := .request
  socket := socket
  headerBuf := ⟨[], 0⟩
  ioBuf := ⟨[], 0⟩
  headerBodyLeft := 0
  ioDataLeft := 0
  continueDataLeft := 0
  bodyBytesRead := 0
  wsFrame := ⟨false, false, 0, 0, [0, 0, 0, 0], 0⟩
  wsOpcode := 0
  blockingCount := 0

/-- What a call comes to: it returns a value, or it never returns. -/
structure Outcome (α : Type) where
  value : Option α
  conn : Connection

/-- What the model does not look into: the bytes on the stack behind the buffer of `wby_printf`, and
the digest that answers a key (`wby_sha1`, `wby_base64_encode`), which is 20 bytes long before it is
encoded. -/
structure Env where
  spill : ℕ → UInt8
  accept : Bytes → Bytes
  length_accept : ∀ key, (accept key).length = 28

/-- A stack of zeros, and a digest of zeros. -/
def Env.zero : Env := ⟨fun _ => 0, fun _ => List.replicate 28 65, fun _ => List.length_replicate⟩

/-! ## The socket -/

/-- The loop of `wby_socket_send`. Every round of it sends a byte at least, so that the number of
bytes is enough for the number of rounds. -/
def sendLoop : ℕ → Bytes → Socket → Bool × Socket
  | _, [], s => (true, s)
  | 0, _ :: _, s => (false, s)
  | fuel + 1, b :: bs, s =>
    match s.send (b :: bs) with
    | (none, s) => (false, s)
    | (some k, s) => sendLoop fuel ((b :: bs).drop k) s

/-- `wby_socket_send`, which is true for 0. -/
def wbySocketSend (bs : Bytes) (s : Socket) : Bool × Socket := sendLoop bs.length bs s

/-- `wby_socket_flush`. -/
def wbySocketFlush (s : Socket) (buf : Buffer) : Bool × Socket × Buffer :=
  match wbySocketSend buf.data s with
  | (true, s) => (true, s, { buf with data := [] })
  | (false, s) => (false, s, buf)

/-- What `wby_socket_recv` comes to. -/
inductive Fill
  | ok
  | error
  | full
  | stuck
deriving DecidableEq

/-- The loop of `wby_socket_recv`, for a buffer whose size fits into an `int`: the space left is computed
in one. Every round of it fills a byte at least. -/
def recvLoop : ℕ → Socket → Buffer → Fill × Socket × Buffer
  | 0, s, buf => (.full, s, buf)
  | fuel + 1, s, buf =>
    if buf.max - buf.data.length = 0 then (.full, s, buf)
    else
      match s.recv (buf.max - buf.data.length) with
      | (.bytes bs, s) => recvLoop fuel s { buf with data := buf.data ++ bs }
      | (.again, s) => (.ok, s, buf)
      | (.closed, s) => (.error, s, buf)
      | (.error, s) => (.error, s, buf)
      | (.stuck, s) => (.stuck, s, buf)

/-- `wby_socket_recv`. -/
def wbySocketRecv (s : Socket) (buf : Buffer) : Fill × Socket × Buffer :=
  recvLoop (buf.max - buf.data.length) s buf

namespace Connection

/-- The connection is given up. -/
def kill (c : Connection) : Connection := { c with flags := { c.flags with alive := false } }

/-- `wby_connection_set_blocking`, which is true for 0. -/
def setBlocking (c : Connection) : Bool × Connection :=
  if c.blockingCount = 0 then
    match c.socket.setBlocking true with
    | (true, s) => (true, { c with socket := s, blockingCount := 1 })
    | (false, s) => (false, { c with socket := s }.kill)
  else (true, { c with blockingCount := c.blockingCount + 1 })

/-- `wby_connection_set_nonblocking`, which is true for 0. -/
def setNonblocking (c : Connection) : Bool × Connection :=
  if c.flags.alive ∧ c.blockingCount = 1 then
    match c.socket.setBlocking false with
    | (true, s) => (true, { c with socket := s, blockingCount := c.blockingCount - 1 })
    | (false, s) => (false, { c with socket := s }.kill)
  else (true, { c with blockingCount := c.blockingCount - 1 })

/-- `wby_connection_reset`. -/
def reset (requestBufferSize ioBufferSize : ℕ) (c : Connection) : Connection :=
  { c with
    headerBuf := ⟨[], requestBufferSize⟩
    ioBuf := ⟨[], ioBufferSize⟩
    headerBodyLeft := 0
    ioDataLeft := 0
    continueDataLeft := 0
    bodyBytesRead := 0
    state := .request
    blockingCount := 0 }

/-- `wby_connection_close`. -/
def close (c : Connection) : Connection :=
  { c with socket := c.socket.close, flags := .none }

/-! ## Writing -/

/-- The loop of `wby_connection_push`, for a buffer whose size fits into an `int`; `castPushLoop` is the
one with the casts. Every round of it but the first takes a byte at least. -/
def pushLoop : ℕ → Bytes → Connection → Bool × Connection
  | _, [], c => (true, c)
  | 0, _ :: _, c => (false, c)
  | fuel + 1, data, c =>
    let space := c.ioBuf.max - c.ioBuf.data.length
    let c := { c with ioBuf := { c.ioBuf with data := c.ioBuf.data ++ data.take space } }
    let data := data.drop space
    if c.ioBuf.data.length = c.ioBuf.max then
      match wbySocketFlush c.socket c.ioBuf with
      | (false, s, buf) => (false, { c with socket := s, ioBuf := buf })
      | (true, s, buf) =>
        let c := { c with socket := s, ioBuf := buf }
        if c.ioBuf.max ≤ data.length then
          match wbySocketSend data c.socket with
          | (ok, s) => (ok, { c with socket := s })
        else pushLoop fuel data c
    else pushLoop fuel data c

/-- `wby_connection_push`, which is true for 0; `wbyConnectionPush` is the one with the casts. -/
def push (data : Bytes) (c : Connection) : Bool × Connection :=
  if c.state ≠ .serve then (false, c)
  else if data = [] then
    match wbySocketFlush c.socket c.ioBuf with
    | (ok, s, buf) => (ok, { c with socket := s, ioBuf := buf })
  else pushLoop (data.length + 1) data c

/-- A length that is passed as an `int`. -/
def intLen (bs : Bytes) : ℤ := toInt bs.length

theorem intLen_of_lt {bs : Bytes} (h : bs.length < 2 ^ 31) : intLen bs = bs.length := toInt_of_lt h

/-- `wby_connection_push` with a length that is cast to `int`. -/
def pushInt (bs : Bytes) (c : Connection) : Bool × Connection :=
  if intLen bs < 0 then (c.state = .serve, c) else c.push (bs.take (intLen bs).toNat)

end Connection

/-- `wby_make_websocket_header`. -/
def wbyMakeWebsocketHeader (opcode : UInt8) (payloadLen : ℤ) (fin : Bool) : Bytes :=
  let byte (k : ℕ) : UInt8 := UInt8.ofInt (payloadLen >>> k)
  let header := (if fin then 128 else 0) ||| opcode
  if payloadLen < 126 then [header, byte 0 &&& 127]
  else if payloadLen < 65536 then [header, 126, byte 8, byte 0]
  else [header, 127, 0, 0, 0, 0, byte 24, byte 16, byte 8, byte 0]

namespace Connection

/-- Bytes are sent without a buffer; the connection is given up if that fails. -/
def sendOrKill (bs : Bytes) (c : Connection) : Bool × Connection :=
  match wbySocketSend bs c.socket with
  | (true, s) => (true, { c with socket := s })
  | (false, s) => (false, { c with socket := s }.kill)

/-- `wby_write`, which is true for 0. -/
def wbyWrite (bs : Bytes) (c : Connection) : Bool × Connection :=
  if c.flags.websocket then
    let header := wbyMakeWebsocketHeader c.wsOpcode (intLen bs) false
    match { c with wsOpcode := 0 }.sendOrKill header with
    | (false, c) => (false, c)
    | (true, c) => c.sendOrKill (bs.take (intLen bs).toNat)
  else if c.flags.chunkedResponse then
    let (_, c) := c.push (print 16 (u32 bs.length) ++ crlf)
    let (_, c) := c.pushInt bs
    c.push crlf
  else c.pushInt bs

/-- Calls of `wby_write`, one after the other. -/
def writeAll (writes : List Bytes) (c : Connection) : Connection :=
  writes.foldl (fun c bs => (c.wbyWrite bs).2) c

/-- `wby_printf`, with the text that was formatted. A text that does not fit into the buffer is cut
off, but its length is not. -/
def wbyPrintf (env : Env) (text : Bytes) (c : Connection) : Connection :=
  let buffer := if text.length < 1024 then text
    else text.take 1023 ++ 0 :: (List.range (text.length - 1024)).map env.spill
  (c.wbyWrite buffer).2

/-! ## Reading -/

/-- The loop of `wby_read`: whether it succeeds, and what was received. A round in which the other
side has closed the stream receives nothing, and so do all that follow; the others receive a byte at
least. -/
def readLoop : ℕ → ℕ → Socket → Option Bool × Bytes × Socket
  | _, 0, s => (some true, [], s)
  | 0, _ + 1, s => (none, [], s)
  | fuel + 1, len + 1, s =>
    match s.recv (len + 1) with
    | (.bytes bs, s) =>
      let (ok, got, s) := readLoop fuel (len + 1 - bs.length) s
      (ok, bs ++ got, s)
    | (.closed, s) => readLoop fuel (len + 1) s
    | (.again, s) => (some false, [], s)
    | (.error, s) => (some false, [], s)
    | (.stuck, s) => (none, [], s)

/-- How many bytes are left of a buffer behind the first `size`, which is computed as an `int`. Where it
is negative nothing is read, as where it is 0. -/
def leftBehind (size : ℕ) (bs : Bytes) : ℕ := (intLen bs - size).toNat

/-- `wby_read_buffered_data`: where the `left` bytes of a buffer begin is computed as an `int`. -/
def readBuffered (left : ℕ) (buf : Buffer) (len : ℕ) : Bytes :=
  (buf.data.drop (intLen buf.data - left).toNat).take (min len left)

/-- The loop at the end of `wby_read`, from the `i`-th byte of the payload on. -/
def unmask (key : Bytes) : ℕ → Bytes → Bytes
  | _, [] => []
  | i, b :: bs => (b ^^^ key.getD (i % 4) 0) :: unmask key (i + 1) bs

/-- The part of `wby_read` that is buffered, behind the header section or the header of a frame. -/
def readBuffers (len : ℕ) (c : Connection) : Bytes × Connection :=
  let header := readBuffered c.headerBodyLeft c.headerBuf len
  let io := readBuffered c.ioDataLeft c.ioBuf (len - header.length)
  (header ++ io, { c with
    headerBodyLeft := c.headerBodyLeft - header.length
    ioDataLeft := c.ioDataLeft - io.length })

/-- The frame that is read is masked. -/
def Masked (c : Connection) : Prop := c.flags.websocket ∧ c.wsFrame.masked

instance (c : Connection) : Decidable c.Masked := inferInstanceAs (Decidable (_ ∧ _))

/-- The bytes of a body or of a payload, as they are given to the caller. -/
def clear (c : Connection) (bs : Bytes) : Bytes :=
  if c.Masked then unmask c.wsFrame.maskKey c.bodyBytesRead bs else bs

/-- The end of `wby_read`, by what its loop comes to. -/
def endRead (c d : Connection) (bs : Bytes) : Option Bool → Outcome (Bool × Bytes)
  | none => ⟨none, d⟩
  | some false => ⟨some (false, bs), d.kill⟩
  | some true => ⟨some (true, c.clear bs), d⟩

/-- `wby_read`: whether it succeeds, and what is in the buffer of the caller then. -/
def wbyRead (len : ℕ) (c : Connection) : Outcome (Bool × Bytes) :=
  let (buffered, d) := c.readBuffers len
  let (ok, got, s) := readLoop (len - buffered.length) (len - buffered.length) d.socket
  let bs := buffered ++ got
  c.endRead { d with socket := s, bodyBytesRead := c.bodyBytesRead + bs.length } bs ok

/-- The loop of `wby_con_discard_incoming_data`. -/
def discardLoop : ℕ → ℕ → Connection → Outcome Bool
  | _, 0, c => ⟨some true, c⟩
  | 0, _ + 1, c => ⟨none, c⟩
  | fuel + 1, count + 1, c =>
    let size := min (count + 1) 1024
    match c.wbyRead size with
    | ⟨none, c⟩ => ⟨none, c⟩
    | ⟨some (false, _), c⟩ => ⟨some false, c⟩
    | ⟨some (true, _), c⟩ => discardLoop fuel (count + 1 - size) c

/-- `wby_con_discard_incoming_data`. -/
def wbyConDiscardIncomingData (count : ℤ) (c : Connection) : Outcome Bool :=
  discardLoop count.toNat count.toNat c

end Connection

/-! ## Responses -/

/-- `wby_response_status_text`. -/
def wbyResponseStatusText (status : ℤ) : Bytes :=
  ascii (match status with
    | 100 => "Continue"
    | 101 => "Switching Protocols"
    | 200 => "OK"
    | 201 => "Created"
    | 202 => "Accepted"
    | 203 => "Non-Authoritative Information"
    | 204 => "No Content"
    | 205 => "Reset Content"
    | 206 => "Partial Content"
    | 300 => "Multiple Choices"
    | 301 => "Moved Permanently"
    | 302 => "Found"
    | 303 => "See Other"
    | 304 => "Not Modified"
    | 305 => "Use Proxy"
    | 307 => "Temporary Redirect"
    | 400 => "Bad Request"
    | 401 => "Unauthorized"
    | 402 => "Payment Required"
    | 403 => "Forbidden"
    | 404 => "Not Found"
    | 405 => "Method Not Allowed"
    | 406 => "Not Acceptable"
    | 407 => "Proxy Authentication Required"
    | 408 => "Request Time-out"
    | 409 => "Conflict"
    | 410 => "Gone"
    | 411 => "Length Required"
    | 412 => "Precondition Failed"
    | 413 => "Request Entity Too Large"
    | 414 => "Request-URI Too Large"
    | 415 => "Unsupported Media Type"
    | 416 => "Requested range not satisfiable"
    | 417 => "Expectation Failed"
    | 500 => "Internal Server Error"
    | 501 => "Not Implemented"
    | 502 => "Bad Gateway"
    | 503 => "Service Unavailable"
    | 504 => "Gateway Time-out"
    | 505 => "HTTP Version not supported"
    | _ => "Unknown")

/-- `%d`. -/
def printInt (n : ℤ) : Bytes := if n < 0 then 45 :: print 10 n.natAbs else print 10 n.natAbs

/-- A header that asks for the connection to be closed. -/
def Header.closes (h : Header) : Bool :=
  caseEq h.name (ascii "Connection") && caseEq h.value (ascii "close")

/-- A line of a header section. -/
def headerLine (h : Header) : Bytes := h.name ++ ascii ": " ++ h.value ++ crlf

namespace Connection

/-- The connection is to be closed after the response. -/
def markClose (close : Bool) (c : Connection) : Connection :=
  { c with flags := { c.flags with closeAfterResponse := c.flags.closeAfterResponse || close } }

/-- The loop of `wby_response_begin` over the headers. -/
def responseHeaders (env : Env) : List Header → Connection → Connection
  | [], c => c
  | h :: hs, c => responseHeaders env hs ((c.markClose h.closes).wbyPrintf env (headerLine h))

/-- The client asks for the connection to be closed, and the response does not say so yet. -/
def closeAsked (c : Connection) : Bool :=
  !c.flags.closeAfterResponse &&
    ((wbyFindHeader c.request (ascii "Connection")).any fun v => caseEq (ascii "close") v)

/-- The connection is to be closed after the response if the client asks for it. -/
def responseClose (env : Env) (c : Connection) : Connection :=
  if c.closeAsked then (c.markClose true).wbyPrintf env (ascii "Connection: close" ++ crlf) else c

/-- The response is sent in chunks if its length is not known. -/
def markChunked (contentLength : ℤ) (c : Connection) : Connection :=
  if contentLength < 0 then { c with flags := { c.flags with chunkedResponse := true } } else c

/-- What `wby_response_begin` writes, once the body of the request was read. -/
def responseHead (env : Env) (status contentLength : ℤ) (headers : List Header) (c : Connection) :
    Connection :=
  let c := c.wbyPrintf env
    (ascii "HTTP/1.1 " ++ printInt status ++ [32] ++ wbyResponseStatusText status ++ crlf)
  let c := c.wbyPrintf env
    (if 0 ≤ contentLength then ascii "Content-Length: " ++ printInt contentLength ++ crlf
     else ascii "Transfer-Encoding: chunked" ++ crlf)
  let c := c.wbyPrintf env (ascii "Server: wby" ++ crlf)
  let c := responseHeaders env headers c
  let c := c.responseClose env
  let c := c.wbyPrintf env crlf
  c.markChunked contentLength

/-- `wby_response_begin`, which is true for 0. -/
def responseBegin (env : Env) (status contentLength : ℤ) (headers : List Header) (c : Connection) :
    Outcome Bool :=
  if c.bodyBytesRead < c.request.contentLength then
    match c.wbyConDiscardIncomingData (c.request.contentLength - c.bodyBytesRead) with
    | ⟨none, c⟩ => ⟨none, c⟩
    | ⟨some false, c⟩ => ⟨some false, c.kill⟩
    | ⟨some true, c⟩ => ⟨some true, c.responseHead env status contentLength headers⟩
  else ⟨some true, c.responseHead env status contentLength headers⟩

/-- The last chunk, with the empty line behind it. -/
def lastChunk : Bytes := [48] ++ crlf ++ crlf

/-- The end of a chunked response. -/
def endChunks (c : Connection) : Connection :=
  if c.flags.chunkedResponse then
    let (_, c) := c.push lastChunk
    { c with flags := { c.flags with chunkedResponse := false } }
  else c

/-- `wby_response_end`. -/
def responseEnd (c : Connection) : Connection :=
  let (_, c) := c.endChunks.push []
  if c.request.contentLength = 0 then c.close else c

/-! ## Frames -/

/-- `wby_frame_begin`, which is true for 0. -/
def frameBegin (opcode : ℕ) (c : Connection) : Bool × Connection :=
  { c with wsOpcode := UInt8.ofNat opcode }.setBlocking

/-- `wby_frame_end`, which is true for 0. -/
def frameEnd (c : Connection) : Bool × Connection :=
  (c.sendOrKill (wbyMakeWebsocketHeader c.wsOpcode 0 true)).2.setNonblocking

end Connection

/-! ## Sending to a socket that is open -/

section Sending

open Socket

variable {s : Socket}

theorem sendLoop_of_open (h : s.Open) {fuel : ℕ} {bs : Bytes} (hfuel : bs.length ≤ fuel) :
    ∃ t, sendLoop fuel bs s = (true, t) ∧ s.Took bs t := by
  induction fuel generalizing s bs with
  | zero =>
    obtain rfl := List.eq_nil_of_length_eq_zero (Nat.le_zero.mp hfuel)
    exact ⟨s, rfl, .refl h⟩
  | succ fuel ih =>
    cases bs with
    | nil => exact ⟨s, rfl, .refl h⟩
    | cons b bs =>
      obtain ⟨k, t, hsend, hk, ht⟩ := h.send (List.cons_ne_nil b bs)
      have hrest : ((b :: bs).drop k).length ≤ fuel := by
        rw [List.length_drop]
        omega
      obtain ⟨u, hu, htook⟩ := ih ht.isOpen hrest
      refine ⟨u, ?_, ?_⟩
      · rw [sendLoop, hsend]
        exact hu
      · have := ht.trans htook
        rwa [List.take_append_drop] at this

/-- Everything is sent. -/
theorem wbySocketSend_of_open (h : s.Open) (bs : Bytes) :
    ∃ t, wbySocketSend bs s = (true, t) ∧ s.Took bs t :=
  sendLoop_of_open h le_rfl

end Sending

end Mavicona.Mumux
