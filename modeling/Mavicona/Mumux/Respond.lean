import Mavicona.Mumux.Input
import Mavicona.Mumux.Push

/-!
# Responses through a buffer of any size

Reference: `mumux/request.c` (`wby_write`, `wby_printf`), `mumux/response.c` (`wby_response_begin`,
`wby_response_end`).

A response is a list of pushes, and it is written if all of them return. The functions here go through
`wbyConnectionPush`, with its casts; for an I/O buffer whose size fits into an `int` they are those that
go through `push` (`castBegin_eq`, `castWrite_eq`, `castEnd_eq`).
-/

namespace Mavicona.Mumux

open Bytes Numeral Socket

namespace Connection

/-! ## What is pushed -/

/-- A push with a length that is cast to `int`. The loop does not go round for a negative length. -/
def intPushes (bs : Bytes) : List Bytes :=
  if intLen bs < 0 then [] else [bs.take (intLen bs).toNat]

/-- What `wby_write` pushes on a connection that is no WebSocket. -/
def writePushes (chunked : Bool) (bs : Bytes) : List Bytes :=
  if chunked then (print 16 (u32 bs.length) ++ crlf) :: intPushes bs ++ [crlf] else intPushes bs

/-- What `wby_printf` writes, of the text that was formatted. -/
def printed (env : Env) (text : Bytes) : Bytes :=
  if text.length < 1024 then text
  else text.take 1023 ++ 0 :: (List.range (text.length - 1024)).map env.spill

/-! ## The calls, if they return -/

/-- `wby_write`. -/
def castWrite (bs : Bytes) (c : Connection) : Option Connection :=
  if c.flags.websocket then some (c.wbyWrite bs).2
  else pushAll (writePushes c.flags.chunkedResponse bs) c

/-- `wby_printf`. -/
def castPrintf (env : Env) (text : Bytes) (c : Connection) : Option Connection :=
  c.castWrite (printed env text)

/-- The loop of `wby_response_begin` over the headers. -/
def castHeaders (env : Env) : List Header → Connection → Option Connection
  | [], c => some c
  | h :: hs, c => ((c.markClose h.closes).castPrintf env (headerLine h)).bind (castHeaders env hs)

/-- The connection is to be closed after the response if the client asks for it. -/
def castClose (env : Env) (c : Connection) : Option Connection :=
  if c.closeAsked then (c.markClose true).castPrintf env (ascii "Connection: close" ++ crlf) else some c

/-- The first line of a response. -/
def statusLine (status : ℤ) : Bytes :=
  ascii "HTTP/1.1 " ++ printInt status ++ [32] ++ wbyResponseStatusText status ++ crlf

/-- The header that says how long the body is, or that it comes in chunks. -/
def lengthLine (contentLength : ℤ) : Bytes :=
  if 0 ≤ contentLength then ascii "Content-Length: " ++ printInt contentLength ++ crlf
  else ascii "Transfer-Encoding: chunked" ++ crlf

/-- What `wby_response_begin` writes, once the body of the request was read. -/
def castHead (env : Env) (status contentLength : ℤ) (headers : List Header) (c : Connection) :
    Option Connection := do
  let c ← c.castPrintf env (statusLine status)
  let c ← c.castPrintf env (lengthLine contentLength)
  let c ← c.castPrintf env (ascii "Server: wby" ++ crlf)
  let c ← castHeaders env headers c
  let c ← c.castClose env
  let c ← c.castPrintf env crlf
  return c.markChunked contentLength

/-- The first part of `wby_response_begin`: the rest of the body of the request is read. -/
def discardBody (c : Connection) : Outcome Bool :=
  if c.bodyBytesRead < c.request.contentLength then
    c.wbyConDiscardIncomingData (c.request.contentLength - c.bodyBytesRead)
  else ⟨some true, c⟩

/-- `wby_response_begin`, which is true for 0. -/
def castBegin (env : Env) (status contentLength : ℤ) (headers : List Header) (c : Connection) :
    Outcome Bool :=
  match c.discardBody with
  | ⟨none, c⟩ => ⟨none, c⟩
  | ⟨some false, c⟩ => ⟨some false, c.kill⟩
  | ⟨some true, c⟩ =>
    match c.castHead env status contentLength headers with
    | none => ⟨none, c⟩
    | some d => ⟨some true, d⟩

/-- The end of a chunked response. -/
def castEndChunks (c : Connection) : Option Connection :=
  if c.flags.chunkedResponse then
    (pushAll [lastChunk] c).map fun c => { c with flags := { c.flags with chunkedResponse := false } }
  else some c

/-- `wby_response_end`. -/
def castEnd (c : Connection) : Option Connection := do
  let c ← c.castEndChunks
  let c ← pushAll [[]] c
  return if c.request.contentLength = 0 then c.close else c

/-! ## Pushes, one after the other -/

section Pushes

variable {c d : Connection} {bs : Bytes} {pushes pushes' : List Bytes}

theorem pushAll_append (pushes pushes' : List Bytes) (c : Connection) :
    pushAll (pushes ++ pushes') c = (pushAll pushes c).bind (pushAll pushes') := by
  induction pushes generalizing c with
  | nil => rfl
  | cons bs pushes ih =>
    rw [List.cons_append, pushAll, pushAll]
    rcases c.wbyConnectionPush bs with ⟨_ | ok, d⟩
    · rfl
    · exact ih d

theorem castPushLoop_frame (fuel : ℕ) (bs : Bytes) (c : Connection) :
    (castPushLoop fuel bs c).conn = { c with
      socket := (castPushLoop fuel bs c).conn.socket
      ioBuf := (castPushLoop fuel bs c).conn.ioBuf } := by
  induction fuel generalizing bs c with
  | zero => cases bs <;> rfl
  | succ fuel ih =>
    cases bs with
    | nil => rfl
    | cons b bs =>
      rw [castPushLoop.eq_3 _ _ _ (List.cons_ne_nil b bs)]
      dsimp only
      generalize (if ((b :: bs).length : ℤ) < toInt c.ioBuf.max - toInt c.ioBuf.data.length
        then ((b :: bs).length : ℤ)
        else toInt c.ioBuf.max - toInt c.ioBuf.data.length) = copySize
      split_ifs with hneg hfull
      · rfl
      · rcases wbySocketFlush c.socket
          { c.ioBuf with data := c.ioBuf.data ++ (b :: bs).take copySize.toNat } with ⟨_ | _, t, buf⟩
        · rfl
        · dsimp only
          split_ifs
          · rfl
          · exact ih _ { c with socket := t, ioBuf := buf }
      · exact ih _ { c with
          ioBuf := { c.ioBuf with data := c.ioBuf.data ++ (b :: bs).take copySize.toNat } }

/-- Nothing but the socket and the I/O buffer changes. -/
theorem pushAll_frame (h : pushAll pushes c = some d) :
    d = { c with socket := d.socket, ioBuf := d.ioBuf } := by
  induction pushes generalizing c with
  | nil =>
    obtain rfl := Option.some.inj h
    rfl
  | cons bs pushes ih =>
    have hframe : (c.wbyConnectionPush bs).conn = { c with
        socket := (c.wbyConnectionPush bs).conn.socket
        ioBuf := (c.wbyConnectionPush bs).conn.ioBuf } := by
      rw [wbyConnectionPush]
      split_ifs
      · rfl
      · rfl
      · exact castPushLoop_frame _ bs c
    rw [pushAll] at h
    generalize c.wbyConnectionPush bs = o at hframe h
    obtain ⟨_ | ok, e⟩ := o
    · cases h
    · have hrest := ih h
      rw [show e = _ from hframe] at hrest
      exact hrest

theorem pushAll_flags_eq (h : pushAll pushes c = some d) : d.flags = c.flags := by
  rw [pushAll_frame h]

/-- The flag is not looked at. -/
theorem pushAll_markClose (pushes : List Bytes) (close : Bool) (c : Connection) :
    pushAll pushes (c.markClose close) = (pushAll pushes c).map (markClose close) := by
  rw [markClose, pushAll_flags]
  refine Option.map_congr fun d hd => ?_
  rw [markClose, pushAll_flags_eq hd]

end Pushes

/-! ## The texts of a header section -/

section Texts

variable {env : Env} {c d : Connection} {r : Option Connection} {texts texts' : List Bytes}
  {close close' : Bool}

/-- What is pushed for the texts of `wby_printf`. -/
def printPushes (env : Env) (chunked : Bool) (texts : List Bytes) : List Bytes :=
  texts.flatMap fun text => writePushes chunked (printed env text)

/-- A call writes texts, and may note that the connection is to be closed. -/
def Prints (env : Env) (texts : List Bytes) (close : Bool) (c : Connection)
    (r : Option Connection) : Prop :=
  r = (pushAll (printPushes env c.flags.chunkedResponse texts) c).map (markClose close)

theorem markClose_markClose (close close' : Bool) (c : Connection) :
    (c.markClose close).markClose close' = c.markClose (close || close') := by
  rw [markClose, markClose, markClose]
  dsimp only
  rw [Bool.or_assoc]

theorem markClose_false (c : Connection) : c.markClose false = c := by
  rw [markClose, Bool.or_false]

/-- A flag that is set first. -/
theorem Prints.of_markClose (h : Prints env texts close' (c.markClose close) r) :
    Prints env texts (close || close') c r := by
  rw [Prints] at h ⊢
  rw [h, pushAll_markClose, Option.map_map]
  refine Option.map_congr fun d _ => ?_
  exact markClose_markClose close close' d

/-- One call after the other. -/
theorem Prints.bind {f : Connection → Option Connection} (hr : Prints env texts close c r)
    (hf : ∀ d : Connection, d.flags = c.flags → d.request = c.request →
      Prints env texts' close' (d.markClose close) (f (d.markClose close))) :
    Prints env (texts ++ texts') (close || close') c (r.bind f) := by
  rw [Prints] at hr ⊢
  rw [hr, printPushes, printPushes, List.flatMap_append, pushAll_append, Option.bind_map,
    Option.map_bind]
  refine Option.bind_congr fun d hd => ?_
  have hframe := pushAll_frame hd
  have hflags : d.flags = c.flags := by rw [hframe]
  have hrest := (hf d hflags (by rw [hframe])).of_markClose
  rw [Prints, hflags] at hrest
  exact hrest

end Texts

/-! ## When a header section is written -/

section Head

variable {c d : Connection} {env : Env} {status contentLength : ℤ} {headers : List Header}

end Head

/-! ## Chunks -/

section Chunks

variable {c d : Connection} {writes : List Bytes}

end Chunks

section Begin

variable {c d : Connection} {env : Env} {status contentLength : ℤ} {headers : List Header}

theorem received_discardBody (c : Connection) : c.Received c.discardBody.conn := by
  rw [discardBody]
  split_ifs
  · exact received_discardLoop _ _ c
  · exact .refl c

end Begin

/-! ## A size that fits -/

section Small

variable {c d : Connection}

theorem Received.small (h : c.Received d) (hc : c.Small) : d.Small := hc.of_eq (by rw [h])

theorem pushAll_cons_small (hc : c.Small) (bs : Bytes) (pushes : List Bytes) :
    pushAll (bs :: pushes) c = pushAll pushes (c.push bs).2 := by
  rw [pushAll, hc.wbyConnectionPush_eq]

theorem pushAll_intPushes (hc : c.Small) (bs : Bytes) :
    pushAll (intPushes bs) c = some (c.pushInt bs).2 := by
  rw [intPushes, pushInt]
  split_ifs
  · rfl
  · rw [pushAll_cons_small hc]
    rfl

theorem Small.pushInt (hc : c.Small) (bs : Bytes) : (c.pushInt bs).2.Small := by
  rw [Connection.pushInt]
  split_ifs
  · exact hc
  · exact hc.push _

/-- `wby_write` is the one that goes through `push`. -/
theorem castWrite_eq (hc : c.Small) (bs : Bytes) : c.castWrite bs = some (c.wbyWrite bs).2 := by
  rw [castWrite]
  split_ifs with hws
  · rfl
  · rw [wbyWrite, if_neg hws, writePushes]
    split_ifs
    · rw [List.cons_append, pushAll_cons_small hc, pushAll_append,
        pushAll_intPushes (hc.push _), Option.bind_some, pushAll_cons_small ((hc.push _).pushInt bs)]
      rfl
    · exact pushAll_intPushes hc bs

theorem ioBuf_sendOrKill (bs : Bytes) (c : Connection) : (c.sendOrKill bs).2.ioBuf = c.ioBuf := by
  rw [sendOrKill]
  split <;> rfl

theorem Small.wbyWrite (hc : c.Small) (bs : Bytes) : (c.wbyWrite bs).2.Small := by
  rw [Connection.wbyWrite]
  split_ifs
  · have hheader := ioBuf_sendOrKill (wbyMakeWebsocketHeader c.wsOpcode (intLen bs) false)
      { c with wsOpcode := 0 }
    dsimp only
    split
    · rename_i h
      rw [h] at hheader
      exact hc.of_eq hheader
    · rename_i h
      rw [h] at hheader
      exact hc.of_eq ((ioBuf_sendOrKill _ _).trans hheader)
  · exact ((hc.push _).pushInt bs).push crlf
  · exact hc.pushInt bs

variable (env : Env)

theorem castPrintf_eq (hc : c.Small) (text : Bytes) :
    c.castPrintf env text = some (c.wbyPrintf env text) :=
  castWrite_eq hc _

theorem Small.wbyPrintf (hc : c.Small) (text : Bytes) : (c.wbyPrintf env text).Small := hc.wbyWrite _

theorem Small.responseHeaders (hc : c.Small) (headers : List Header) :
    (responseHeaders env headers c).Small := by
  induction headers generalizing c with
  | nil => exact hc
  | cons h hs ih =>
    have hmark : (c.markClose h.closes).Small := hc.of_eq rfl
    exact ih (hmark.wbyPrintf env (headerLine h))

theorem castHeaders_eq (hc : c.Small) (headers : List Header) :
    castHeaders env headers c = some (responseHeaders env headers c) := by
  induction headers generalizing c with
  | nil => rfl
  | cons h hs ih =>
    have hmark : (c.markClose h.closes).Small := hc.of_eq rfl
    rw [castHeaders, castPrintf_eq env hmark, Option.bind_some, ih (hmark.wbyPrintf env _)]
    rfl

theorem castClose_eq (hc : c.Small) : c.castClose env = some (c.responseClose env) := by
  have hmark : (c.markClose true).Small := hc.of_eq rfl
  rw [castClose, responseClose]
  split_ifs
  · exact castPrintf_eq env hmark (ascii "Connection: close" ++ crlf)
  · rfl

theorem Small.responseClose (hc : c.Small) : (c.responseClose env).Small := by
  have hmark : (c.markClose true).Small := hc.of_eq rfl
  rw [Connection.responseClose]
  split_ifs
  · exact hmark.wbyPrintf env (ascii "Connection: close" ++ crlf)
  · exact hc

theorem castHead_eq (hc : c.Small) (status contentLength : ℤ) (headers : List Header) :
    c.castHead env status contentLength headers =
      some (c.responseHead env status contentLength headers) := by
  have h₁ := hc.wbyPrintf env (statusLine status)
  have h₂ := h₁.wbyPrintf env (lengthLine contentLength)
  have h₃ := h₂.wbyPrintf env (ascii "Server: wby" ++ crlf)
  have h₄ := h₃.responseHeaders env headers
  have h₅ := h₄.responseClose env
  simp only [castHead, castPrintf_eq env hc, castPrintf_eq env h₁, castPrintf_eq env h₂,
    castHeaders_eq env h₃, castClose_eq env h₄, castPrintf_eq env h₅, Option.bind_eq_bind,
    Option.bind_some, Option.pure_def]
  rfl

theorem Small.markChunked (hc : c.Small) (contentLength : ℤ) : (c.markChunked contentLength).Small := by
  rw [Connection.markChunked]
  split_ifs
  · exact hc.of_eq rfl
  · exact hc

theorem Small.responseHead (hc : c.Small) (status contentLength : ℤ) (headers : List Header) :
    (c.responseHead env status contentLength headers).Small := by
  rw [Connection.responseHead]
  refine Small.markChunked (Small.wbyPrintf env (Small.responseClose env ?_) _) _
  exact (((hc.wbyPrintf env _).wbyPrintf env _).wbyPrintf env _).responseHeaders env headers

theorem Small.responseBegin (hc : c.Small) (status contentLength : ℤ) (headers : List Header) :
    (c.responseBegin env status contentLength headers).conn.Small := by
  have hreceived := received_discardBody c
  rw [Connection.responseBegin]
  rw [discardBody] at hreceived
  split_ifs at hreceived ⊢
  · generalize wbyConDiscardIncomingData _ c = r at hreceived ⊢
    obtain ⟨_ | _ | _, d⟩ := r
    · exact hreceived.small hc
    · exact (hreceived.small hc).of_eq rfl
    · exact (hreceived.small hc).responseHead env status contentLength headers
  · exact hc.responseHead env status contentLength headers

/-- `wby_response_begin` is the one that goes through `push`. -/
theorem castBegin_eq (hc : c.Small) (status contentLength : ℤ) (headers : List Header) :
    c.castBegin env status contentLength headers = c.responseBegin env status contentLength headers := by
  have hreceived := received_discardBody c
  rw [castBegin, responseBegin]
  rw [discardBody] at hreceived ⊢
  split_ifs at hreceived ⊢
  · generalize wbyConDiscardIncomingData _ c = r at hreceived ⊢
    obtain ⟨_ | _ | _, d⟩ := r
    · rfl
    · rfl
    · dsimp only
      rw [castHead_eq env (hreceived.small hc)]
  · dsimp only
    rw [castHead_eq env hc]

/-- `wby_response_end` is the one that goes through `push`. -/
theorem castEnd_eq (hc : c.Small) : c.castEnd = some c.responseEnd := by
  have hchunks : c.castEndChunks = some c.endChunks ∧ c.endChunks.Small := by
    rw [castEndChunks, endChunks]
    split_ifs
    · rw [pushAll_cons_small hc]
      exact ⟨rfl, (hc.push lastChunk).of_eq rfl⟩
    · exact ⟨rfl, hc⟩
  rw [castEnd, hchunks.1]
  simp only [Option.bind_eq_bind, Option.bind_some, pushAll_cons_small hchunks.2, Option.pure_def]
  rfl

end Small

end Connection

end Mavicona.Mumux
