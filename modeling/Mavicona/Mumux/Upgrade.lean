import Mavicona.Mumux.Calls
import Mavicona.Mumux.Chunked

/-!
# The response to an upgrade

Reference: `mumux/connection.c` (`wby_connection_send_websocket_upgrade`), `mumux/response.c`.

The response goes through `wby_response_begin` and `wby_response_end` as any other, and
`wby_response_end` closes the connection of a request without a body. `sendWebsocketUpgrade_spec` says
what is sent on a connection that is `Ready` otherwise, for a request that has one.
-/

namespace Mavicona.Mumux

open Bytes Numeral Socket

/-- The response that accepts an upgrade. -/
def upgradeResponse (env : Env) (key : Bytes) : Bytes :=
  ascii "HTTP/1.1 101 Switching Protocols" ++ crlf ++ ascii "Content-Length: 0" ++ crlf ++
    ascii "Server: wby" ++ crlf ++ (Connection.upgradeHeaders env key).flatMap headerLine ++ crlf

namespace Connection

variable {env : Env} {c d : Connection}

/-! ## A response that is not chunked -/

section Plain

theorem pushed_wbyPrintf (hc : c.Writable) (hchunked : c.flags.chunkedResponse = false) (env : Env)
    {text : Bytes} (htext : text.length < 1024) : c.Pushed text (c.wbyPrintf env text) := by
  obtain ⟨d, hpush, hd⟩ := pushInt_spec hc (show text.length < 2 ^ 31 by omega)
  rw [wbyPrintf, if_pos htext, wbyWrite, if_neg (by simp [hc.http]), if_neg (by simp [hchunked]),
    hpush]
  exact hd

/-- Headers that do not ask for the connection to be closed. -/
theorem pushed_responseHeaders (hc : c.Writable) (hchunked : c.flags.chunkedResponse = false)
    (env : Env) {headers : List Header}
    (h : ∀ header ∈ headers, header.closes = false ∧ (headerLine header).length < 1024) :
    c.Pushed (headers.flatMap headerLine) (responseHeaders env headers c) := by
  induction headers generalizing c with
  | nil => exact .refl hc
  | cons header headers ih =>
    obtain ⟨hcloses, hshort⟩ := h header List.mem_cons_self
    rw [responseHeaders, hcloses, markClose_false]
    have hline := pushed_wbyPrintf hc hchunked env hshort
    refine hline.trans (ih (hline.writable hc) ?_ fun h' hh' => h h' (List.mem_cons_of_mem _ hh'))
    rw [hline.flags_eq]
    exact hchunked

/-- A request for an upgrade does not ask for the connection to be closed. -/
theorem closeAsked_eq_false (h : wbyConIsWebsocketRequest c.request = true) :
    c.closeAsked = false := by
  rw [wbyConIsWebsocketRequest] at h
  rw [closeAsked]
  cases hfind : wbyFindHeader c.request (ascii "Connection") with
  | none => simp
  | some connection =>
    rw [hfind] at h
    have hupgrade : connection.map lower = (ascii "Upgrade").map lower := by
      cases hother : wbyFindHeader c.request (ascii "Upgrade") with
      | none => rw [hother] at h; exact absurd h (by simp)
      | some upgrade =>
        rw [hother] at h
        exact of_decide_eq_true ((Bool.and_eq_true_iff.mp h).1)
    have hclose : caseEq (ascii "close") connection = false := by
      rw [caseEq, hupgrade]
      decide
    simp [hclose]

/-- The header section of the response. -/
theorem pushed_responseHead (hc : c.Writable) (hchunked : c.flags.chunkedResponse = false)
    (h : wbyConIsWebsocketRequest c.request = true) (env : Env) (key : Bytes) :
    c.Pushed (upgradeResponse env key) (c.responseHead env 101 0 (upgradeHeaders env key)) := by
  have hstatus : ascii "HTTP/1.1 " ++ printInt 101 ++ [32] ++ wbyResponseStatusText 101 ++ crlf
      = ascii "HTTP/1.1 101 Switching Protocols" ++ crlf := by decide +kernel
  have hlength : (if (0 : ℤ) ≤ 0 then ascii "Content-Length: " ++ printInt 0 ++ crlf
      else ascii "Transfer-Encoding: chunked" ++ crlf) = ascii "Content-Length: 0" ++ crlf := by
    decide +kernel
  have hheaders : ∀ header ∈ upgradeHeaders env key,
      header.closes = false ∧ (headerLine header).length < 1024 := by
    have haccept := env.length_accept key
    simp only [upgradeHeaders, List.forall_mem_cons]
    refine ⟨⟨by decide +kernel, by decide +kernel⟩, ⟨by decide +kernel, by decide +kernel⟩, ⟨?_, ?_⟩,
      by simp⟩
    · have hname : caseEq (ascii "Sec-WebSocket-Accept") (ascii "Connection") = false := by
        decide +kernel
      rw [Header.closes, hname, Bool.false_and]
    · have hname : (ascii "Sec-WebSocket-Accept" ++ ascii ": ").length = 22 := by decide +kernel
      rw [headerLine, List.length_append, List.length_append, hname, haccept]
      decide
  have hkept : ∀ {text : Bytes} {d : Connection}, c.Pushed text d →
      d.Writable ∧ d.flags.chunkedResponse = false ∧ d.request = c.request := fun hd =>
    ⟨hd.writable hc, hd.flags_eq ▸ hchunked, by rw [hd.eq]⟩
  have h₁ := pushed_wbyPrintf hc hchunked env
    (show (ascii "HTTP/1.1 101 Switching Protocols" ++ crlf).length < 1024 by decide +kernel)
  have h₂ := h₁.trans (pushed_wbyPrintf (hkept h₁).1 (hkept h₁).2.1 env
    (show (ascii "Content-Length: 0" ++ crlf).length < 1024 by decide +kernel))
  have h₃ := h₂.trans (pushed_wbyPrintf (hkept h₂).1 (hkept h₂).2.1 env
    (show (ascii "Server: wby" ++ crlf).length < 1024 by decide +kernel))
  have h₄ := h₃.trans (pushed_responseHeaders (hkept h₃).1 (hkept h₃).2.1 env hheaders)
  have h₅ := h₄.trans (pushed_wbyPrintf (hkept h₄).1 (hkept h₄).2.1 env
    (show crlf.length < 1024 by decide))
  have hclose := closeAsked_eq_false ((congrArg _ (hkept h₄).2.2).trans h)
  rw [responseHead, hstatus, hlength, markChunked, if_neg (by decide), responseClose]
  rw [hclose, if_neg Bool.false_ne_true]
  rw [upgradeResponse]
  simpa only [List.append_assoc] using h₅

end Plain

/-! ## The response to an upgrade -/

/-- The application is asked whether to accept an upgrade, and it can be sent: the request has a body,
what is left of it arrives, and the socket is in order. -/
structure Ready (c : Connection) : Prop where
  writable : c.Writable
  inside : c.Inside
  body : c.request.contentLength ≠ 0
  arrives : (c.request.contentLength - c.bodyBytesRead).toNat ≤ c.unread.length
  alive : c.flags.alive = true
  open_ : c.flags.closeAfterResponse = false
  chunked : c.flags.chunkedResponse = false
  blocking : c.socket.blocking = true

/-- The connection of an upgrade that was accepted, and is to last: it is in use, and the next change of
its mode succeeds. -/
structure Lasting (c : Connection) : Prop where
  valid : c.socket.valid = true
  alive : c.flags.alive = true
  open_ : c.flags.closeAfterResponse = false
  mode : ∀ m ∈ c.socket.modes.head?, m = true

section Response

/-- The rest of the body is read first. -/
theorem Ready.responseBegin (hc : c.Ready) (env : Env) (key : Bytes) :
    ∃ d, c.responseBegin env 101 0 (upgradeHeaders env key)
        = ⟨some true, d.responseHead env 101 0 (upgradeHeaders env key)⟩ ∧
      c.Received d ∧ d.flags = c.flags := by
  rw [Connection.responseBegin]
  split_ifs with hbody
  · obtain ⟨d, hdiscard, hread⟩ := discardLoop_of_le hc.inside hc.writable.isOpen.valid hc.blocking
      (le_refl (c.request.contentLength - c.bodyBytesRead).toNat) hc.arrives
    rw [wbyConDiscardIncomingData, hdiscard]
    refine ⟨d, rfl, hread.received, ?_⟩
    have hflags := congrArg Connection.flags hread.received
    rw [hflags, hread.alive]
  · exact ⟨c, rfl, .refl c, rfl⟩

/-- The response is sent, and the connection stays open. -/
theorem sendWebsocketUpgrade_spec (hc : c.Ready) (h : wbyConIsWebsocketRequest c.request = true)
    (env : Env) {key : Bytes} (hkey : upgradeKey c.request = some key) :
    ∃ d, c.sendWebsocketUpgrade env = ⟨some true, d⟩ ∧ (d.flags.alive = true ∧ d.socket.valid = true) ∧
      upgradeResponse env key <:+ d.socket.sent ∧ d.request = c.request ∧ d.state = c.state := by
  obtain ⟨d, hbegin, hreceived, hflags⟩ := hc.responseBegin env key
  have hd : d.Writable := hc.writable.of_received hreceived
  have hrequest : d.request = c.request := by rw [hreceived]
  have hchunked : d.flags.chunkedResponse = false := hflags ▸ hc.chunked
  have hhead := pushed_responseHead hd hchunked (hrequest ▸ h) env key
  obtain ⟨e, hflush, he, hempty⟩ := push_spec (hhead.writable hd) []
  have hall := hhead.trans he
  have hend : (d.responseHead env 101 0 (upgradeHeaders env key)).responseEnd = e := by
    have hnone : (d.responseHead env 101 0 (upgradeHeaders env key)).endChunks
        = d.responseHead env 101 0 (upgradeHeaders env key) := by
      rw [endChunks, hhead.flags_eq, hchunked, if_neg Bool.false_ne_true]
    have hne : e.request.contentLength ≠ 0 := by
      have : e.request = d.request := by rw [hall.eq]
      rw [this, hrequest]
      exact hc.body
    rw [responseEnd, hnone, hflush]
    exact if_neg hne
  refine ⟨e, ?_, ⟨?_, he.isOpen.valid⟩, ?_, ?_, ?_⟩
  · rw [sendWebsocketUpgrade, hkey]
    dsimp only
    rw [hbegin]
    dsimp only
    rw [hend]
  · rw [hall.flags_eq, hflags]
    exact hc.alive
  · have hstream := hall.stream
    rw [hempty rfl, List.append_nil, List.append_nil] at hstream
    rw [hstream]
    exact List.suffix_append _ _
  · rw [hall.eq, hrequest]
  · rw [hall.eq, hreceived]

/-- `wby_connection_send_websocket_upgrade` through a buffer of any size, which is true for 0. -/
def castSendWebsocketUpgrade (env : Env) (c : Connection) : Outcome Bool :=
  match upgradeKey c.request with
  | none => ⟨some false, c⟩
  | some key =>
    match c.castBegin env 101 0 (upgradeHeaders env key) with
    | ⟨none, d⟩ => ⟨none, d⟩
    | ⟨some _, d⟩ =>
      match d.castEnd with
      | none => ⟨none, d⟩
      | some e => ⟨some true, e⟩

theorem castSendWebsocketUpgrade_eq (hc : c.Small) (env : Env) :
    c.castSendWebsocketUpgrade env = c.sendWebsocketUpgrade env := by
  rw [castSendWebsocketUpgrade, sendWebsocketUpgrade]
  cases upgradeKey c.request with
  | none => rfl
  | some key =>
    have hsmall := hc.responseBegin env 101 0 (upgradeHeaders env key)
    dsimp only
    rw [castBegin_eq env hc]
    generalize c.responseBegin env 101 0 (upgradeHeaders env key) = o at hsmall ⊢
    obtain ⟨_ | ok, d⟩ := o
    · rfl
    · dsimp only at hsmall ⊢
      rw [castEnd_eq hsmall]

end Response

end Connection

end Mavicona.Mumux
