import Mavicona.Mumux.Respond
import Mavicona.Mumux.Rounds

/-!
# Texts that fit

Reference: `mumux/request.c` (`wby_printf`), `mumux/response.c` (`wby_response_begin`),
`mumux/server.c` (`wby_update_connection`).

`wby_printf` cuts a text off after 1023 bytes, but sends as many bytes as the whole text has; the bytes
behind its buffer are whatever stands on the stack. As long as all texts are shorter, what is on the stack
makes no difference (`serveTurn_env`).
-/

namespace Mavicona.Mumux

open Bytes Connection

/-- The texts of a response are shorter than the buffer of `wby_printf`, and a length to be read fits into
an `int`. -/
def Call.Brief : Call → Prop
  | .read len => len < 2 ^ 31
  | .responseBegin status contentLength headers =>
    (statusLine status).length < 1024 ∧ (lengthLine contentLength).length < 1024 ∧
      ∀ h ∈ headers, (headerLine h).length < 1024
  | _ => True

/-- All calls of a callback are. -/
def Prog.Brief : Prog → Prop
  | .done _ => True
  | .call k next => k.Brief ∧ ∀ r, (next r).Brief

namespace Connection

variable {c : Connection} {status contentLength : ℤ} {headers : List Header} {text : Bytes}
  {cb : Callbacks} (env env' : Env)

section Responses

theorem wbyPrintf_env (h : text.length < 1024) (c : Connection) :
    c.wbyPrintf env text = c.wbyPrintf env' text := by
  rw [wbyPrintf, wbyPrintf, if_pos h, if_pos h]

theorem responseHeaders_env (h : ∀ header ∈ headers, (headerLine header).length < 1024)
    (c : Connection) : responseHeaders env headers c = responseHeaders env' headers c := by
  induction headers generalizing c with
  | nil => rfl
  | cons header headers ih =>
    rw [responseHeaders, responseHeaders, wbyPrintf_env env env' (h header (.head _)),
      ih fun h' hh' => h h' (.tail _ hh')]

theorem responseClose_env (c : Connection) : c.responseClose env = c.responseClose env' := by
  rw [responseClose, responseClose, wbyPrintf_env env env' (by decide +kernel)]

theorem responseHead_env (h : (Call.responseBegin status contentLength headers).Brief)
    (c : Connection) : c.responseHead env status contentLength headers =
      c.responseHead env' status contentLength headers := by
  obtain ⟨hstatus, hlength, hheaders⟩ := h
  rw [statusLine] at hstatus
  rw [lengthLine] at hlength
  rw [responseHead, responseHead]
  rw [wbyPrintf_env env env' hstatus, wbyPrintf_env env env' hlength,
    wbyPrintf_env env env' (show (ascii "Server: wby" ++ crlf).length < 1024 by decide +kernel),
    responseHeaders_env env env' hheaders, responseClose_env env env',
    wbyPrintf_env env env' (show crlf.length < 1024 by decide)]

theorem responseBegin_env (h : (Call.responseBegin status contentLength headers).Brief)
    (c : Connection) : c.responseBegin env status contentLength headers =
      c.responseBegin env' status contentLength headers := by
  have hhead := responseHead_env env env' h
  rw [responseBegin, responseBegin, hhead c]
  split_ifs
  · rcases wbyConDiscardIncomingData _ c with ⟨_ | _ | _, d⟩
    · rfl
    · rfl
    · dsimp only
      rw [hhead d]
  · rfl

/-- A response with an error. -/
theorem refuse_env (h : (Call.responseBegin status (-1) headers).Brief) (htext : text.length < 1024)
    (c : Connection) : c.refuse env status headers text = c.refuse env' status headers text := by
  rw [refuse, refuse, responseBegin_env env env' h]
  rcases c.responseBegin env' status (-1) headers with ⟨_ | _, d⟩
  · rfl
  · dsimp only
    rw [wbyPrintf_env env env' htext]

theorem refuseUpgrade_env (h : c.request.Brief) : c.refuseUpgrade env = c.refuseUpgrade env' := by
  refine refuse_env env env' ⟨by decide +kernel, by decide +kernel, ?_⟩ ?_ c
  · decide +kernel
  · have hbefore : (ascii "WebSockets not supported at ").length = 28 := by decide +kernel
    have hbehind : crlf.length = 2 := by decide
    rw [Request.Brief] at h
    rw [List.length_append, List.length_append, hbefore, hbehind]
    omega

theorem notFound_env (h : c.request.Brief) : c.notFound env = c.notFound env' := by
  refine refuse_env env env' ⟨by decide +kernel, by decide +kernel, ?_⟩ ?_ c
  · decide +kernel
  · have hbefore : (ascii "<h1>404 Not Found</h1><hr />Request: ").length = 37 := by decide +kernel
    have hbehind : crlf.length = 2 := by decide
    rw [Request.Brief] at h
    rw [List.length_append, List.length_append, hbefore, hbehind]
    omega

end Responses

end Connection

/-! ## Callbacks -/

section Callbacks

variable {c : Connection} (env env' : Env)

theorem Call.perform_env {k : Call} (hk : k.Brief) (c : Connection) :
    k.perform env c = k.perform env' c := by
  cases k with
  | responseBegin status contentLength headers =>
    rw [perform, perform, responseBegin_env env env' hk]
  | _ => rfl

theorem Prog.run_env {p : Prog} (hp : p.Brief) (c : Connection) : p.run env c = p.run env' c := by
  induction p generalizing c with
  | done ok => rfl
  | call k next ih =>
    rw [run, run, Call.perform_env env env' hp.1]
    rcases k.perform env' c with ⟨_ | r, d⟩
    · rfl
    · dsimp only
      rw [ih r (hp.2 r)]

theorem Ran.andThen_congr {ran : Ran} {f g : Bool → Connection → Ran}
    (h : ∀ ok, f ok ran.conn = g ok ran.conn) : ran.andThen f = ran.andThen g := by
  rw [andThen, andThen]
  cases ran.value with
  | none => rfl
  | some ok =>
    dsimp only
    rw [h ok]

end Callbacks

/-! ## Rounds -/

namespace Connection

section Rounds

variable {c : Connection} {cfg : Config} {cb : Callbacks} (env env' : Env)

theorem serveRequest_env (h : c.request.Brief) (hcb : ∀ r, (cb.dispatch r).Brief) :
    c.serveRequest env cb = c.serveRequest env' cb := by
  rw [serveRequest, serveRequest, Prog.run_env env env' (hcb c.request)]
  refine congrArg (Ran.noted (.dispatch c.request)) (Ran.andThen_congr fun ok => ?_)
  rw [notFound_env env env']
  rw [((cb.dispatch c.request).confined_run env' c).request]
  exact h

/-- A request is served alike, whatever is on the stack. -/
theorem serveTurn_env (h : c.request.Brief) (hws : cb.wsConnect = none)
    (hcb : ∀ r, (cb.dispatch r).Brief) (cfg : Config) :
    c.serveTurn env cfg cb = c.serveTurn env' cfg cb := by
  have hmode := confined_setBlocking { c with ioBuf := { c.ioBuf with data := [] } }
  rw [serveTurn, serveTurn]
  generalize setBlocking { c with ioBuf := { c.ioBuf with data := [] } } = r at hmode ⊢
  obtain ⟨_ | _, d⟩ := r
  · rfl
  · have hd : d.request.Brief := by
      rw [show d.request = c.request from hmode.request]
      exact h
    dsimp only
    rw [serveRequest_env env env' hd hcb, serveUpgrade, serveUpgrade, hws]
    dsimp only
    rw [refuseUpgrade_env env env' hd]

end Rounds

end Connection

end Mavicona.Mumux
