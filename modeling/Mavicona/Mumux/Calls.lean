import Mavicona.Mumux.Input
import Mavicona.Mumux.Update

/-!
# What callbacks can do

Whatever calls a callback makes, the request and the state of the connection stay as they are, and it
does not become a WebSocket. `wby_response_end` is the only call that may close it, and so make it an
ordinary connection again; it does so if the request has no body.
-/

namespace Mavicona.Mumux

open Bytes

namespace Connection

/-- What the calls of a callback leave as it is. -/
structure Confined (c d : Connection) : Prop where
  request : d.request = c.request
  state : d.state = c.state
  websocket : d.flags.websocket = true → c.flags.websocket = true
  kept : c.request.contentLength ≠ 0 → d.flags.websocket = c.flags.websocket

section Confined

variable {c d e : Connection}

theorem Confined.trans (hcd : c.Confined d) (hde : d.Confined e) : c.Confined e where
  request := hde.request.trans hcd.request
  state := hde.state.trans hcd.state
  websocket := hcd.websocket ∘ hde.websocket
  kept h := (hde.kept (by rwa [hcd.request])).trans (hcd.kept h)

/-- The socket, the I/O buffer and the other flags may change. -/
theorem confined_of_eq (hrequest : d.request = c.request) (hstate : d.state = c.state)
    (hflag : d.flags.websocket = c.flags.websocket) : c.Confined d :=
  ⟨hrequest, hstate, hflag.symm ▸ id, fun _ => hflag⟩

theorem Confined.refl (c : Connection) : c.Confined c := confined_of_eq rfl rfl rfl

theorem Received.confined (h : c.Received d) : c.Confined d := by
  rw [h]
  exact confined_of_eq rfl rfl rfl

theorem confined_setBlocking (c : Connection) : c.Confined c.setBlocking.2 := by
  rw [setBlocking]
  split_ifs
  · split
    · exact confined_of_eq rfl rfl rfl
    · exact confined_of_eq rfl rfl rfl
  · exact confined_of_eq rfl rfl rfl

theorem confined_setNonblocking (c : Connection) : c.Confined c.setNonblocking.2 := by
  rw [setNonblocking]
  split_ifs
  · split
    · exact confined_of_eq rfl rfl rfl
    · exact confined_of_eq rfl rfl rfl
  · exact confined_of_eq rfl rfl rfl

theorem confined_sendOrKill (bs : Bytes) (c : Connection) : c.Confined (c.sendOrKill bs).2 := by
  rw [sendOrKill]
  split
  · exact confined_of_eq rfl rfl rfl
  · exact confined_of_eq rfl rfl rfl

theorem confined_pushLoop (fuel : ℕ) (bs : Bytes) (c : Connection) :
    c.Confined (pushLoop fuel bs c).2 := by
  fun_induction pushLoop fuel bs c with
  | case1 => exact .refl _
  | case2 => exact .refl _
  | case3 => exact confined_of_eq rfl rfl rfl
  | case4 => exact confined_of_eq rfl rfl rfl
  | case5 =>
    rename_i ih
    refine Confined.trans ?_ ih
    exact confined_of_eq rfl rfl rfl
  | case6 =>
    rename_i ih
    refine Confined.trans ?_ ih
    exact confined_of_eq rfl rfl rfl

theorem confined_push (bs : Bytes) (c : Connection) : c.Confined (c.push bs).2 := by
  rw [push]
  split_ifs
  · exact .refl c
  · exact confined_of_eq rfl rfl rfl
  · exact confined_pushLoop _ bs c

theorem confined_pushInt (bs : Bytes) (c : Connection) : c.Confined (c.pushInt bs).2 := by
  rw [pushInt]
  split_ifs
  · exact .refl c
  · exact confined_push _ c

theorem confined_wbyWrite (bs : Bytes) (c : Connection) : c.Confined (c.wbyWrite bs).2 := by
  rw [wbyWrite]
  split_ifs
  · have hheader := confined_sendOrKill (wbyMakeWebsocketHeader c.wsOpcode (intLen bs) false)
      { c with wsOpcode := 0 }
    have hopcode : c.Confined { c with wsOpcode := 0 } := confined_of_eq rfl rfl rfl
    dsimp only
    split
    · rename_i h
      rw [h] at hheader
      exact hopcode.trans hheader
    · rename_i h
      rw [h] at hheader
      exact (hopcode.trans hheader).trans (confined_sendOrKill _ _)
  · exact ((confined_push _ c).trans (confined_pushInt bs _)).trans (confined_push crlf _)
  · exact confined_pushInt bs c

variable (env : Env)

theorem confined_wbyPrintf (text : Bytes) (c : Connection) : c.Confined (c.wbyPrintf env text) :=
  confined_wbyWrite _ c

theorem confined_markClose (close : Bool) (c : Connection) : c.Confined (c.markClose close) :=
  confined_of_eq rfl rfl rfl

theorem confined_responseHeaders (headers : List Header) (c : Connection) :
    c.Confined (responseHeaders env headers c) := by
  induction headers generalizing c with
  | nil => exact .refl c
  | cons h hs ih =>
    have hline := (confined_markClose h.closes c).trans (confined_wbyPrintf env (headerLine h) _)
    exact hline.trans (ih _)

theorem confined_responseClose (c : Connection) : c.Confined (c.responseClose env) := by
  rw [responseClose]
  split_ifs
  · exact (confined_markClose true c).trans (confined_wbyPrintf env _ _)
  · exact .refl c

theorem confined_markChunked (contentLength : ℤ) (c : Connection) :
    c.Confined (c.markChunked contentLength) := by
  rw [markChunked]
  split_ifs
  · exact confined_of_eq rfl rfl rfl
  · exact .refl c

theorem confined_responseHead (status contentLength : ℤ) (headers : List Header) (c : Connection) :
    c.Confined (c.responseHead env status contentLength headers) := by
  rw [responseHead]
  refine Confined.trans ?_ (confined_markChunked contentLength _)
  refine Confined.trans ?_ (confined_wbyPrintf env crlf _)
  refine Confined.trans ?_ (confined_responseClose env _)
  refine Confined.trans ?_ (confined_responseHeaders env headers _)
  exact ((confined_wbyPrintf env _ c).trans (confined_wbyPrintf env _ _)).trans
    (confined_wbyPrintf env _ _)

theorem confined_responseBegin (status contentLength : ℤ) (headers : List Header)
    (c : Connection) : c.Confined (c.responseBegin env status contentLength headers).conn := by
  rw [responseBegin]
  split_ifs
  · have hdiscard := (received_discardLoop (c.request.contentLength - c.bodyBytesRead).toNat
      (c.request.contentLength - c.bodyBytesRead).toNat c).confined
    rw [wbyConDiscardIncomingData]
    generalize discardLoop _ _ c = r at hdiscard ⊢
    match r with
    | ⟨none, d⟩ => exact hdiscard
    | ⟨some false, d⟩ => exact hdiscard.trans (confined_of_eq rfl rfl rfl)
    | ⟨some true, d⟩ => exact hdiscard.trans (confined_responseHead env _ _ _ d)
  · exact confined_responseHead env _ _ _ c

theorem confined_endChunks (c : Connection) : c.Confined c.endChunks := by
  rw [endChunks]
  split_ifs
  · exact (confined_push lastChunk c).trans (confined_of_eq rfl rfl rfl)
  · exact .refl c

theorem confined_responseEnd (c : Connection) : c.Confined c.responseEnd := by
  have hflush := (confined_endChunks c).trans (confined_push [] c.endChunks)
  rw [responseEnd]
  generalize (c.endChunks.push []) = r at hflush ⊢
  obtain ⟨ok, d⟩ := r
  dsimp only at hflush ⊢
  split_ifs with hzero
  · refine ⟨hflush.request, hflush.state, fun h => Bool.noConfusion h, fun hne => ?_⟩
    exact absurd (hflush.request ▸ hzero) hne
  · exact hflush

theorem confined_perform (k : Call) (c : Connection) : c.Confined (k.perform env c).conn := by
  cases k with
  | read len => exact (received_wbyRead len c).confined
  | write bs => exact confined_wbyWrite bs c
  | responseBegin status contentLength headers => exact confined_responseBegin env _ _ _ c
  | responseEnd => exact confined_responseEnd c
  | frameBegin opcode =>
    have hopcode : c.Confined { c with wsOpcode := UInt8.ofNat opcode } := confined_of_eq rfl rfl rfl
    exact hopcode.trans (confined_setBlocking _)
  | frameEnd => exact (confined_sendOrKill _ c).trans (confined_setNonblocking _)

end Confined

end Connection

/-! ## Whole callbacks -/

section Callbacks

variable (env : Env)

theorem Prog.confined_run (p : Prog) (c : Connection) : c.Confined (p.run env c).conn := by
  induction p generalizing c with
  | done ok => exact .refl c
  | call k next ih =>
    have hcall := Connection.confined_perform env k c
    rw [run]
    generalize k.perform env c = r at hcall ⊢
    match r with
    | ⟨none, d⟩ => exact hcall
    | ⟨some result, d⟩ => exact hcall.trans (ih result d)

/-- Nothing but reads is noted of a callback. -/
theorem Prog.notes_run (p : Prog) (c : Connection) :
    ∀ n ∈ (p.run env c).notes, ∃ ok data, n = .read ok data := by
  induction p generalizing c with
  | done ok => simp [run]
  | call k next ih =>
    rw [run]
    split
    · simp
    · rename_i r d _
      intro n hn
      rcases List.mem_append.mp hn with hn | hn
      · cases k with
        | read len => exact ⟨_, _, List.mem_singleton.mp hn⟩
        | _ => simp [Call.notes] at hn
      · exact ih r d n hn

end Callbacks

end Mavicona.Mumux
