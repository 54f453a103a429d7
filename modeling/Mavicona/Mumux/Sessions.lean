import Mavicona.Common.Run
import Mavicona.Mumux.Upgrade

/-!
# The sessions of a WebSocket

Reference: `mumux/server.c` (`wby_update_connection`, `wby_update`).

The callbacks of a connection are made in the order of a session: `ws_connected` on a connection that
is in use, right after the response to the upgrade, then `ws_frame` any number of times, and in the end
`ws_closed`. `consistent_run` says that this is so in every run in which an upgrade is only accepted on
a connection that is ready for it. That is never so if the request has no body.
-/

namespace Mavicona.Mumux

open Bytes Connection Trace

/-! ## Sessions -/

/-- How far the session of a connection is. -/
inductive Status
  | idle
  | opened
  | closed
deriving DecidableEq

/-- Neither the start nor the end of a session, nor a part of it. -/
def Note.Outside : Note → Prop
  | .dispatch _ | .connect _ | .read _ _ => True
  | .connected _ _ _ | .frame _ | .closed => False

/-- What was noted of a connection is in the order of a session. -/
inductive Session (env : Env) : List Note → Status → Prop
  | start : Session env [] .idle
  | outside {notes : List Note} {s : Status} {n : Note} :
      Session env notes s → n.Outside → Session env (notes ++ [n]) s
  | connected {notes : List Note} {r : Request} {key sent : Bytes} :
      Session env notes .idle → .connect r ∈ notes → upgradeKey r = some key →
      upgradeResponse env key <:+ sent →
      Session env (notes ++ [.connected true true sent]) .opened
  | frame {notes : List Note} (f : Frame) :
      Session env notes .opened → Session env (notes ++ [.frame f]) .opened
  | closed {notes : List Note} : Session env notes .opened → Session env (notes ++ [.closed]) .closed

/-- The session of a connection is open as long as it is a WebSocket, and no longer than it is in
use. -/
def Consistent (env : Env) (l : Life) : Prop :=
  ∃ s, Session env l.notes s ∧
    (l.stage = .live → s ≠ .closed ∧ (s = .opened ↔ l.conn.state = .websocket)) ∧
    (l.stage = .removed → s ≠ .opened)

/-- If `ws_connected` was called and has returned, the connection is a WebSocket in the end. -/
def EndsOpen (l l' : Life) : Prop :=
  ∀ alive valid sent, .connected alive valid sent ∈ l'.notes.drop l.notes.length →
    l'.stage = .hung ∨ l'.stage = .live ∧ l'.conn.state = .websocket

/-! ## Where a session may start -/

/-- The connection when a request is served, and whether it is served at all. -/
def Connection.serving (c : Connection) : Bool × Connection :=
  setBlocking { c with
    flags := { c.flags with fresh := false }
    ioBuf := { c.ioBuf with data := [] } }

/-- If the application accepts an upgrade, the connection is ready for the response to it, and lasts when
`ws_connected` has returned. -/
def Connection.Accepts (env : Env) (cb : Callbacks) (c : Connection) : Prop :=
  wbyConIsWebsocketRequest c.request = true → upgradeKey c.request ≠ none →
  ∀ wsConnect, cb.wsConnect = some wsConnect →
  ((wsConnect c.request).run env c).value = some true →
    ((wsConnect c.request).run env c).conn.Ready ∧
    ∀ d, ((wsConnect c.request).run env c).conn.sendWebsocketUpgrade env = ⟨some true, d⟩ →
      (d.becomeWebsocket env cb).value ≠ none → (d.becomeWebsocket env cb).conn.Lasting

/-- No upgrade is accepted on a connection that is not ready for it. -/
def Upgradable (env : Env) (l : Life) (cb : Callbacks) : Prop :=
  l.stage = .live → l.conn.state = .serve → l.conn.serving.1 = true →
    l.conn.serving.2.Accepts env cb

section Session

variable {env : Env} {notes rest : List Note} {s : Status}

theorem Session.append (h : Session env notes s) (hrest : ∀ n ∈ rest, n.Outside) :
    Session env (notes ++ rest) s := by
  induction rest generalizing notes with
  | nil => rwa [List.append_nil]
  | cons n rest ih =>
    have hnext := ih (h.outside (hrest n List.mem_cons_self)) fun m hm =>
      hrest m (List.mem_cons_of_mem _ hm)
    rwa [List.append_assoc] at hnext

/-- What a callback reads. -/
theorem Prog.outside_run (p : Prog) (env : Env) (c : Connection) :
    ∀ n ∈ (p.run env c).notes, n.Outside := by
  intro n hn
  obtain ⟨ok, data, rfl⟩ := p.notes_run env c n hn
  trivial

/-- A session starts on a connection that is in use. -/
theorem Session.connected_mem (h : Session env notes s) {alive valid : Bool} {sent : Bytes}
    (hmem : .connected alive valid sent ∈ notes) : alive = true ∧ valid = true := by
  induction h with
  | start => exact absurd hmem List.not_mem_nil
  | outside _ hn ih =>
    rcases List.mem_append.mp hmem with hmem | hmem
    · exact ih hmem
    · rw [← List.mem_singleton.mp hmem] at hn
      exact hn.elim
  | connected _ _ _ _ ih =>
    rcases List.mem_append.mp hmem with hmem | hmem
    · exact ih hmem
    · obtain ⟨rfl, rfl, -⟩ := Note.connected.inj (List.mem_singleton.mp hmem)
      exact ⟨rfl, rfl⟩
  | frame f _ ih =>
    rcases List.mem_append.mp hmem with hmem | hmem
    · exact ih hmem
    · exact absurd (List.mem_singleton.mp hmem) (by simp)
  | closed _ ih =>
    rcases List.mem_append.mp hmem with hmem | hmem
    · exact ih hmem
    · exact absurd (List.mem_singleton.mp hmem) (by simp)

/-- Before the session nothing has started it. -/
theorem Session.connected_notMem (h : Session env notes .idle) {alive valid : Bool} {sent : Bytes} :
    .connected alive valid sent ∉ notes := by
  generalize hstatus : Status.idle = s at h
  induction h with
  | start => exact List.not_mem_nil
  | outside _ hn ih =>
    intro hmem
    rcases List.mem_append.mp hmem with hmem | hmem
    · exact ih hstatus hmem
    · rw [← List.mem_singleton.mp hmem] at hn
      exact hn
  | connected => exact absurd hstatus nofun
  | frame => exact absurd hstatus nofun
  | closed => exact absurd hstatus nofun

end Session

/-! ## The phases of a connection -/

/-- A connection before its session, and during it. -/
inductive Phase : Status → Connection → Prop
  | idle {c : Connection} : c.state ≠ .websocket → c.flags.websocket = false → Phase .idle c
  | opened {c : Connection} : c.state = .websocket → c.flags.websocket = true →
      c.request.contentLength ≠ 0 → Phase .opened c

section Phase

variable {s : Status} {c d : Connection}

theorem Phase.of_confined (h : Phase s c) (hd : c.Confined d) : Phase s d := by
  cases h with
  | idle hstate hflag =>
    refine .idle (hd.state ▸ hstate) ?_
    by_contra htrue
    rw [Bool.not_eq_false] at htrue
    exact absurd (hd.websocket htrue) (by simp [hflag])
  | opened hstate hflag hbody =>
    exact .opened (hd.state.trans hstate) ((hd.kept hbody).trans hflag) (hd.request ▸ hbody)

theorem confined_kill (c : Connection) : c.Confined c.kill := confined_of_eq rfl rfl rfl

theorem Phase.kill (h : Phase s c) : Phase s c.kill := h.of_confined (confined_kill c)

theorem Phase.ne_closed (h : Phase s c) : s ≠ .closed := by
  cases h <;> decide

theorem Phase.opened_iff (h : Phase s c) : s = .opened ↔ c.state = .websocket := by
  cases h with
  | idle hstate _ => exact iff_of_false (by decide) hstate
  | opened hstate _ _ => exact iff_of_true rfl hstate

theorem Phase.eq_idle (h : Phase s c) (hstate : c.state ≠ .websocket) : s = .idle := by
  cases h with
  | idle => rfl
  | opened hopened _ _ => exact absurd hopened hstate

theorem Phase.websocket_iff (h : Phase s c) : c.flags.websocket = true ↔ s = .opened := by
  cases h with
  | idle _ hflag => exact iff_of_false (by simp [hflag]) (by decide)
  | opened _ hflag _ => exact iff_of_true hflag rfl

end Phase

/-! ## A round -/

/-- A round leaves what was noted in the order of a session, and the connection in its phase. A session
does not start in a round after which the function returns. -/
def Turn.Keeps (env : Env) (notes : List Note) (t : Turn) : Prop :=
  ∃ s, Session env (notes ++ t.notes) s ∧ (t.fate = .stuck ∨ Phase s t.conn) ∧
    (t.fate = .ret → ∀ alive valid sent, .connected alive valid sent ∉ t.notes)

/-- The invariant of the life of a connection. -/
def InOrder (env : Env) (l : Life) : Prop :=
  ∃ s, Session env l.notes s ∧ (l.stage = .live → Phase s l.conn) ∧
    (l.stage = .removed → s ≠ .opened)

section InOrder

variable {env : Env} {notes : List Note} {s : Status} {c : Connection}

theorem inOrder_live (hs : Session env notes s) (hc : Phase s c) : InOrder env ⟨c, notes, .live⟩ :=
  ⟨s, hs, fun _ => hc, nofun⟩

theorem inOrder_removed (hs : Session env notes s) (hne : s ≠ .opened) :
    InOrder env ⟨c, notes, .removed⟩ :=
  ⟨s, hs, nofun, fun _ => hne⟩

theorem inOrder_hung (hs : Session env notes s) : InOrder env ⟨c, notes, .hung⟩ :=
  ⟨s, hs, nofun, nofun⟩

end InOrder

theorem InOrder.consistent {env : Env} {l : Life} (h : InOrder env l) : Consistent env l := by
  obtain ⟨s, hs, hlive, hremoved⟩ := h
  exact ⟨s, hs, fun hstage => ⟨(hlive hstage).ne_closed, (hlive hstage).opened_iff⟩, hremoved⟩

section Turns

variable {env : Env} {cfg : Config} {cb : Callbacks} {notes : List Note} {s : Status} {c d : Connection}

/-- A connection that was given up is removed, and its session ends. -/
theorem inOrder_reap {l : Life} (hs : Session env l.notes s) (hc : Phase s l.conn) (cb : Callbacks) :
    InOrder env (l.reap env cb) := by
  rw [Life.reap]
  split_ifs with hflag
  · obtain rfl := hc.websocket_iff.mp hflag
    have hclosed : Session env
        (l.notes ++ (((cb.wsClosed l.conn.request).run env l.conn).noted .closed).notes) .closed := by
      have := hs.closed.append ((cb.wsClosed l.conn.request).outside_run env l.conn)
      rwa [List.append_assoc] at this
    dsimp only
    split
    · exact inOrder_hung hclosed
    · exact inOrder_removed hclosed (by decide)
  · exact inOrder_removed hs fun hopened => hflag (hc.websocket_iff.mpr hopened)

theorem Turn.Keeps.after {l : Life} {t : Turn} (h : t.Keeps env l.notes) (hlive : l.stage = .live)
    (cb : Callbacks) : InOrder env (l.after env cb t) := by
  obtain ⟨s, hs, hfate, -⟩ := h
  obtain ⟨fate, more, d⟩ := t
  obtain ⟨c, notes, stage⟩ := l
  obtain rfl : stage = .live := hlive
  cases fate with
  | loop => exact inOrder_live hs (hfate.resolve_left nofun)
  | stuck => exact inOrder_hung hs
  | ret =>
    have hphase : Phase s d := hfate.resolve_left nofun
    rw [Life.after]
    dsimp only
    split_ifs
    · exact inOrder_live hs hphase
    · exact inOrder_reap hs hphase cb

/-- Nothing was noted. -/
theorem Turn.Keeps.silent {fate : Fate} (hs : Session env notes s) (hd : fate = .stuck ∨ Phase s d) :
    Turn.Keeps env notes ⟨fate, [], d⟩ :=
  ⟨s, by rwa [List.append_nil], hd, fun _ _ _ _ => List.not_mem_nil⟩

theorem phase_expect (hflag : c.flags.websocket = false) : Phase .idle c.expect := by
  rw [expect]
  split
  · split_ifs
    · exact .idle nofun hflag
    · exact .idle nofun hflag
  · exact .idle nofun hflag

theorem keeps_requestTurn (hs : Session env notes .idle) (hc : Phase .idle c) :
    c.requestTurn.Keeps env notes := by
  have hinput : ∀ (t : Socket) (buf : Buffer), Phase .idle { c with socket := t, headerBuf := buf } :=
    fun t buf => hc.of_confined (confined_of_eq rfl rfl rfl)
  have hreceive : ∀ (t : Socket) (buf : Buffer),
      (receiveRequest { c with socket := t, headerBuf := buf }).Keeps env notes := by
    intro t buf
    have hd := hinput t buf
    rw [receiveRequest]
    split
    · refine .silent hs (.inr ?_)
      split_ifs
      · exact hd.kill
      · exact hd
    · split
      · exact .silent hs (.inr hd.kill)
      · refine .silent hs (.inr (phase_expect ?_))
        cases hc with
        | idle _ hflag => exact hflag
  rw [requestTurn]
  rcases wbySocketRecv c.socket c.headerBuf with ⟨_ | _ | _ | _, t, buf⟩
  · exact hreceive t buf
  · exact .silent hs (.inr (hinput t buf).kill)
  · exact hreceive t buf
  · exact .silent hs (.inl rfl)

theorem keeps_continueTurn (hs : Session env notes .idle) (hc : Phase .idle c) :
    c.continueTurn.Keeps env notes := by
  rw [continueTurn]
  dsimp only
  split
  · exact .silent hs (.inr (hc.of_confined (confined_of_eq rfl rfl rfl)))
  · refine .silent hs (.inr ?_)
    cases hc with
    | idle hstate hflag =>
      refine .idle ?_ hflag
      dsimp only
      split_ifs
      · decide
      · exact hstate

/-! ## Serving a request -/

/-- No session was started. -/
structure Ran.Plain (env : Env) (notes : List Note) (c : Connection) (ran : Ran) : Prop where
  session : Session env (notes ++ ran.notes) .idle
  confined : c.Confined ran.conn

/-- A session was started. -/
def Ran.Started (env : Env) (notes : List Note) (ran : Ran) : Prop :=
  ∃ s, Session env (notes ++ ran.notes) s ∧ (ran.value = none ∨ s = .opened ∧ ran.conn.Lasting ∧
    ran.conn.flags.websocket = true ∧ ran.conn.request.contentLength ≠ 0)

theorem refuse_spec (env : Env) (status : ℤ) (headers : List Header) (text : Bytes)
    (c : Connection) :
    (c.refuse env status headers text).notes = [] ∧
      c.Confined (c.refuse env status headers text).conn := by
  have hbegin := confined_responseBegin env status (-1) headers c
  rw [refuse]
  generalize c.responseBegin env status (-1) headers = o at hbegin ⊢
  obtain ⟨_ | ok, d⟩ := o
  · exact ⟨rfl, hbegin⟩
  · exact ⟨rfl, hbegin.trans ((confined_wbyPrintf env text d).trans (confined_responseEnd _))⟩

theorem plain_refuse (hs : Session env notes .idle) (hd : c.Confined d) (status : ℤ)
    (headers : List Header) (text : Bytes) :
    (d.refuse env status headers text).Plain env notes c := by
  obtain ⟨hnotes, hrefuse⟩ := refuse_spec env status headers text d
  exact ⟨by rwa [hnotes, List.append_nil], hd.trans hrefuse⟩

/-- What follows a callback. -/
theorem Ran.Plain.andThen {ran : Ran} {f : Bool → Connection → Ran} (h : ran.Plain env notes c)
    (hf : ∀ ok, ran.value = some ok →
      (f ok ran.conn).Plain env (notes ++ ran.notes) c) : (ran.andThen f).Plain env notes c := by
  rw [Ran.andThen]
  split
  · exact h
  · rename_i ok hvalue
    obtain ⟨hsession, hconfined⟩ := hf ok hvalue
    exact ⟨by rwa [List.append_assoc] at hsession, hconfined⟩

theorem plain_run (hs : Session env notes .idle) (p : Prog) (c : Connection) :
    (p.run env c).Plain env notes c :=
  ⟨hs.append (p.outside_run env c), p.confined_run env c⟩

theorem plain_noted {ran : Ran} {n : Note} (h : ran.Plain env (notes ++ [n]) c) :
    (ran.noted n).Plain env notes c :=
  ⟨by have := h.session; rwa [List.append_assoc] at this, h.confined⟩

theorem plain_serveRequest (hs : Session env notes .idle) (cb : Callbacks) (c : Connection) :
    (c.serveRequest env cb).Plain env notes c := by
  have hrun := plain_run (hs.outside (show (Note.dispatch c.request).Outside from trivial))
    (cb.dispatch c.request) c
  refine plain_noted (hrun.andThen fun ok _ => ?_)
  split_ifs
  · exact ⟨by rw [List.append_nil]; exact hrun.session, hrun.confined⟩
  · exact plain_refuse hrun.session hrun.confined _ _ _

/-- The session starts. -/
theorem started_becomeWebsocket {key : Bytes} (hs : Session env notes .idle)
    (hconnect : .connect c.request ∈ notes) (hkey : upgradeKey c.request = some key)
    (hsent : upgradeResponse env key <:+ c.socket.sent)
    (hc : c.flags.alive = true ∧ c.socket.valid = true) (hbody : c.request.contentLength ≠ 0)
    (hlasting : (c.becomeWebsocket env cb).value ≠ none → (c.becomeWebsocket env cb).conn.Lasting) :
    (c.becomeWebsocket env cb).Started env notes := by
  have hopened : Session env
      (notes ++ [.connected c.flags.alive c.socket.valid c.socket.sent]) .opened := by
    rw [hc.1, hc.2]
    exact hs.connected hconnect hkey hsent
  have hconfined := (cb.wsConnected c.request).confined_run env
    { c with flags := { c.flags with websocket := true } }
  refine ⟨.opened, ?_, ?_⟩
  · have := hopened.append ((cb.wsConnected c.request).outside_run env
      { c with flags := { c.flags with websocket := true } })
    rwa [List.append_assoc] at this
  · by_cases hvalue : (c.becomeWebsocket env cb).value = none
    · exact .inl hvalue
    · refine .inr ⟨rfl, hlasting hvalue, hconfined.kept hbody, ?_⟩
      have hrequest : (c.becomeWebsocket env cb).conn.request = c.request := hconfined.request
      rwa [hrequest]

theorem serveUpgrade_spec (hs : Session env notes .idle) (hc : c.Accepts env cb)
    (hupgrade : wbyConIsWebsocketRequest c.request = true) :
    (c.serveUpgrade env cb).Plain env notes c ∨ (c.serveUpgrade env cb).Started env notes := by
  rw [serveUpgrade]
  cases hcb : cb.wsConnect with
  | none => exact .inl (plain_refuse hs (.refl c) _ _ _)
  | some wsConnect =>
    have hasked : Session env (notes ++ [.connect c.request]) .idle := hs.outside trivial
    have hrun := plain_run hasked (wsConnect c.request) c
    have hrequest := hrun.confined.request
    dsimp only
    cases hvalue : ((wsConnect c.request).run env c).value with
    | none =>
      refine .inl (plain_noted (hrun.andThen fun ok hok => ?_))
      exact absurd (hvalue.symm.trans hok) nofun
    | some ok =>
      cases ok with
      | false =>
        refine .inl (plain_noted (hrun.andThen fun ok hok => ?_))
        obtain rfl : false = ok := Option.some.inj (hvalue.symm.trans hok)
        exact plain_refuse hrun.session hrun.confined _ _ _
      | true =>
        cases hkey : upgradeKey c.request with
        | none =>
          refine .inl (plain_noted (hrun.andThen fun ok hok => ?_))
          obtain rfl : true = ok := Option.some.inj (hvalue.symm.trans hok)
          rw [if_pos rfl, acceptUpgrade, sendWebsocketUpgrade, hrequest, hkey]
          exact plain_refuse hrun.session hrun.confined _ _ _
        | some key =>
          obtain ⟨hready, hlasting⟩ := hc hupgrade (by simp [hkey]) wsConnect hcb hvalue
          have hupgrade' := (congrArg wbyConIsWebsocketRequest hrequest).trans hupgrade
          obtain ⟨d, hsend, hd, hsent, hdrequest, -⟩ := sendWebsocketUpgrade_spec hready hupgrade' env
            ((congrArg upgradeKey hrequest).trans hkey)
          have hdrequest' : d.request = c.request := hdrequest.trans hrequest
          have hstart : (d.becomeWebsocket env cb).Started env
              (notes ++ [.connect c.request] ++ ((wsConnect c.request).run env c).notes) := by
            refine started_becomeWebsocket hrun.session ?_ (hdrequest' ▸ hkey) hsent hd
              (hdrequest ▸ hready.body) (hlasting d hsend)
            rw [hdrequest']
            simp
          obtain ⟨s, hsession, hrest⟩ := hstart
          refine .inr ⟨s, ?_, ?_⟩
          · rw [Ran.andThen, hvalue]
            dsimp only
            rw [if_pos rfl, acceptUpgrade, hsend]
            simpa [Ran.noted, List.append_assoc] using hsession
          · rw [Ran.andThen, hvalue]
            dsimp only
            rw [if_pos rfl, acceptUpgrade, hsend]
            exact hrest

/-- What follows a request that was served. -/
theorem phase_afterServe (hc : Phase .idle c) : Phase .idle (c.afterServe cfg).2 := by
  have hd := hc.of_confined (confined_setNonblocking c)
  rw [afterServe]
  generalize c.setNonblocking = r at hd ⊢
  obtain ⟨ok, d⟩ := r
  dsimp only at hd ⊢
  by_cases halive : d.flags.alive = true
  · rw [if_pos halive]
    split_ifs with hclose hflag
    · exact hd.kill
    · exact absurd (hd.websocket_iff.mp hflag) (by decide)
    · exact .idle nofun (Bool.not_eq_true _ ▸ hflag)
  · rw [if_neg halive]
    exact hd

/-- The connection has become a WebSocket in the end. -/
theorem afterServe_of_lasting (hc : c.Lasting) (hflag : c.flags.websocket = true)
    (hbody : c.request.contentLength ≠ 0) :
    (c.afterServe cfg).1 = .loop ∧ Phase .opened (c.afterServe cfg).2 := by
  obtain ⟨count, t, hmode⟩ : ∃ count t, c.setNonblocking
      = (true, { c with socket := t, blockingCount := count }) := by
    rw [setNonblocking]
    split_ifs
    · have hset : ∃ t, c.socket.setBlocking false = (true, t) := by
        rw [Socket.setBlocking, if_pos hc.valid]
        cases hmodes : c.socket.modes with
        | nil => exact ⟨_, rfl⟩
        | cons m ms =>
          obtain rfl := hc.mode m (by rw [hmodes]; rfl)
          exact ⟨_, rfl⟩
      obtain ⟨t, ht⟩ := hset
      rw [ht]
      exact ⟨_, t, rfl⟩
    · exact ⟨_, c.socket, rfl⟩
  rw [afterServe, hmode]
  dsimp only
  rw [if_pos hc.alive, if_neg (by simp [hc.open_])]
  refine ⟨rfl, .opened ?_ hflag hbody⟩
  exact if_pos hflag

theorem keeps_serveTurn (hs : Session env notes .idle) (hc : Phase .idle c)
    (haccepts : ∀ d, setBlocking { c with ioBuf := { c.ioBuf with data := [] } } = (true, d) →
      d.Accepts env cb) : (c.serveTurn env cfg cb).Keeps env notes := by
  have hcleared : c.Confined { c with ioBuf := { c.ioBuf with data := [] } } :=
    confined_of_eq rfl rfl rfl
  have hmode := hc.of_confined (hcleared.trans (confined_setBlocking _))
  rw [serveTurn]
  generalize setBlocking { c with ioBuf := { c.ioBuf with data := [] } } = r at hmode haccepts ⊢
  obtain ⟨_ | _, d⟩ := r
  · exact .silent hs (.inr hmode)
  · obtain ⟨ran, hran⟩ : ∃ ran, ran = if wbyConIsWebsocketRequest d.request then
        d.serveUpgrade env cb else d.serveRequest env cb := ⟨_, rfl⟩
    have hcases : ran.Plain env notes d ∨ ran.Started env notes := by
      rw [hran]
      split_ifs with hupgrade
      · exact serveUpgrade_spec hs (haccepts d rfl) hupgrade
      · exact .inl (plain_serveRequest hs cb d)
    dsimp only
    rw [← hran]
    cases hvalue : ran.value with
    | none =>
      have hsession : ∃ s, Session env (notes ++ ran.notes) s := by
        obtain hplain | ⟨s, hsession, -⟩ := hcases
        · exact ⟨.idle, hplain.session⟩
        · exact ⟨s, hsession⟩
      obtain ⟨s, hsession⟩ := hsession
      exact ⟨s, hsession, .inl rfl, fun hret => Fate.noConfusion hret⟩
    | some done =>
      obtain hplain | ⟨s, hsession, hrest⟩ := hcases
      · refine ⟨.idle, hplain.session, .inr ?_, fun _ alive valid sent hmem => ?_⟩
        · exact phase_afterServe (hmode.of_confined hplain.confined)
        · exact hplain.session.connected_notMem (List.mem_append_right _ hmem)
      · obtain ⟨rfl, hlasting, hflag, hbody⟩ := hrest.resolve_left (by simp [hvalue])
        obtain ⟨hloop, hphase⟩ := @afterServe_of_lasting cfg _ hlasting hflag hbody
        exact ⟨.opened, hsession, .inr hphase,
          fun hret => Fate.noConfusion (hloop.symm.trans hret)⟩

/-! ## Serving a frame -/

theorem Phase.afterFrame (hc : Phase .opened c) :
    (c.afterFrame cfg).1 = .stuck ∨ Phase .opened (c.afterFrame cfg).2 := by
  have hread : ∀ count, Phase .opened (c.wbyConDiscardIncomingData count).conn := fun count =>
    hc.of_confined (received_discardLoop _ _ c).confined
  have hout : Phase .opened (if c.bodyBytesRead < c.wsFrame.payloadLength then
      c.wbyConDiscardIncomingData (c.wsFrame.payloadLength - c.bodyBytesRead)
    else ⟨some true, c⟩).conn := by
    split_ifs
    · exact hread _
    · exact hc
  rw [Connection.afterFrame]
  generalize (if c.bodyBytesRead < c.wsFrame.payloadLength then
      c.wbyConDiscardIncomingData (c.wsFrame.payloadLength - c.bodyBytesRead)
    else ⟨some true, c⟩ : Outcome Bool) = o at hout ⊢
  obtain ⟨_ | _ | _, d⟩ := o
  · exact .inl rfl
  · exact .inr hout.kill
  · have hmode := hout.of_confined (confined_setNonblocking d)
    dsimp only
    generalize d.setNonblocking = r at hmode ⊢
    obtain ⟨_ | _, e⟩ := r
    · exact .inr hmode
    · cases hmode with
      | opened _ hflag hbody => exact .inr (.opened rfl hflag hbody)

theorem keeps_serveFrame (hs : Session env notes .opened) (hc : Phase .opened c) :
    (c.serveFrame env cfg cb).Keeps env notes := by
  rw [serveFrame]
  split_ifs
  · exact .silent hs (.inr hc.kill)
  · have hpong := hc.of_confined (confined_sendOrKill wbyWebsocketPong c)
    generalize c.sendOrKill wbyWebsocketPong = r at hpong ⊢
    obtain ⟨_ | _, d⟩ := r
    · exact .silent hs (.inr hpong)
    · exact .silent hs hpong.afterFrame
  · have hrun := (cb.wsFrame c.request c.wsFrame).confined_run env c
    have houtside := (cb.wsFrame c.request c.wsFrame).outside_run env c
    have hsession := (hs.frame c.wsFrame).append houtside
    rw [List.append_assoc] at hsession
    have hstarts : ∀ alive valid sent, Note.connected alive valid sent
        ∉ (((cb.wsFrame c.request c.wsFrame).run env c).noted (.frame c.wsFrame)).notes := by
      intro alive valid sent hmem
      rcases List.mem_cons.mp hmem with hmem | hmem
      · exact absurd hmem nofun
      · exact houtside _ hmem
    have hphase := hc.of_confined hrun
    dsimp only
    split
    · exact ⟨.opened, hsession, .inl rfl, nofun⟩
    · exact ⟨.opened, hsession, .inr hphase.kill, fun _ => hstarts⟩
    · exact ⟨.opened, hsession, hphase.afterFrame, fun _ => hstarts⟩

theorem keeps_websocketTurn (hs : Session env notes .opened) (hc : Phase .opened c) :
    (c.websocketTurn env cfg cb).Keeps env notes := by
  have hinput : ∀ (t : Socket) (buf : Buffer), Phase .opened { c with socket := t, ioBuf := buf } :=
    fun t buf => hc.of_confined (confined_of_eq rfl rfl rfl)
  have hreceive : ∀ (t : Socket) (buf : Buffer),
      (receiveFrame env cfg cb { c with socket := t, ioBuf := buf }).Keeps env notes := by
    intro t buf
    rw [receiveFrame]
    split
    · exact .silent hs (.inr (hinput t buf))
    · rename_i f _
      have hframe : Phase .opened { c with
          socket := t, ioBuf := buf, wsFrame := f, bodyBytesRead := 0
          ioDataLeft := leftBehind f.headerSize buf.data } :=
        hc.of_confined (confined_of_eq rfl rfl rfl)
      have hmode := hframe.of_confined (confined_setBlocking _)
      dsimp only at hmode ⊢
      split
      · rename_i hset
        rw [hset] at hmode
        exact .silent hs (.inr hmode)
      · rename_i hset
        rw [hset] at hmode
        exact keeps_serveFrame hs hmode
  rw [websocketTurn]
  rcases wbySocketRecv c.socket c.ioBuf with ⟨_ | _ | _ | _, t, buf⟩
  · exact hreceive t buf
  · exact .silent hs (.inr (hinput t buf).kill)
  · exact hreceive t buf
  · exact .silent hs (.inl rfl)

theorem keeps_turn {l : Life} (hs : Session env l.notes s) (hc : Phase s l.conn)
    (hlive : l.stage = .live) (hguard : Upgradable env l cb) :
    (l.conn.turn env cfg cb).Keeps env l.notes := by
  obtain ⟨d, hd⟩ : ∃ d, d = { l.conn with flags := { l.conn.flags with fresh := false } } := ⟨_, rfl⟩
  have hphase : Phase s d := hd ▸ hc.of_confined (confined_of_eq rfl rfl rfl)
  have hstate : d.state = l.conn.state := by rw [hd]
  rw [Connection.turn]
  dsimp only
  rw [← hd]
  cases hcase : l.conn.state with
  | websocket =>
    obtain rfl := hphase.opened_iff.mpr (hstate.trans hcase)
    exact keeps_websocketTurn hs hphase
  | request =>
    obtain rfl := hphase.eq_idle (by simp [hstate, hcase])
    exact keeps_requestTurn hs hphase
  | sendContinue =>
    obtain rfl := hphase.eq_idle (by simp [hstate, hcase])
    exact keeps_continueTurn hs hphase
  | serve =>
    obtain rfl := hphase.eq_idle (by simp [hstate, hcase])
    refine keeps_serveTurn hs hphase fun e he => ?_
    have hserving : l.conn.serving = (true, e) := by
      rw [hd] at he
      exact he
    have haccepts := hguard hlive hcase (congrArg Prod.fst hserving)
    rwa [hserving] at haccepts

end Turns

/-! ## Whole runs -/

section Runs

variable {env : Env} {cfg : Config} {l : Life} {cb : Callbacks}

theorem InOrder.step (h : InOrder env l) (hguard : Upgradable env l cb) :
    InOrder env (l.step env cfg cb) := by
  obtain ⟨s, hs, hphase, hremoved⟩ := h
  rw [Life.step]
  cases hstage : l.stage with
  | live => exact (keeps_turn hs (hphase hstage) hstage hguard).after hstage cb
  | removed => exact ⟨s, hs, hphase, hremoved⟩
  | hung => exact ⟨s, hs, hphase, hremoved⟩

/-- The notes of the end of a session. -/
theorem notes_reap (l : Life) (env : Env) (cb : Callbacks) :
    ∃ more, (l.reap env cb).notes = l.notes ++ more ∧
      ∀ alive valid sent, .connected alive valid sent ∉ more := by
  rw [Life.reap]
  split_ifs
  · refine ⟨(((cb.wsClosed l.conn.request).run env l.conn).noted .closed).notes, ?_, ?_⟩
    · dsimp only
      split <;> rfl
    · intro alive valid sent hmem
      rcases List.mem_cons.mp hmem with hmem | hmem
      · exact absurd hmem nofun
      · exact (cb.wsClosed l.conn.request).outside_run env l.conn _ hmem
  · exact ⟨[], (List.append_nil _).symm, fun _ _ _ => List.not_mem_nil⟩

/-- A round in which a session starts ends with a WebSocket. -/
theorem Turn.Keeps.endsOpen {t : Turn} (h : t.Keeps env l.notes) (hlive : l.stage = .live)
    (cb : Callbacks) : EndsOpen l (l.after env cb t) := by
  obtain ⟨s, hs, hfate, hret⟩ := h
  obtain ⟨fate, more, d⟩ := t
  obtain ⟨c, notes, stage⟩ := l
  obtain rfl : stage = .live := hlive
  intro alive valid sent hmem
  cases fate with
  | loop =>
    have hphase : Phase s d := hfate.resolve_left nofun
    have hnew : .connected alive valid sent ∈ notes ++ more := List.mem_of_mem_drop hmem
    refine .inr ⟨rfl, ?_⟩
    cases hphase with
    | idle => exact absurd hnew hs.connected_notMem
    | opened hstate _ _ => exact hstate
  | stuck => exact .inl rfl
  | ret =>
    -- what is noted when the connection is removed does not start a session either
    have hnone := hret rfl alive valid sent
    rw [Life.after] at hmem
    dsimp only at hmem
    split_ifs at hmem
    · rw [List.drop_left] at hmem
      exact absurd hmem hnone
    · obtain ⟨last, hnotes, hlast⟩ := notes_reap ⟨d, notes ++ more, .live⟩ env cb
      rw [hnotes, List.append_assoc, List.drop_left] at hmem
      rcases List.mem_append.mp hmem with hmem | hmem
      · exact absurd hmem hnone
      · exact absurd hmem (hlast alive valid sent)

theorem InOrder.endsOpen (h : InOrder env l) (hguard : Upgradable env l cb) :
    EndsOpen l (l.step env cfg cb) := by
  obtain ⟨s, hs, hphase, -⟩ := h
  rw [Life.step]
  cases hstage : l.stage with
  | live => exact (keeps_turn hs (hphase hstage) hstage hguard).endsOpen hstage cb
  | removed =>
    intro alive valid sent hmem
    rw [List.drop_length] at hmem
    exact absurd hmem List.not_mem_nil
  | hung =>
    intro alive valid sent hmem
    rw [List.drop_length] at hmem
    exact absurd hmem List.not_mem_nil

/-- **The sessions of a connection are consistent as long as no upgrade is accepted on a connection
that is not ready for it.** -/
theorem consistent_run (env : Env) (cfg : Config) (configured : Bool) (fd : Socket) (c : Connection)
    (cbs : List Callbacks) (l : Life)
    (h : Run (Life.step env cfg) (Upgradable env) (.start (c.accept cfg configured fd)) cbs l) :
    Consistent env l ∧ ∀ cb, Upgradable env l cb → EndsOpen l (l.step env cfg cb) := by
  have hstart : InOrder env (.start (c.accept cfg configured fd)) :=
    inOrder_live .start (.idle nofun rfl)
  have hinv : InOrder env l :=
    h.invariant (P := fun _ => InOrder env) hstart fun _ _ _ hinv hguard => hinv.step hguard
  exact ⟨hinv.consistent, fun cb hguard => hinv.endsOpen hguard⟩

/-- A request for an upgrade, with more headers. -/
def upgradeRequest (headers : List String) : Bytes :=
  (["GET / HTTP/1.1", "Connection: Upgrade", "Upgrade: websocket", "Sec-WebSocket-Version: 13",
    "Sec-WebSocket-Key: a"] ++ headers).flatMap (fun line => ascii line ++ crlf) ++ crlf

/-- An application that accepts everything, and does nothing. -/
def accepting : Callbacks where
  dispatch _ := .done true
  wsConnect := some fun _ => .done true
  wsConnected _ := .done true
  wsFrame _ _ := .done true
  wsClosed _ := .done true

def smallConfig : Config := ⟨1, 256, 256⟩

/-- A connection on which bytes arrive, after two rounds. -/
def twoRounds (bs : Bytes) : Life :=
  [accepting, accepting].foldl (Life.step .zero smallConfig)
    (.start ((Connection.blank (.ready [])).accept smallConfig true (.ready [.data bs])))

/-- The connection after the first of them. -/
def oneRound (bs : Bytes) : Life :=
  Life.step .zero smallConfig
    (.start ((Connection.blank (.ready [])).accept smallConfig true (.ready [.data bs]))) accepting

theorem run_twoRounds {bs : Bytes} (hready : (oneRound bs).conn.serving.2.Ready)
    (hlasting : ((oneRound bs).conn.serving.2.sendWebsocketUpgrade .zero).conn.Lasting) :
    Run (Life.step .zero smallConfig) (Upgradable .zero)
      (.start ((Connection.blank (.ready [])).accept smallConfig true (.ready [.data bs])))
      [accepting, accepting] (twoRounds bs) := by
  have hfirst : Run (Life.step .zero smallConfig) (Upgradable .zero)
      (.start ((Connection.blank (.ready [])).accept smallConfig true (.ready [.data bs])))
      [accepting] (oneRound bs) := .single fun _ hstate => absurd hstate nofun
  refine hfirst.snoc fun _ _ _ _ _ wsConnect hconnect _ => ?_
  obtain rfl := Option.some.inj hconnect
  refine ⟨hready, fun d hsend _ => ?_⟩
  have hd : ((oneRound bs).conn.serving.2.sendWebsocketUpgrade .zero).conn = d :=
    congrArg Outcome.conn hsend
  rw [hd] at hlasting
  exact ⟨hlasting.valid, hlasting.alive, hlasting.open_, hlasting.mode⟩

/-- The upgrade of a request with a body of one byte. -/
theorem consistent_upgrade_with_body :
    Consistent .zero (twoRounds (upgradeRequest ["Content-Length: 1"] ++ [120])) := by
  have hready : (oneRound (upgradeRequest ["Content-Length: 1"] ++ [120])).conn.serving.2.Ready :=
    ⟨⟨by decide +kernel, by decide +kernel, ⟨by decide +kernel, by decide +kernel⟩, by decide +kernel⟩,
      ⟨by decide +kernel, by decide +kernel⟩, by decide +kernel, by decide +kernel,
      by decide +kernel, by decide +kernel, by decide +kernel, by decide +kernel⟩
  have hlasting : ((oneRound (upgradeRequest ["Content-Length: 1"] ++
      [120])).conn.serving.2.sendWebsocketUpgrade .zero).conn.Lasting :=
    ⟨by decide +kernel, by decide +kernel, by decide +kernel, by decide +kernel⟩
  exact (consistent_run .zero smallConfig true (.ready [.data _]) (Connection.blank (.ready []))
    [accepting, accepting] _ (run_twoRounds hready hlasting)).1

/-- The upgrade of a request without a body. -/
theorem not_consistent_upgrade_without_body :
    ¬ Consistent .zero (twoRounds (upgradeRequest [])) := by
  rintro ⟨s, hs, -, -⟩
  have hmem : ((twoRounds (upgradeRequest [])).notes.any fun n => match n with
      | .connected false _ _ => true
      | _ => false) = true := by
    decide +kernel
  obtain ⟨n, hn, hfalse⟩ := List.any_eq_true.mp hmem
  cases n with
  | connected alive valid sent =>
    obtain ⟨rfl, -⟩ := hs.connected_mem hn
    exact absurd hfalse (by simp)
  | _ => exact absurd hfalse (by simp)

end Runs

end Mavicona.Mumux
