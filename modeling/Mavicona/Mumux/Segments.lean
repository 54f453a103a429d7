import Mavicona.Common.Stutter
import Mavicona.Mumux.Brief
import Mavicona.Mumux.Sessions

/-!
# How a stream is cut does not matter

Reference: `mumux/server.c` (`wby_update`, `wby_update_connection`).

Two clients send the same bytes, but their bytes arrive in other pieces, and at other times. As long as
every request arrives `Whole`, the server makes the same callbacks for both, reads the same bytes in
them, and sends the same responses (`segments_irrelevant`).
-/

namespace Mavicona.Mumux

open Bytes Socket Stutter Connection

/-! ## An application that answers -/

/-- A round of the server, for an application that may look at what was noted so far. -/
def serve (env : Env) (cfg : Config) (app : List Note → Callbacks) (l : Life) : Life :=
  l.step env cfg (app l.notes)

/-- An application without WebSockets, which begins a response to every request that it takes, with texts
that are not too long. -/
structure Answers (app : List Note → Callbacks) : Prop where
  http : ∀ notes, (app notes).wsConnect = none
  responds : ∀ notes r, ((app notes).dispatch r).Responds False
  brief : ∀ notes r, ((app notes).dispatch r).Brief

/-- The request that is received in this round arrives whole. -/
def Life.Whole (l : Life) : Prop := l.stage = .live → l.conn.state = .request → l.conn.Whole

instance (l : Life) : Decidable l.Whole := inferInstanceAs (Decidable (_ → _ → _))

/-- Nothing happens in this round. -/
def Life.Waits (env : Env) (cfg : Config) (app : List Note → Callbacks) (l : Life) : Prop :=
  l.stage = .live → (l.conn.turn env cfg (app l.notes)).Waits

/-- Two lives that have come to the same. -/
structure Life.Pair (l l' : Life) : Prop where
  notes : l'.notes = l.notes
  stage : l'.stage = l.stage
  same : l.conn.Same l'.conn
  live : l.stage = .live → l.conn.Paired l'.conn

namespace Connection

section Turns

variable {env : Env} {cfg : Config} {cb : Callbacks} {c d : Connection}

theorem turn_request (h : c.state = .request) : c.turn env cfg cb = c.stale.requestTurn := by
  obtain ⟨_, _, state, _⟩ := c
  obtain rfl : state = .request := h
  rfl

theorem turn_sendContinue (h : c.state = .sendContinue) :
    c.turn env cfg cb = c.stale.continueTurn := by
  obtain ⟨_, _, state, _⟩ := c
  obtain rfl : state = .sendContinue := h
  rfl

theorem turn_serve (h : c.state = .serve) : c.turn env cfg cb = c.stale.serveTurn env cfg cb := by
  obtain ⟨_, _, state, _⟩ := c
  obtain rfl : state = .serve := h
  rfl

/-- A round of a connection that is no WebSocket, whatever is on the stack. -/
theorem turn_env (env env' : Env) (cfg : Config) (hstate : c.state ≠ .websocket)
    (h : c.state = .serve → c.request.Brief) (hws : cb.wsConnect = none)
    (hcb : ∀ r, (cb.dispatch r).Brief) : c.turn env cfg cb = c.turn env' cfg cb := by
  cases hcase : c.state with
  | request => rw [turn_request hcase, turn_request hcase]
  | sendContinue => rw [turn_sendContinue hcase, turn_sendContinue hcase]
  | serve =>
    rw [turn_serve hcase, turn_serve hcase]
    exact serveTurn_env env env' (c := c.stale) (h hcase) hws hcb cfg
  | websocket => exact absurd hcase hstate

/-- What a round comes to on a connection that waits for a request. -/
theorem Listens.heard (h : c.Listens) (env : Env) (cfg : Config) (cb : Callbacks) (hwhole : c.Whole) :
    c.stale.Heard (c.turn env cfg cb) := by
  rw [turn_request h.state]
  exact heard_requestTurn h.stale hwhole

theorem Called.alike_turn (h : c.Called d) (env : Env) (hcfg : cfg.Small) (hws : cb.wsConnect = none)
    (hcb : ∀ r, (cb.dispatch r).Responds False) :
    (c.turn env cfg cb).Alike (d.turn env cfg cb) := by
  have hstate : d.state = c.state := by rw [h.same]; rfl
  rcases h.left.state with hc | hc
  · rw [turn_sendContinue hc, turn_sendContinue (hstate.trans hc)]
    exact h.stale.alike_continueTurn
  · rw [turn_serve hc, turn_serve (hstate.trans hc)]
    exact h.stale.alike_serveTurn hc env hcfg hws hcb

theorem Called.not_still_turn (h : c.Called d) (hcfg : cfg.Small) (hws : cb.wsConnect = none)
    (hcb : ∀ r, (cb.dispatch r).Responds False) (hloop : (c.turn env cfg cb).fate = .loop) :
    ¬ c.stale.Still (c.turn env cfg cb).conn := by
  rcases h.left.state with hc | hc
  · rw [turn_sendContinue hc] at hloop ⊢
    exact not_still_continueTurn hc hloop
  · rw [turn_serve hc] at hloop ⊢
    exact h.stale.not_still_serveTurn hc env hcfg hws hcb hloop

theorem Shut.alike_turn (hc : c.Shut) (hd : d.Shut) (hsame : c.Same d) :
    (c.turn env cfg cb).Alike (d.turn env cfg cb) := by
  rw [turn_serve hc.state, turn_serve hd.state]
  exact hc.stale.alike_serveTurn hd.stale hsame.stale env cfg cb

end Turns

end Connection

theorem Turn.Alike.not_waits {t t' : Turn} (h : t.Alike t') : ¬ t.Waits := by
  rintro ⟨hret, halive⟩
  exact absurd (halive.symm.trans (h.ret hret).1.1) (Ne.symm Bool.false_ne_true)

/-! ## Rounds of the server -/

namespace Life

variable {env : Env} {cfg : Config} {app : List Note → Callbacks} {l l' : Life}

theorem Pair.symm (h : l.Pair l') : l'.Pair l :=
  ⟨h.notes.symm, h.stage.symm, h.same.symm, fun hlive => (h.live (h.stage.symm.trans hlive)).symm⟩

theorem serve_of_ne (h : l.stage ≠ .live) : serve env cfg app l = l := by
  rw [serve, step]
  cases hstage : l.stage with
  | live => exact absurd hstage h
  | removed => rfl
  | hung => rfl

theorem serve_of_live (h : l.stage = .live) :
    serve env cfg app l = l.after env (app l.notes) (l.conn.turn env cfg (app l.notes)) := by
  rw [serve, step, h]

/-- A round in which nothing happens. -/
theorem after_waits {notes : List Note} {c : Connection} (halive : c.flags.alive = true)
    (cb : Callbacks) : l.after env cb ⟨.ret, notes, c⟩ = ⟨c, l.notes ++ notes, l.stage⟩ := by
  rw [after]
  exact if_pos halive

/-- A round after which the connection is removed. -/
theorem after_givenUp {notes : List Note} {c : Connection} (h : c.GivenUp) (cb : Callbacks) :
    l.after env cb ⟨.ret, notes, c⟩ = ⟨c.close, l.notes ++ notes, .removed⟩ := by
  rw [after]
  dsimp only
  rw [if_neg (by simp [h.1]), reap, if_neg (by simp [h.2])]

/-- What follows two rounds that came to the same. -/
theorem Pair.after {t t' : Turn} (h : l.Pair l') (hlive : l.stage = .live) (ht : t.Alike t')
    (cb : Callbacks) : (l.after env cb t).Pair (l'.after env cb t') := by
  have hlive' := h.stage.trans hlive
  obtain ⟨fate, more, c⟩ := t
  obtain ⟨fate', more', c'⟩ := t'
  obtain ⟨hfate, hmore, hsame, hloop, hret⟩ := ht
  obtain rfl : fate = fate' := hfate
  obtain rfl : more = more' := hmore
  have hnotes : l'.notes ++ more = l.notes ++ more := by rw [h.notes]
  cases fate with
  | loop => exact ⟨hnotes, h.stage, hsame, fun _ => hloop rfl⟩
  | stuck => exact ⟨hnotes, rfl, hsame, nofun⟩
  | ret =>
    obtain ⟨hc, hc'⟩ := hret rfl
    rw [after_givenUp hc, after_givenUp hc']
    exact ⟨hnotes, rfl, Same.close hsame, nofun⟩

/-- A round that does not wait changes something. -/
theorem after_ne {t : Turn} (hlive : l.stage = .live) (hret : t.fate = .ret → t.conn.GivenUp)
    (hmoves : t.fate = .loop → ¬ l.conn.stale.Still t.conn) (cb : Callbacks) :
    l.after env cb t ≠ l := by
  obtain ⟨fate, more, c⟩ := t
  intro heq
  cases fate with
  | loop =>
    have hconn : c = l.conn := congrArg Life.conn heq
    exact hmoves rfl ⟨by rw [hconn]; rfl, by rw [hconn]; rfl, by rw [hconn]; rfl⟩
  | stuck => exact absurd ((congrArg Life.stage heq).trans hlive) nofun
  | ret =>
    rw [after_givenUp (hret rfl)] at heq
    exact absurd ((congrArg Life.stage heq).trans hlive) nofun

/-! ### Two lives -/

section Pair

variable (hcfg : cfg.Small) (happ : Answers app)
include hcfg happ

/-- One of them waits. -/
theorem Pair.wait (h : l.Pair l') (hwhole : l.Whole) (hwaits : l.Waits env cfg app) :
    (serve env cfg app l).Pair l' := by
  by_cases hlive : l.stage = .live
  · rw [serve_of_live hlive]
    have hwaits := hwaits hlive
    cases h.live hlive with
    | hearing hpair =>
      have hheard := hpair.left.heard env cfg (app l.notes) (hwhole hlive hpair.left.state)
      generalize l.conn.turn env cfg (app l.notes) = t at hheard hwaits ⊢
      cases hheard with
      | @waits d hhearing =>
        have hnext := (hpair.left.hearing_stale.trans hhearing).symm.trans hpair
        rw [after_waits hhearing.right.alive]
        exact ⟨by rw [h.notes, List.append_nil], h.stage, hnext.same, fun _ => .hearing hnext⟩
      | refused => exact absurd hwaits.2 Bool.false_ne_true
      | malformed => exact absurd hwaits.2 Bool.false_ne_true
      | request => exact absurd hwaits.1 nofun
    | called hpair =>
      exact absurd hwaits (hpair.alike_turn env hcfg (happ.http _) (happ.responds _)).not_waits
    | shut hc hd => exact absurd hwaits (hc.alike_turn hd h.same).not_waits
  · rwa [serve_of_ne hlive]

/-- Neither of them waits. -/
theorem Pair.both (h : l.Pair l') (hwhole : l.Whole) (hwhole' : l'.Whole)
    (hwaits : ¬ l.Waits env cfg app) (hwaits' : ¬ l'.Waits env cfg app) :
    (serve env cfg app l).Pair (serve env cfg app l') := by
  rw [Waits, Classical.not_imp] at hwaits hwaits'
  obtain ⟨hlive, hwaits⟩ := hwaits
  obtain ⟨hlive', hwaits'⟩ := hwaits'
  rw [serve_of_live hlive, serve_of_live hlive', h.notes]
  rw [h.notes] at hwaits'
  refine h.after hlive ?_ _
  cases h.live hlive with
  | hearing hpair =>
    exact hpair.stale.alike_turn (hpair.left.heard env cfg _ (hwhole hlive hpair.left.state))
      (hpair.right.heard env cfg _ (hwhole' hlive' hpair.right.state)) hwaits hwaits'
  | called hpair => exact hpair.alike_turn env hcfg (happ.http _) (happ.responds _)
  | shut hc hd => exact hc.alike_turn hd h.same

/-- If no further round changes anything, the connection waits for more, and nothing is left to come. -/
theorem Pair.at_rest (h : l.Pair l') (hlive : l.stage = .live) (hwhole : l.Whole)
    (hrest : serve env cfg app l = l) :
    l.conn.Hearing l'.conn ∧ l.conn.heading = none ∧ l.conn.stream.length < l.conn.headerBuf.max ∧
      Socket.ends l.conn.socket.incoming = false := by
  rw [serve_of_live hlive] at hrest
  cases h.live hlive with
  | hearing hpair =>
    refine ⟨hpair, ?_⟩
    have hheard := hpair.left.heard env cfg (app l.notes) (hwhole hlive hpair.left.state)
    generalize l.conn.turn env cfg (app l.notes) = t at hheard hrest
    cases hheard with
    | @waits d hhearing hlength hpeek hincoming =>
      rw [after_waits hhearing.right.alive] at hrest
      obtain rfl : d = l.conn := congrArg Life.conn hrest
      have hnil : l.conn.socket.incoming = [] := hincoming rfl
      have hstream : l.conn.stream = l.conn.headerBuf.data := by
        rw [Connection.stream, hnil, deliverable_nil, List.append_nil]
      refine ⟨?_, by rwa [hstream], by rw [hnil]; rfl⟩
      rw [heading, hstream, List.take_of_length_le hlength.le]
      exact hpeek
    | refused hhearing =>
      rw [after_givenUp hhearing.right.givenUp] at hrest
      cases (congrArg Life.stage hrest).trans hlive
    | malformed hhearing =>
      rw [after_givenUp hhearing.right.givenUp] at hrest
      cases (congrArg Life.stage hrest).trans hlive
    | request =>
      refine absurd hrest (after_ne hlive ?_ ?_ _)
      · intro hret
        cases hret
      · intro _ hstill
        have hstate := hstill.state.trans hpair.left.state
        rcases state_expect _ with hnext | hnext
        · cases hnext.symm.trans hstate
        · cases hnext.symm.trans hstate
  | called hpair =>
    have halike := hpair.alike_turn env hcfg (happ.http l.notes) (happ.responds l.notes)
    exact absurd hrest (after_ne hlive (fun hret => (halike.ret hret).1)
      (hpair.not_still_turn hcfg (happ.http _) (happ.responds _)) _)
  | shut hc _ =>
    rw [turn_serve hc.state, hc.stale.serveTurn_eq] at hrest
    refine absurd hrest (after_ne hlive ?_ ?_ _)
    · exact fun _ => ⟨rfl, hc.http⟩
    · intro hloop
      cases hloop

/-- If one of them has come to rest, the other one waits. -/
theorem Pair.rest (h : l.Pair l') (hwhole : l.Whole) (hwhole' : l'.Whole)
    (hrest : serve env cfg app l' = l') : l.Waits env cfg app := by
  intro hlive
  obtain ⟨hpair, hheading, hlength, hends⟩ :=
    h.symm.at_rest hcfg happ (h.stage.trans hlive) hwhole' hrest
  have hheard := hpair.right.heard env cfg (app l.notes) (hwhole hlive hpair.right.state)
  have hnone : l.conn.heading = none := hpair.heading_eq.trans hheading
  generalize l.conn.turn env cfg (app l.notes) = t at hheard ⊢
  cases hheard with
  | waits hhearing => exact ⟨rfl, hhearing.right.alive⟩
  | refused _ _ hwhy =>
    have hmax : l.conn.headerBuf.max = l'.conn.headerBuf.max := hpair.max
    have hstream : l.conn.stream = l'.conn.stream := hpair.stream
    rcases hwhy with hfull | hended
    · have hle : l.conn.headerBuf.max ≤ l.conn.stream.length := hfull
      rw [hmax, hstream] at hle
      exact absurd hlength (not_lt.mpr hle)
    · have hended : Socket.ends l.conn.socket.incoming = true := hended
      rw [hpair.ends, hends] at hended
      exact absurd hended Bool.false_ne_true
  | malformed _ hsome => exact absurd (hnone.symm.trans hsome) (Option.some_ne_none _).symm
  | request _ hsome => exact absurd (hnone.symm.trans hsome) (Option.some_ne_none _).symm

/-- A life that is paired with itself goes on so. -/
theorem Pair.serve_self (h : l.Pair l) (hwhole : l.Whole) :
    (serve env cfg app l).Pair (serve env cfg app l) := by
  by_cases hwaits : l.Waits env cfg app
  · exact (h.wait hcfg happ hwhole hwaits).symm.wait hcfg happ hwhole hwaits
  · exact h.both hcfg happ hwhole hwhole hwaits hwaits

/-- A connection that is given up in a round is no WebSocket. -/
theorem Pair.http_turn (h : l.Pair l) (hlive : l.stage = .live) (hwhole : l.Whole)
    (hret : (l.conn.turn env cfg (app l.notes)).fate = .ret)
    (hdead : (l.conn.turn env cfg (app l.notes)).conn.flags.alive = false) :
    (l.conn.turn env cfg (app l.notes)).conn.flags.websocket = false := by
  cases h.live hlive with
  | hearing hpair =>
    have hheard := hpair.left.heard env cfg (app l.notes) (hwhole hlive hpair.left.state)
    generalize l.conn.turn env cfg (app l.notes) = t at hheard hret hdead ⊢
    cases hheard with
    | waits hhearing => exact hhearing.right.http
    | refused hhearing => exact hhearing.right.http
    | malformed hhearing => exact hhearing.right.http
    | request => cases hret
  | called hpair => exact ((hpair.alike_turn env hcfg (happ.http _) (happ.responds _)).ret hret).1.2
  | shut hc _ => exact ((hc.alike_turn hc (Same.refl _)).ret hret).1.2

omit hcfg in
theorem Pair.turn_env (h : l.Pair l) (hlive : l.stage = .live) (env' : Env) :
    l.conn.turn env cfg (app l.notes) = l.conn.turn env' cfg (app l.notes) := by
  cases h.live hlive with
  | hearing hpair =>
    have hstate := hpair.left.state
    exact Connection.turn_env env env' cfg (by rw [hstate]; exact nofun)
      (fun h => absurd (hstate.symm.trans h) nofun) (happ.http _) (happ.brief _)
  | called hpair =>
    refine Connection.turn_env env env' cfg ?_ (fun _ => hpair.left.brief) (happ.http _) (happ.brief _)
    rcases hpair.left.state with hstate | hstate
    · rw [hstate]
      exact nofun
    · rw [hstate]
      exact nofun
  | shut hc _ => rw [turn_serve hc.state, turn_serve hc.state, hc.stale.serveTurn_eq, hc.stale.serveTurn_eq]

/-- What is on the stack makes no difference. -/
theorem Pair.serve_env (h : l.Pair l) (hwhole : l.Whole) (env' : Env) :
    serve env cfg app l = serve env' cfg app l := by
  by_cases hlive : l.stage = .live
  · have hturn : l.conn.turn env cfg (app l.notes) = l.conn.turn env' cfg (app l.notes) :=
      h.turn_env happ hlive env'
    have hhttp : (l.conn.turn env cfg (app l.notes)).fate = .ret →
        (l.conn.turn env cfg (app l.notes)).conn.flags.alive = false →
          (l.conn.turn env cfg (app l.notes)).conn.flags.websocket = false :=
      h.http_turn hcfg happ hlive hwhole
    rw [serve_of_live hlive, serve_of_live hlive, ← hturn]
    generalize l.conn.turn env cfg (app l.notes) = t at hhttp
    obtain ⟨fate, more, c⟩ := t
    cases fate with
    | loop => rfl
    | stuck => rfl
    | ret =>
      cases halive : c.flags.alive with
      | true => rw [after_waits halive, after_waits halive]
      | false =>
        have hgiven : c.GivenUp := ⟨halive, hhttp rfl halive⟩
        rw [after_givenUp hgiven, after_givenUp hgiven]
  · rw [serve_of_ne hlive, serve_of_ne hlive]

/-- **Two lives with the same stream wait for each other.** -/
theorem lockstep (env : Env) :
    Lockstep (serve env cfg app) Whole (Waits env cfg app) Pair where
  symm := Pair.symm
  wait h hwhole hwaits := h.wait hcfg happ hwhole hwaits
  both h hwhole hwhole' hwaits hwaits' := h.both hcfg happ hwhole hwhole' hwaits hwaits'
  rest h hwhole hwhole' hrest := h.rest hcfg happ hwhole hwhole' hrest

end Pair

end Life

/-! ## Whole runs -/

section Runs

variable {env : Env} {cfg : Config} {app : List Note → Callbacks} {fd : Socket} {es : List Event}
  {m n : ℕ}

/-- Something is noted, and nothing is forgotten. -/
theorem notes_serve (env : Env) (cfg : Config) (app : List Note → Callbacks) (l : Life) :
    l.notes <+: (serve env cfg app l).notes := by
  by_cases hlive : l.stage = .live
  · rw [Life.serve_of_live hlive]
    generalize l.conn.turn env cfg (app l.notes) = t
    obtain ⟨fate, more, c⟩ := t
    have hmore : l.notes <+: l.notes ++ more := List.prefix_append _ _
    cases fate with
    | loop => exact hmore
    | stuck => exact hmore
    | ret =>
      rw [Life.after]
      dsimp only
      split_ifs
      · exact hmore
      · obtain ⟨last, hlast, -⟩ := notes_reap ⟨c, l.notes ++ more, l.stage⟩ env (app l.notes)
        rw [hlast]
        exact hmore.trans (List.prefix_append _ _)
  · rw [Life.serve_of_ne hlive]

/-- A socket that was accepted: it does not wait, its mode can be changed, and it does not fail. -/
structure Accepted (s : Socket) : Prop where
  valid : s.valid = true
  blocking : s.blocking = false
  modes : ∀ m ∈ s.modes, m = true
  fails : fails s.incoming = false

/-- A socket on which the same bytes arrive. -/
structure SameStream (s t : Socket) : Prop where
  socket : t = { s with incoming := t.incoming }
  stream : deliverable t.incoming = deliverable s.incoming
  ends : ends t.incoming = ends s.incoming

theorem Accepted.listens {c : Connection} (h : Accepted fd) (hcfg : cfg.Small) :
    (c.accept cfg true fd).Listens :=
  ⟨⟨rfl, rfl, h.valid, h.blocking, h.modes, rfl, rfl, rfl, h.fails⟩, rfl, Nat.zero_le _, hcfg.request⟩

/-- Two connections that were accepted. -/
theorem pair_start {fd' : Socket} (h : Accepted fd) (h' : Accepted fd') (hstream : SameStream fd fd')
    (hcfg : cfg.Small) (c : Connection) :
    (Life.start (c.accept cfg true fd)).Pair (.start (c.accept cfg true fd')) := by
  have hsame : (c.accept cfg true fd).Same (c.accept cfg true fd') := by
    rw [Same, hstream.socket]
    rfl
  exact ⟨rfl, rfl, hsame, fun _ => .hearing
    ⟨h.listens hcfg, h'.listens hcfg, hsame, rfl, hstream.stream, hstream.ends⟩⟩

/-- What is on the stack makes no difference to a run. -/
theorem iterate_env (hcfg : cfg.Small) (happ : Answers app) {l : Life} (h : l.Pair l)
    (hwhole : Okay (serve env cfg app) Life.Whole n l) (env' : Env) :
    ∀ k ≤ n, (serve env cfg app)^[k] l = (serve env' cfg app)^[k] l ∧
      ((serve env cfg app)^[k] l).Pair ((serve env cfg app)^[k] l) := by
  intro k
  induction k with
  | zero =>
    intro _
    rw [Function.iterate_zero_apply, Function.iterate_zero_apply]
    exact ⟨rfl, h⟩
  | succ k ih =>
    intro hk
    obtain ⟨heq, hpair⟩ := ih (Nat.le_of_succ_le hk)
    have hok := hwhole k hk
    rw [Function.iterate_succ_apply', Function.iterate_succ_apply', ← heq]
    exact ⟨hpair.serve_env hcfg happ hok env', hpair.serve_self hcfg happ hok⟩

/-- **How a stream is cut does not matter**: of two runs, one has noted what the other has, and maybe
more, and both have noted and sent the same once no further round changes anything. The two connections
are accepted in the same slot, with a socket that takes what is sent in the same pieces; what is on the
stack may differ. -/
theorem segments_irrelevant (env env' : Env) (cfg : Config) (hcfg : cfg.Small) (happ : Answers app)
    (c : Connection) {fd fd' : Socket} (h : Accepted fd) (h' : Accepted fd') (hstream : SameStream fd fd')
    (hwhole : Okay (serve env cfg app) Life.Whole (n + 1) (.start (c.accept cfg true fd)))
    (hwhole' : Okay (serve env' cfg app) Life.Whole (m + 1) (.start (c.accept cfg true fd'))) :
    let l := (serve env cfg app)^[n] (.start (c.accept cfg true fd))
    let l' := (serve env' cfg app)^[m] (.start (c.accept cfg true fd'))
    (l.notes <+: l'.notes ∨ l'.notes <+: l.notes) ∧
      (serve env cfg app l = l → serve env' cfg app l' = l' →
        l.notes = l'.notes ∧ l.conn.socket.sent = l'.conn.socket.sent) := by
  have hpair := pair_start h h' hstream hcfg c
  have hself := pair_start h' h' ⟨rfl, rfl, rfl⟩ hcfg c
  have hsame := fun k hk => (iterate_env hcfg happ hself hwhole' env k hk).1
  have hlock := Life.lockstep hcfg happ env
  have hwhole'' : Okay (serve env cfg app) Life.Whole (m + 1) (.start (c.accept cfg true fd')) := by
    intro k hk
    rw [← hsame k hk.le]
    exact hwhole' k hk
  have hnext := hsame (m + 1) le_rfl
  rw [Function.iterate_succ_apply', Function.iterate_succ_apply', hsame m (Nat.le_succ m)] at hnext
  dsimp only
  rw [hsame m (Nat.le_succ m), hnext]
  refine ⟨hlock.comparable (fun h => h.notes.symm) (notes_serve env cfg app) hpair hwhole.init
    hwhole''.init, fun hrest hrest' => ?_⟩
  have hmeet := hlock.meet_of_rest hpair hwhole hwhole'' hrest hrest'
  refine ⟨hmeet.notes.symm, ?_⟩
  rw [hmeet.same]
  rfl

theorem Life.eq_of {l l' : Life} (hconn : l.conn = l'.conn) (hnotes : l.notes = l'.notes)
    (hstage : l.stage = l'.stage) : l = l' := by
  obtain ⟨c, notes, stage⟩ := l
  obtain ⟨c', notes', stage'⟩ := l'
  obtain rfl : c = c' := hconn
  obtain rfl : notes = notes' := hnotes
  obtain rfl : stage = stage' := hstage
  rfl

/-- An application that reads a body of three bytes, and sends it back. -/
def echo : Callbacks where
  dispatch _ := .call (.read 3) fun r => .call (.responseBegin 200 3 []) fun _ =>
    .call (.write r.data) fun _ => .call .responseEnd fun _ => .done true
  wsConnect := none
  wsConnected _ := .done true
  wsFrame _ _ := .done true
  wsClosed _ := .done true

/-- A request with a body of three bytes. -/
def postHead : Bytes :=
  ascii "POST / HTTP/1.1" ++ crlf ++ ascii "Content-Length: 3" ++ crlf ++ crlf

/-- It arrives at once. -/
def atOnce : Socket := .ready [.data (postHead ++ ascii "abc")]

/-- It arrives in four pieces. -/
def inPieces : Socket :=
  .ready [.data (postHead.take 10), .again, .data (postHead.drop 10 ++ ascii "a"), .again,
    .data (ascii "b"), .data (ascii "c")]

/-- A stack of ones. -/
def ones : Env := { Env.zero with spill := fun _ => 1 }

theorem segments_irrelevant_post :
    let l := (serve .zero smallConfig fun _ => echo)^[2]
      (.start ((Connection.blank (.ready [])).accept smallConfig true atOnce))
    let l' := (serve ones smallConfig fun _ => echo)^[3]
      (.start ((Connection.blank (.ready [])).accept smallConfig true inPieces))
    l.notes = l'.notes ∧ l.conn.socket.sent = l'.conn.socket.sent := by
  have happ : Answers fun _ => echo := by
    refine ⟨fun _ => rfl, fun _ _ => ?_, fun _ _ => ?_⟩
    · refine ⟨trivial, fun _ => ⟨trivial, fun _ => ⟨trivial, fun _ => ⟨trivial, fun _ _ => ?_⟩⟩⟩⟩
      exact .inl (.inl (.inr trivial))
    · refine ⟨show 3 < 2 ^ 31 by decide, fun _ => ⟨⟨by decide +kernel, by decide +kernel, ?_⟩, fun _ => ⟨trivial,
        fun _ => ⟨trivial, fun _ => trivial⟩⟩⟩⟩
      exact fun h hh => absurd hh List.not_mem_nil
  have honce : Accepted atOnce := ⟨rfl, rfl, by simp [atOnce, Socket.ready], by decide +kernel⟩
  have hpieces : Accepted inPieces := ⟨rfl, rfl, by simp [inPieces, Socket.ready], by decide +kernel⟩
  have hstream : SameStream atOnce inPieces := ⟨rfl, by decide +kernel, by decide +kernel⟩
  have hwhole : ∀ k < 3, Life.Whole ((serve .zero smallConfig fun _ => echo)^[k]
      (.start ((Connection.blank (.ready [])).accept smallConfig true atOnce))) := by
    decide +kernel
  have hwhole' : ∀ k < 4, Life.Whole ((serve ones smallConfig fun _ => echo)^[k]
      (.start ((Connection.blank (.ready [])).accept smallConfig true inPieces))) := by
    decide +kernel
  refine (segments_irrelevant (n := 2) (m := 3) .zero ones smallConfig ⟨by decide, by decide⟩ happ
    (Connection.blank (.ready [])) honce hpieces hstream hwhole hwhole').2 ?_ ?_
  · exact Life.eq_of (by decide +kernel) (by decide +kernel) (by decide +kernel)
  · exact Life.eq_of (by decide +kernel) (by decide +kernel) (by decide +kernel)

/-- Two requests that arrive at once are not whole: the second one is lost. -/
example :
    let run (events : List Event) := (serve .zero smallConfig fun _ => echo)^[5]
      (.start ((Connection.blank (.ready [])).accept smallConfig true (.ready events)))
    let post := postHead ++ ascii "abc"
    (run [.data (post ++ post)]).notes.length = 2 ∧
      (run [.data post, .again, .data post]).notes.length = 4 := by
  decide +kernel

end Runs

end Mavicona.Mumux
