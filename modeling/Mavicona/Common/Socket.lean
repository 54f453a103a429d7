import Mavicona.Common.Bytes

/-!
# Stream sockets

A socket is described by what happens on the other side of it: the events that `recv` will meet, how
much each `send` will take, and whether each change of its mode will succeed. What was sent so far is
kept.

A socket in blocking mode waits until there is something to receive. If nothing is left to happen, it
waits forever.
-/

/-- What the next `recv` may meet: bytes, nothing yet, the end of the stream, or an error. -/
inductive Event
  | data (bs : Bytes)
  | again
  | closed
  | error
deriving DecidableEq

/-- What a call of `recv` comes to. -/
inductive Recv
  | bytes (bs : Bytes)
  | again
  | closed
  | error
  | stuck
deriving DecidableEq

structure Socket where
  /-- The descriptor is open. -/
  valid : Bool
  blocking : Bool
  incoming : List Event
  /-- What the other side was sent. -/
  sent : Bytes
  /-- How many bytes each `send` takes at most, where 0 is a failure; then everything. -/
  accepts : List ℕ
  /-- Whether each change of the mode succeeds; then all of them. -/
  modes : List Bool
deriving DecidableEq

namespace Socket

/-- A socket on which nothing has happened yet, and everything will succeed. -/
def ready (incoming : List Event) : Socket := ⟨true, false, incoming, [], [], []⟩

/-- `recv` of at most `n` bytes, from the events on. -/
def recvFrom (blocking : Bool) (n : ℕ) : List Event → Recv × List Event
  | [] => (if blocking then .stuck else .again, [])
  | .data bs :: es =>
    if bs = [] then recvFrom blocking n es
    else (.bytes (bs.take n), if bs.length ≤ n then es else .data (bs.drop n) :: es)
  | .again :: es => if blocking then recvFrom blocking n es else (.again, es)
  | .closed :: es => (.closed, .closed :: es)
  | .error :: es => (.error, es)

/-- `recv`. -/
def recv (n : ℕ) (s : Socket) : Recv × Socket :=
  if s.valid then
    let (r, es) := recvFrom s.blocking n s.incoming
    (r, { s with incoming := es })
  else (.error, s)

/-- `send`: how many bytes were taken, or an error. -/
def send (bs : Bytes) (s : Socket) : Option ℕ × Socket :=
  if s.valid then
    match s.accepts with
    | [] => (some bs.length, { s with sent := s.sent ++ bs })
    | 0 :: ks => (none, { s with accepts := ks })
    | k :: ks => (some (min k bs.length), { s with sent := s.sent ++ bs.take k, accepts := ks })
  else (none, s)

/-- `fcntl`, to set or clear `O_NONBLOCK`. -/
def setBlocking (blocking : Bool) (s : Socket) : Bool × Socket :=
  if s.valid then
    match s.modes with
    | [] => (true, { s with blocking })
    | true :: ms => (true, { s with blocking, modes := ms })
    | false :: ms => (false, { s with modes := ms })
  else (false, s)

/-- `close`. -/
def close (s : Socket) : Socket := { s with valid := false }

/-! ## The stream -/

/-- The bytes that arrive before the stream ends or fails. -/
def deliverable : List Event → Bytes
  | .data bs :: es => bs ++ deliverable es
  | .again :: es => deliverable es
  | _ => []

/-- The other side closes the stream in the end. -/
def ends : List Event → Bool
  | .data _ :: es | .again :: es => ends es
  | .closed :: _ => true
  | _ => false

/-- An error is met before the stream ends. -/
def fails : List Event → Bool
  | .data _ :: es | .again :: es => fails es
  | .error :: _ => true
  | _ => false

@[simp] theorem deliverable_nil : deliverable [] = [] := rfl

@[simp] theorem deliverable_data (bs : Bytes) (es : List Event) :
    deliverable (.data bs :: es) = bs ++ deliverable es := rfl

@[simp] theorem deliverable_again (es : List Event) : deliverable (.again :: es) = deliverable es :=
  rfl

section Stream

variable {es : List Event} {n : ℕ}

/-- What is left of the events once something was received. -/
structure Rest (es es' : List Event) : Prop where
  ends_eq : ends es' = ends es
  fails_eq : fails es' = fails es
  length_le : es'.length ≤ es.length

theorem Rest.refl (es : List Event) : Rest es es := ⟨rfl, rfl, le_rfl⟩

theorem Rest.trans {es' es'' : List Event} (h : Rest es es') (h' : Rest es' es'') : Rest es es'' :=
  ⟨h'.ends_eq.trans h.ends_eq, h'.fails_eq.trans h.fails_eq, h'.length_le.trans h.length_le⟩

/-- An event that is neither the end nor an error is passed over. -/
theorem Rest.cons {es' : List Event} {e : Event} (h : Rest es es') (hends : ends (e :: es) = ends es)
    (hfails : fails (e :: es) = fails es) : Rest (e :: es) es' :=
  ⟨h.ends_eq.trans hends.symm, h.fails_eq.trans hfails.symm, h.length_le.trans (Nat.le_succ _)⟩

/-- A piece of the stream, of at most `n` bytes, was received. -/
structure Got (n : ℕ) (es : List Event) (bs : Bytes) (es' : List Event) : Prop where
  ne_nil : bs ≠ []
  length_le : bs.length ≤ n
  stream : deliverable es = bs ++ deliverable es'
  rest : Rest es es'

/-- The first bytes of the stream. -/
theorem got_data {bs : Bytes} (hbs : bs ≠ []) (hn : 0 < n) (es : List Event) :
    Got n (.data bs :: es) (bs.take n)
      (if bs.length ≤ n then es else .data (bs.drop n) :: es) := by
  have hpos : 0 < bs.length := List.length_pos_iff.mpr hbs
  refine ⟨?_, List.length_take_le _ _, ?_, ?_⟩
  · rw [← List.length_pos_iff, List.length_take]
    omega
  · split_ifs with hle
    · rw [List.take_of_length_le hle, deliverable_data]
    · rw [deliverable_data, deliverable_data, ← List.append_assoc, List.take_append_drop]
  · split_ifs
    · exact (Rest.refl es).cons rfl rfl
    · exact ⟨rfl, rfl, le_rfl⟩

theorem Got.cons {bs : Bytes} {es' : List Event} {e : Event} (h : Got n es bs es')
    (he : deliverable (e :: es) = deliverable es) (hends : ends (e :: es) = ends es)
    (hfails : fails (e :: es) = fails es) : Got n (e :: es) bs es' :=
  ⟨h.ne_nil, h.length_le, he.trans h.stream, h.rest.cons hends hfails⟩

/-- What a call of `recv` meets. -/
inductive Met (blocking : Bool) (n : ℕ) (es : List Event) : Recv × List Event → Prop
  | bytes {bs : Bytes} {es' : List Event} : Got n es bs es' → Met blocking n es (.bytes bs, es')
  | again {es' : List Event} : blocking = false → deliverable es' = deliverable es → Rest es es' →
      (es'.length < es.length ∨ es' = []) → Met blocking n es (.again, es')
  | closed {es' : List Event} : deliverable es = [] → deliverable es' = [] → ends es = true →
      Rest es es' → Met blocking n es (.closed, es')
  | error {es' : List Event} : deliverable es = [] → fails es = true → Met blocking n es (.error, es')
  | stuck {es' : List Event} : blocking = true → deliverable es = [] → deliverable es' = [] →
      ends es = false → fails es = false → Rest es es' → Met blocking n es (.stuck, es')

theorem Met.cons {blocking : Bool} {r : Recv × List Event} {e : Event} (h : Met blocking n es r)
    (he : deliverable (e :: es) = deliverable es) (hends : ends (e :: es) = ends es)
    (hfails : fails (e :: es) = fails es) : Met blocking n (e :: es) r := by
  cases h with
  | bytes hgot => exact .bytes (hgot.cons he hends hfails)
  | again hmode hrest hleft hlen =>
    exact .again hmode (hrest.trans he.symm) (hleft.cons hends hfails)
      (hlen.imp_left Nat.lt_succ_of_lt)
  | closed hnone hnone' hend hleft =>
    exact .closed (he.trans hnone) hnone' (hends.trans hend) (hleft.cons hends hfails)
  | error hnone hfail => exact .error (he.trans hnone) (hfails.trans hfail)
  | stuck hmode hnone hnone' hend hfail hleft =>
    exact .stuck hmode (he.trans hnone) hnone' (hends.trans hend) (hfails.trans hfail)
      (hleft.cons hends hfails)

theorem met_recvFrom (blocking : Bool) (hn : 0 < n) (es : List Event) :
    Met blocking n es (recvFrom blocking n es) := by
  induction es with
  | nil =>
    cases blocking with
    | false => exact .again rfl rfl (.refl []) (.inr rfl)
    | true => exact .stuck rfl rfl rfl rfl rfl (.refl [])
  | cons e es ih =>
    cases e with
    | data bs =>
      rw [recvFrom]
      by_cases hbs : bs = []
      · rw [if_pos hbs]
        subst hbs
        exact ih.cons rfl rfl rfl
      · rw [if_neg hbs]
        exact .bytes (got_data hbs hn es)
    | again =>
      cases blocking with
      | false => exact .again rfl rfl ((Rest.refl es).cons rfl rfl) (.inl (Nat.lt_succ_self _))
      | true => exact ih.cons rfl rfl rfl
    | closed => exact .closed rfl rfl rfl (.refl _)
    | error => exact .error rfl rfl

/-- In blocking mode, bytes that arrive are received. -/
theorem recvFrom_blocking (hn : 0 < n) (h : deliverable es ≠ []) :
    ∃ bs es', recvFrom true n es = (.bytes bs, es') ∧ Got n es bs es' := by
  have hmet := met_recvFrom true hn es
  generalize recvFrom true n es = r at hmet ⊢
  cases hmet with
  | bytes hgot => exact ⟨_, _, rfl, hgot⟩
  | again hmode => exact absurd hmode nofun
  | closed hnone => exact absurd hnone h
  | error hnone => exact absurd hnone h
  | stuck _ hnone => exact absurd hnone h

end Stream

/-! ## Receiving -/

/-- Something was received, and nothing else happened. -/
def Moved (s t : Socket) : Prop := t = { s with incoming := t.incoming }

section Receiving

variable {s t u : Socket}

theorem Moved.refl (s : Socket) : s.Moved s := rfl

theorem Moved.trans (hst : s.Moved t) (htu : t.Moved u) : s.Moved u := by
  rw [Moved] at *
  rw [hst] at htu
  exact htu

/-- `recv` of a socket that is open. -/
theorem recv_of_valid (hvalid : s.valid = true) {n : ℕ} {blocking : Bool} {r : Recv}
    {es : List Event} (hblocking : s.blocking = blocking)
    (h : recvFrom blocking n s.incoming = (r, es)) : s.recv n = (r, { s with incoming := es }) := by
  rw [recv, if_pos hvalid, hblocking, h]

theorem moved_recv (n : ℕ) (s : Socket) : s.Moved (s.recv n).2 := by
  rw [recv]
  split_ifs
  · rfl
  · rfl

end Receiving

/-! ## Sending -/

/-- A socket that is open, and takes something whenever it is sent something. -/
structure Open (s : Socket) : Prop where
  valid : s.valid = true
  accepts : ∀ k ∈ s.accepts, 0 < k

/-- The bytes were sent, and nothing else happened. -/
structure Took (s : Socket) (bs : Bytes) (t : Socket) : Prop where
  isOpen : t.Open
  eq : t = { s with sent := s.sent ++ bs, accepts := t.accepts }

section Sending

variable {s t u : Socket} {bs cs : Bytes}

theorem open_ready (incoming : List Event) : (ready incoming).Open := ⟨rfl, by simp [ready]⟩

theorem Took.refl (h : s.Open) : s.Took [] s := ⟨h, by rw [List.append_nil]⟩

theorem Took.trans (hst : s.Took bs t) (htu : t.Took cs u) : s.Took (bs ++ cs) u := by
  refine ⟨htu.isOpen, ?_⟩
  have hu := htu.eq
  rw [hst.eq] at hu
  simpa only [List.append_assoc] using hu

theorem Took.sent_eq (h : s.Took bs t) : t.sent = s.sent ++ bs := by
  rw [h.eq]

theorem Took.frame (h : s.Took bs t) : t = { s with sent := t.sent, accepts := t.accepts } := by
  rw [h.sent_eq]
  exact h.eq

theorem Open.of_moved (h : s.Open) (ht : s.Moved t) : t.Open := by
  rw [ht]
  exact ⟨h.valid, h.accepts⟩

/-- `send` takes some of the bytes. -/
theorem Open.send (h : s.Open) (hbs : bs ≠ []) :
    ∃ k t, s.send bs = (some k, t) ∧ 0 < k ∧ s.Took (bs.take k) t := by
  have hlen : 0 < bs.length := List.length_pos_iff.mpr hbs
  rw [Socket.send, if_pos h.valid]
  match haccepts : s.accepts with
  | [] => exact ⟨_, _, rfl, hlen, ⟨⟨h.valid, by simp⟩, by rw [List.take_length]⟩⟩
  | 0 :: ks => exact absurd (h.accepts 0 (by simp [haccepts])) (lt_irrefl 0)
  | (k + 1) :: ks =>
    refine ⟨_, _, rfl, lt_min k.succ_pos hlen, ⟨h.valid, fun m hm => ?_⟩, ?_⟩
    · exact h.accepts m (by rw [haccepts]; exact List.mem_cons_of_mem _ hm)
    · rw [← List.take_eq_take_min]

/-- A change of the mode sends nothing. -/
theorem sent_setBlocking (s : Socket) (blocking : Bool) : (s.setBlocking blocking).2.sent = s.sent := by
  rw [setBlocking]
  split_ifs
  · split <;> rfl
  · rfl

theorem Open.setBlocking (h : s.Open) (blocking : Bool) : (s.setBlocking blocking).2.Open := by
  rw [Socket.setBlocking, if_pos h.valid]
  split <;> exact ⟨h.valid, h.accepts⟩

end Sending

end Socket
