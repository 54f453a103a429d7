import Mavicona.Mumux.Connection

/-!
# Reading a body

Reference: `mumux/request.c` (`wby_read`, `wby_con_discard_incoming_data`), `mumux/util.c`
(`wby_read_buffered_data`).

A read takes what is buffered behind the header section first, then what is buffered behind the header
of a frame, and the rest from the socket.
-/

namespace Mavicona.Mumux

open Bytes Socket

namespace Connection

/-- Something was read, and nothing else has changed. The connection may have been given up. -/
def Received (c d : Connection) : Prop :=
  d = { c with
    headerBodyLeft := d.headerBodyLeft
    ioDataLeft := d.ioDataLeft
    bodyBytesRead := d.bodyBytesRead
    socket := { c.socket with incoming := d.socket.incoming }
    flags := { c.flags with alive := d.flags.alive } }

section Frame

variable {c d e : Connection}

theorem Received.refl (c : Connection) : c.Received c := rfl

theorem Received.trans (hcd : c.Received d) (hde : d.Received e) : c.Received e := by
  rw [Received] at *
  rw [hcd] at hde
  exact hde

theorem moved_readLoop (fuel len : ℕ) (s : Socket) : s.Moved (readLoop fuel len s).2.2 := by
  induction fuel generalizing len s with
  | zero => cases len <;> rfl
  | succ fuel ih =>
    cases len with
    | zero => rfl
    | succ len =>
      have hrecv := moved_recv (len + 1) s
      rw [readLoop]
      generalize s.recv (len + 1) = r at hrecv ⊢
      obtain ⟨r, t⟩ := r
      cases r with
      | bytes bs => exact hrecv.trans (ih _ t)
      | closed => exact hrecv.trans (ih _ t)
      | again => exact hrecv
      | error => exact hrecv
      | stuck => exact hrecv

theorem received_wbyRead (len : ℕ) (c : Connection) : c.Received (c.wbyRead len).conn := by
  obtain ⟨a, b, hbuffers⟩ : ∃ a b, (c.readBuffers len).2 =
      { c with headerBodyLeft := a, ioDataLeft := b } := ⟨_, _, rfl⟩
  rw [wbyRead]
  generalize c.readBuffers len = buffers at hbuffers ⊢
  obtain ⟨buffered, d⟩ := buffers
  dsimp only at hbuffers ⊢
  subst hbuffers
  have hmoved := moved_readLoop (len - buffered.length) (len - buffered.length) c.socket
  generalize readLoop (len - buffered.length) (len - buffered.length) c.socket = r at hmoved ⊢
  obtain ⟨ok, got, s⟩ := r
  rw [Moved] at hmoved
  dsimp only at hmoved ⊢
  rw [hmoved]
  rcases ok with _ | _ | _
  · rfl
  · rfl
  · rfl

theorem received_discardLoop (fuel count : ℕ) (c : Connection) :
    c.Received (discardLoop fuel count c).conn := by
  induction fuel generalizing count c with
  | zero => cases count <;> exact .refl c
  | succ fuel ih =>
    cases count with
    | zero => exact .refl c
    | succ count =>
      have hread := received_wbyRead (min (count + 1) 1024) c
      rw [discardLoop]
      generalize c.wbyRead (min (count + 1) 1024) = r at hread ⊢
      match r with
      | ⟨none, d⟩ => exact hread
      | ⟨some (false, _), d⟩ => exact hread
      | ⟨some (true, _), d⟩ => exact hread.trans (ih _ d)

end Frame

/-! ## The bytes that are read -/

/-- The `k` bytes of a buffer that are left to be read. -/
def lastBytes (k : ℕ) (bs : Bytes) : Bytes := (bs.drop (intLen bs - k).toNat).take k

/-- No more is left to be read than there is in a buffer, as far as its length is cast to `int`. -/
def Holds (k : ℕ) (bs : Bytes) : Prop := k ≤ max (intLen bs) 0

instance (k : ℕ) (bs : Bytes) : Decidable (Holds k bs) := inferInstanceAs (Decidable (_ ≤ _))

/-- The bytes of the buffers that were not read yet. -/
def buffered (c : Connection) : Bytes :=
  lastBytes c.headerBodyLeft c.headerBuf.data ++ lastBytes c.ioDataLeft c.ioBuf.data

/-- The bytes that were not read yet, and arrive before the stream ends or fails. -/
def unread (c : Connection) : Bytes := c.buffered ++ deliverable c.socket.incoming

/-- No more is left of a buffer than there is in it. -/
structure Inside (c : Connection) : Prop where
  header : Holds c.headerBodyLeft c.headerBuf.data
  io : Holds c.ioDataLeft c.ioBuf.data

section Buffers

variable {c : Connection} {k n : ℕ} {bs : Bytes}

theorem Holds.sub (h : Holds k bs) (n : ℕ) : Holds (k - n) bs := by
  rw [Holds] at h ⊢
  omega

theorem holds_zero (bs : Bytes) : Holds 0 bs := Int.le_max_right _ _

theorem holds_leftBehind (size : ℕ) (bs : Bytes) : Holds (leftBehind size bs) bs := by
  rw [Holds, leftBehind]
  omega

theorem intLen_le (bs : Bytes) : intLen bs ≤ bs.length := toInt_le bs.length

theorem leftBehind_of_lt (hbs : bs.length < 2 ^ 31) (size : ℕ) :
    leftBehind size bs = bs.length - size := by
  rw [leftBehind, intLen_of_lt hbs]
  omega

theorem lastBytes_of_lt (hbs : bs.length < 2 ^ 31) (h : k ≤ bs.length) :
    lastBytes k bs = bs.drop (bs.length - k) := by
  have hoffset : (intLen bs - k).toNat = bs.length - k := by
    rw [intLen_of_lt hbs]
    omega
  rw [lastBytes, hoffset, List.take_of_length_le]
  rw [List.length_drop]
  omega

theorem lastBytes_zero (bs : Bytes) : lastBytes 0 bs = [] := List.take_zero

theorem length_lastBytes (h : Holds k bs) : (lastBytes k bs).length = k := by
  have hle := intLen_le bs
  rw [Holds] at h
  rw [lastBytes, List.length_take, List.length_drop]
  omega

theorem lastBytes_sub (h : Holds k bs) (n : ℕ) :
    lastBytes (k - min n k) bs = (lastBytes k bs).drop n := by
  by_cases hn : n ≤ k
  · rw [Nat.min_eq_left hn, lastBytes, lastBytes, List.drop_take, List.drop_drop]
    rw [Holds] at h
    rcases Nat.eq_zero_or_pos (k - n) with hzero | hpos
    · rw [hzero, List.take_zero, List.take_zero]
    · congr 2
      omega
  · rw [List.drop_of_length_le (by rw [length_lastBytes h]; omega), Nat.min_eq_right (by omega),
      Nat.sub_self, lastBytes_zero]

theorem readBuffered_eq (k : ℕ) (buf : Buffer) (len : ℕ) :
    readBuffered k buf len = (lastBytes k buf.data).take len := by
  rw [readBuffered, lastBytes, List.take_take]

/-- What is buffered is read from the start. -/
theorem readBuffers_spec (hc : c.Inside) (len : ℕ) :
    (c.readBuffers len).1 = c.buffered.take len ∧
      (c.readBuffers len).2.buffered = c.buffered.drop len ∧ (c.readBuffers len).2.Inside := by
  have hheader := length_lastBytes hc.header
  have hio := length_lastBytes hc.io
  have htake := readBuffered_eq c.headerBodyLeft c.headerBuf len
  have hlen : (readBuffered c.headerBodyLeft c.headerBuf len).length = min len c.headerBodyLeft := by
    rw [htake, List.length_take, hheader]
  have hrest : len - min len c.headerBodyLeft = len - c.headerBodyLeft := by omega
  have htake' := readBuffered_eq c.ioDataLeft c.ioBuf (len - c.headerBodyLeft)
  rw [readBuffers, buffered, buffered]
  dsimp only
  rw [hlen, hrest, htake, htake', List.length_take, hio, lastBytes_sub hc.header, lastBytes_sub hc.io,
    List.take_append, List.drop_append, hheader]
  exact ⟨rfl, rfl, hc.header.sub _, hc.io.sub _⟩

end Buffers

section Loop

variable {s : Socket} {len fuel : ℕ}

/-- The rest is received, if it arrives. -/
theorem readLoop_of_le (hvalid : s.valid = true) (hblocking : s.blocking = true)
    (hfuel : len ≤ fuel) (hlen : len ≤ (deliverable s.incoming).length) :
    ∃ es, readLoop fuel len s =
        (some true, (deliverable s.incoming).take len, { s with incoming := es }) ∧
      deliverable es = (deliverable s.incoming).drop len ∧ Rest s.incoming es := by
  induction fuel generalizing len s with
  | zero =>
    obtain rfl := Nat.le_zero.mp hfuel
    exact ⟨s.incoming, rfl, rfl, .refl _⟩
  | succ fuel ih =>
    cases len with
    | zero => exact ⟨s.incoming, rfl, rfl, .refl _⟩
    | succ len =>
      have hne : deliverable s.incoming ≠ [] := List.ne_nil_of_length_pos (by omega)
      obtain ⟨bs, es, hrecv, hgot⟩ := recvFrom_blocking (Nat.succ_pos len) hne
      have hpos : 0 < bs.length := List.length_pos_iff.mpr hgot.ne_nil
      have hle := hgot.length_le
      have hstream := hgot.stream
      obtain ⟨es', hloop, hrest, hleft⟩ := @ih { s with incoming := es } (len + 1 - bs.length) hvalid
        hblocking (by omega) (by
          have := congrArg List.length hstream
          rw [List.length_append] at this
          dsimp only
          omega)
      refine ⟨es', ?_, ?_, hgot.rest.trans hleft⟩
      · rw [readLoop, recv_of_valid hvalid hblocking hrecv]
        dsimp only at hloop ⊢
        rw [hloop]
        dsimp only
        rw [hstream, List.take_append, List.take_of_length_le hle]
      · rw [hrest, hstream, List.drop_append, List.drop_of_length_le hle, List.nil_append]

/-- The loop goes on forever if the rest never arrives, and there is no error. -/
theorem readLoop_stuck (hvalid : s.valid = true) (hblocking : s.blocking = true)
    (hfails : fails s.incoming = false) (hlen : (deliverable s.incoming).length < len) :
    (readLoop fuel len s).1 = none := by
  induction fuel generalizing len s with
  | zero =>
    obtain ⟨len, rfl⟩ := Nat.exists_eq_succ_of_ne_zero (Nat.ne_zero_of_lt hlen)
    rfl
  | succ fuel ih =>
    obtain ⟨len, rfl⟩ := Nat.exists_eq_succ_of_ne_zero (Nat.ne_zero_of_lt hlen)
    have hmet := met_recvFrom true (Nat.succ_pos len) s.incoming
    rw [readLoop]
    generalize hrecv : recvFrom true (len + 1) s.incoming = r at hmet
    cases hmet with
    | bytes hgot =>
      have hlen' := congrArg List.length hgot.stream
      rw [List.length_append] at hlen'
      rw [recv_of_valid hvalid hblocking hrecv]
      exact ih hvalid hblocking (hgot.rest.fails_eq.trans hfails) (by dsimp only; omega)
    | again hmode => exact absurd hmode nofun
    | closed _ hnone _ hleft =>
      rw [recv_of_valid hvalid hblocking hrecv]
      exact ih hvalid hblocking (hleft.fails_eq.trans hfails)
        (by dsimp only; rw [hnone]; exact Nat.succ_pos len)
    | error _ hfail => exact absurd (hfail.symm.trans hfails) nofun
    | stuck => rw [recv_of_valid hvalid hblocking hrecv]

end Loop

/-- The next `n` bytes were read, and nothing else has changed. -/
structure ReadTo (c : Connection) (n : ℕ) (d : Connection) : Prop where
  received : c.Received d
  alive : d.flags.alive = c.flags.alive
  count : d.bodyBytesRead = c.bodyBytesRead + n
  buffered : d.buffered = c.buffered.drop n
  unread : d.unread = c.unread.drop n
  inside : d.Inside
  rest : Rest c.socket.incoming d.socket.incoming

section Read

variable {c d e : Connection} {len m n fuel : ℕ}

theorem ReadTo.refl (hc : c.Inside) : c.ReadTo 0 c := ⟨.refl c, rfl, rfl, rfl, rfl, hc, .refl _⟩

theorem ReadTo.trans (hcd : c.ReadTo m d) (hde : d.ReadTo n e) : c.ReadTo (m + n) e where
  received := hcd.received.trans hde.received
  alive := hde.alive.trans hcd.alive
  count := by rw [hde.count, hcd.count, Nat.add_assoc]
  buffered := by rw [hde.buffered, hcd.buffered, List.drop_drop]
  unread := by rw [hde.unread, hcd.unread, List.drop_drop]
  inside := hde.inside
  rest := hcd.rest.trans hde.rest

theorem ReadTo.valid_eq (h : c.ReadTo n d) : d.socket.valid = c.socket.valid := by
  rw [h.received]

theorem ReadTo.blocking_eq (h : c.ReadTo n d) : d.socket.blocking = c.socket.blocking := by
  rw [h.received]

/-- A read, by what its loop comes to. -/
theorem wbyRead_eq {ok : Option Bool} {got : Bytes} {s : Socket}
    (h : readLoop (len - (c.readBuffers len).1.length) (len - (c.readBuffers len).1.length) c.socket =
      (ok, got, s)) :
    c.wbyRead len =
      c.endRead { (c.readBuffers len).2 with
          socket := s
          bodyBytesRead := c.bodyBytesRead + ((c.readBuffers len).1 ++ got).length }
        ((c.readBuffers len).1 ++ got) ok := by
  have hsocket : (c.readBuffers len).2.socket = c.socket := rfl
  rw [wbyRead]
  generalize c.readBuffers len = buffers at hsocket h ⊢
  obtain ⟨buffered, d⟩ := buffers
  dsimp only at hsocket h ⊢
  rw [hsocket, h]

/-- A read succeeds if there is as much to be read. -/
theorem wbyRead_of_le (hc : c.Inside) (hvalid : c.socket.valid = true)
    (hblocking : c.socket.blocking = true) (hlen : len ≤ c.unread.length) :
    ∃ d, c.wbyRead len = ⟨some (true, c.clear (c.unread.take len)), d⟩ ∧ c.ReadTo len d := by
  obtain ⟨hgot, hleft, hinside⟩ := readBuffers_spec hc len
  have hlength : (c.readBuffers len).1.length = min len c.buffered.length := by
    rw [hgot, List.length_take]
  have hsub : len - (c.readBuffers len).1.length = len - c.buffered.length := by omega
  have htotal := hlen
  rw [Connection.unread, List.length_append] at htotal
  obtain ⟨es, hloop, hrest, hleft'⟩ := readLoop_of_le hvalid hblocking
    (le_refl (len - (c.readBuffers len).1.length)) (by omega)
  have hbytes : (c.readBuffers len).1 ++ (deliverable c.socket.incoming).take
      (len - (c.readBuffers len).1.length) = c.unread.take len := by
    rw [hsub, hgot, Connection.unread, List.take_append]
  have hread := wbyRead_eq hloop
  have hreceived := received_wbyRead len c
  rw [hbytes] at hread
  rw [hread] at hreceived ⊢
  refine ⟨_, rfl, hreceived, rfl, ?_, hleft, ?_, ⟨hinside.header, hinside.io⟩, hleft'⟩
  · rw [List.length_take, Nat.min_eq_left hlen]
  · refine (congrArg₂ (· ++ ·) hleft hrest).trans ?_
    rw [hsub, Connection.unread, List.drop_append]

/-- A read of more than that never returns. -/
theorem wbyRead_stuck (hc : c.Inside) (hvalid : c.socket.valid = true)
    (hblocking : c.socket.blocking = true) (hfails : fails c.socket.incoming = false)
    (hlen : c.unread.length < len) : (c.wbyRead len).value = none := by
  obtain ⟨hgot, -, -⟩ := readBuffers_spec hc len
  have hlength : (c.readBuffers len).1.length = min len c.buffered.length := by
    rw [hgot, List.length_take]
  rw [Connection.unread, List.length_append] at hlen
  have hloop := @readLoop_stuck c.socket (len - (c.readBuffers len).1.length)
    (len - (c.readBuffers len).1.length) hvalid hblocking hfails (by omega)
  generalize hr : readLoop (len - (c.readBuffers len).1.length) (len - (c.readBuffers len).1.length)
    c.socket = r at hloop
  obtain ⟨ok, got, s⟩ := r
  rw [wbyRead_eq hr, show ok = none from hloop]
  rfl

/-- The same of the bytes that are discarded. -/
theorem discardLoop_of_le (hc : c.Inside) (hvalid : c.socket.valid = true)
    (hblocking : c.socket.blocking = true) (hfuel : n ≤ fuel) (hlen : n ≤ c.unread.length) :
    ∃ d, discardLoop fuel n c = ⟨some true, d⟩ ∧ c.ReadTo n d := by
  induction fuel generalizing n c with
  | zero =>
    obtain rfl := Nat.le_zero.mp hfuel
    exact ⟨c, rfl, .refl hc⟩
  | succ fuel ih =>
    cases n with
    | zero => exact ⟨c, rfl, .refl hc⟩
    | succ n =>
      have hsize : min (n + 1) 1024 ≤ n + 1 := Nat.min_le_left _ _
      obtain ⟨d, hread, hd⟩ := wbyRead_of_le hc hvalid hblocking (hsize.trans hlen)
      obtain ⟨e, hloop, he⟩ := @ih d (n + 1 - min (n + 1) 1024) hd.inside (hd.valid_eq.trans hvalid)
        (hd.blocking_eq.trans hblocking) (by omega) (by rw [hd.unread, List.length_drop]; omega)
      refine ⟨e, ?_, ?_⟩
      · rw [discardLoop, hread]
        exact hloop
      · have := hd.trans he
        rwa [Nat.add_sub_cancel' hsize] at this

theorem discardLoop_stuck (hc : c.Inside) (hvalid : c.socket.valid = true)
    (hblocking : c.socket.blocking = true) (hfails : fails c.socket.incoming = false)
    (hlen : c.unread.length < n) : (discardLoop fuel n c).value = none := by
  induction fuel generalizing n c with
  | zero =>
    obtain ⟨n, rfl⟩ := Nat.exists_eq_succ_of_ne_zero (Nat.ne_zero_of_lt hlen)
    rfl
  | succ fuel ih =>
    obtain ⟨n, rfl⟩ := Nat.exists_eq_succ_of_ne_zero (Nat.ne_zero_of_lt hlen)
    rw [discardLoop]
    by_cases hle : min (n + 1) 1024 ≤ c.unread.length
    · obtain ⟨d, hread, hd⟩ := wbyRead_of_le hc hvalid hblocking hle
      rw [hread]
      exact ih hd.inside (hd.valid_eq.trans hvalid) (hd.blocking_eq.trans hblocking)
        (hd.rest.fails_eq.trans hfails) (by rw [hd.unread, List.length_drop]; omega)
    · have hstuck := wbyRead_stuck hc hvalid hblocking hfails (not_le.mp hle)
      generalize c.wbyRead (min (n + 1) 1024) = r at hstuck ⊢
      obtain ⟨value, d⟩ := r
      rw [show value = none from hstuck]

end Read

end Connection

end Mavicona.Mumux
