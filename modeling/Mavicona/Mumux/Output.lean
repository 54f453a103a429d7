import Mavicona.Mumux.Connection

/-!
# The I/O buffer of a response

Reference: `mumux/connection.c` (`wby_connection_push`), `mumux/request.c` (`wby_write`),
`mumux/response.c`.

A response is copied to the I/O buffer, which is flushed when it is full; what does not fit into an
empty buffer is sent at once. What was sent so far, followed by what is in the buffer, is what was
written.
-/

namespace Mavicona.Mumux

open Bytes Numeral Socket

namespace Connection

/-- A response can be written: the socket is open, and the buffer holds what it can. -/
structure Writable (c : Connection) : Prop where
  serve : c.state = .serve
  http : c.flags.websocket = false
  isOpen : c.socket.Open
  fits : c.ioBuf.data.length ≤ c.ioBuf.max

/-- Bytes were written: they were sent or are in the buffer, behind those from before, and nothing
else has changed. -/
structure Pushed (c : Connection) (bs : Bytes) (d : Connection) : Prop where
  isOpen : d.socket.Open
  fits : d.ioBuf.data.length ≤ d.ioBuf.max
  stream : d.socket.sent ++ d.ioBuf.data = c.socket.sent ++ c.ioBuf.data ++ bs
  eq : d = { c with
    socket := { c.socket with sent := d.socket.sent, accepts := d.socket.accepts }
    ioBuf := { c.ioBuf with data := d.ioBuf.data } }

section Pushing

variable {c d e : Connection} {bs cs : Bytes}

theorem Pushed.refl (h : c.Writable) : c.Pushed [] c := ⟨h.isOpen, h.fits, by simp, rfl⟩

theorem Pushed.trans (hcd : c.Pushed bs d) (hde : d.Pushed cs e) : c.Pushed (bs ++ cs) e := by
  refine ⟨hde.isOpen, hde.fits, ?_, ?_⟩
  · rw [hde.stream, hcd.stream, List.append_assoc _ bs cs]
  · have he := hde.eq
    rw [hcd.eq] at he
    exact he

theorem Pushed.writable (h : c.Pushed bs d) (hc : c.Writable) : d.Writable := by
  refine ⟨?_, ?_, h.isOpen, h.fits⟩
  · rw [h.eq]
    exact hc.serve
  · rw [h.eq]
    exact hc.http

theorem Pushed.flags_eq (h : c.Pushed bs d) : d.flags = c.flags := by
  rw [h.eq]

/-- As much as there is space for is copied to the buffer. -/
theorem pushed_copy (hc : c.Writable) (bs : Bytes) :
    c.Pushed (bs.take (c.ioBuf.max - c.ioBuf.data.length)) { c with ioBuf := { c.ioBuf with
      data := c.ioBuf.data ++ bs.take (c.ioBuf.max - c.ioBuf.data.length) } } := by
  have hfits := hc.fits
  refine ⟨hc.isOpen, ?_, (List.append_assoc _ _ _).symm, rfl⟩
  rw [List.length_append, List.length_take]
  dsimp only
  omega

/-- The buffer is flushed. -/
theorem exists_flush (hc : c.Writable) :
    ∃ t, wbySocketFlush c.socket c.ioBuf = (true, t, { c.ioBuf with data := [] }) ∧
      c.Pushed [] { c with socket := t, ioBuf := { c.ioBuf with data := [] } } := by
  obtain ⟨t, hsend, ht⟩ := wbySocketSend_of_open hc.isOpen c.ioBuf.data
  refine ⟨t, by rw [wbySocketFlush, hsend], ht.isOpen, Nat.zero_le _, ?_, ?_⟩
  · rw [List.append_nil, List.append_nil]
    exact ht.sent_eq
  · congr 1
    exact ht.frame

/-- What is left is sent past an empty buffer. -/
theorem exists_send (hc : c.Writable) (hempty : c.ioBuf.data = []) (bs : Bytes) :
    ∃ t, wbySocketSend bs c.socket = (true, t) ∧ c.Pushed bs { c with socket := t } := by
  obtain ⟨t, hsend, ht⟩ := wbySocketSend_of_open hc.isOpen bs
  refine ⟨t, hsend, ht.isOpen, hc.fits, ?_, ?_⟩
  · rw [hempty, List.append_nil, List.append_nil]
    exact ht.sent_eq
  · congr 1
    exact ht.frame

/-- The loop of `wby_connection_push` goes round once for every byte at most, and once more if the
buffer is full at the start. -/
theorem pushLoop_spec (hc : c.Writable) {fuel : ℕ}
    (hfuel : bs.length + (if c.ioBuf.data.length = c.ioBuf.max then 1 else 0) ≤ fuel) :
    ∃ d, pushLoop fuel bs c = (true, d) ∧ c.Pushed bs d := by
  induction fuel generalizing c bs with
  | zero =>
    obtain rfl : bs = [] := List.eq_nil_of_length_eq_zero (by omega)
    exact ⟨c, by rw [pushLoop], .refl hc⟩
  | succ fuel ih =>
    by_cases hbs : bs = []
    · subst hbs
      exact ⟨c, by rw [pushLoop], .refl hc⟩
    · have hlen : 0 < bs.length := List.length_pos_iff.mpr hbs
      have hcopy := pushed_copy hc bs
      rw [pushLoop.eq_3 _ _ _ hbs]
      dsimp only
      have hsplit := List.take_append_drop (c.ioBuf.max - c.ioBuf.data.length) bs
      split_ifs with hfull
      · obtain ⟨t, hflush, hpushed⟩ := exists_flush (hcopy.writable hc)
        rw [hflush]
        dsimp only
        have hall := hcopy.trans hpushed
        split_ifs with hlong
        · obtain ⟨u, hsend, hrest⟩ := exists_send (hall.writable hc) rfl
            (bs.drop (c.ioBuf.max - c.ioBuf.data.length))
          rw [hsend]
          refine ⟨_, rfl, ?_⟩
          have := hall.trans hrest
          rwa [List.append_nil, hsplit] at this
        · obtain ⟨d, hloop, hrest⟩ := @ih _ (bs.drop (c.ioBuf.max - c.ioBuf.data.length))
            (hall.writable hc) (by
              have := hc.fits
              simp only [List.length_drop, List.length_nil] at hlong ⊢
              split_ifs at hfuel ⊢ <;> omega)
          refine ⟨d, hloop, ?_⟩
          have := hall.trans hrest
          rwa [List.append_nil, hsplit] at this
      · obtain ⟨d, hloop, hrest⟩ := @ih _ (bs.drop (c.ioBuf.max - c.ioBuf.data.length))
          (hcopy.writable hc) (by
            rw [if_neg hfull, List.length_drop]
            rw [List.length_append, List.length_take] at hfull
            have := hc.fits
            omega)
        refine ⟨d, hloop, ?_⟩
        have := hcopy.trans hrest
        rwa [hsplit] at this

/-- `wby_connection_push` writes the bytes. -/
theorem push_spec (hc : c.Writable) (bs : Bytes) :
    ∃ d, c.push bs = (true, d) ∧ c.Pushed bs d ∧ (bs = [] → d.ioBuf.data = []) := by
  rw [push, if_neg (by simp [hc.serve])]
  split_ifs with hbs
  · obtain ⟨t, hflush, hpushed⟩ := exists_flush hc
    rw [hflush]
    exact ⟨_, rfl, hbs ▸ hpushed, fun _ => rfl⟩
  · obtain ⟨d, hloop, hpushed⟩ := @pushLoop_spec c bs hc (bs.length + 1) (by split_ifs <;> omega)
    exact ⟨d, hloop, hpushed, fun h => absurd h hbs⟩

theorem pushInt_spec (hc : c.Writable) (hbs : bs.length < 2 ^ 31) :
    ∃ d, c.pushInt bs = (true, d) ∧ c.Pushed bs d := by
  obtain ⟨d, hpush, hpushed, -⟩ := push_spec hc bs
  refine ⟨d, ?_, hpushed⟩
  rw [pushInt, intLen_of_lt hbs, if_neg (by omega), Int.toNat_natCast, List.take_length, hpush]

end Pushing

/-! ## Calls that leave a connection writable -/

section Writable

variable {c : Connection}

theorem Writable.push (hc : c.Writable) (bs : Bytes) : (c.push bs).2.Writable := by
  obtain ⟨d, hpush, hpushed, -⟩ := push_spec hc bs
  rw [hpush]
  exact hpushed.writable hc

theorem Writable.pushInt (hc : c.Writable) (bs : Bytes) : (c.pushInt bs).2.Writable := by
  rw [Connection.pushInt]
  split_ifs
  · exact hc
  · exact hc.push _

theorem Writable.wbyWrite (hc : c.Writable) (bs : Bytes) : (c.wbyWrite bs).2.Writable := by
  rw [Connection.wbyWrite, if_neg (by simp [hc.http])]
  split_ifs
  · exact ((hc.push _).pushInt bs).push crlf
  · exact hc.pushInt bs

theorem Writable.wbyPrintf (hc : c.Writable) (env : Env) (text : Bytes) :
    (c.wbyPrintf env text).Writable := hc.wbyWrite _

/-- Flags that do not make it a WebSocket connection. -/
theorem Writable.flags (hc : c.Writable) {flags : Flags} (h : flags.websocket = false) :
    { c with flags }.Writable := ⟨hc.serve, h, hc.isOpen, hc.fits⟩

theorem Writable.markClose (hc : c.Writable) (close : Bool) : (c.markClose close).Writable :=
  ⟨hc.serve, hc.http, hc.isOpen, hc.fits⟩

theorem Writable.responseHeaders (hc : c.Writable) (env : Env) (headers : List Header) :
    (responseHeaders env headers c).Writable := by
  induction headers generalizing c with
  | nil => exact hc
  | cons h hs ih => exact ih ((hc.markClose h.closes).wbyPrintf env _)

theorem Writable.responseClose (hc : c.Writable) (env : Env) : (c.responseClose env).Writable := by
  rw [Connection.responseClose]
  split_ifs
  · exact (hc.markClose true).wbyPrintf env _
  · exact hc

theorem Writable.markChunked (hc : c.Writable) (contentLength : ℤ) :
    (c.markChunked contentLength).Writable := by
  rw [Connection.markChunked]
  split_ifs
  · exact hc.flags (by exact hc.http)
  · exact hc

theorem Writable.responseHead (hc : c.Writable) (env : Env) (status contentLength : ℤ)
    (headers : List Header) : (c.responseHead env status contentLength headers).Writable := by
  rw [Connection.responseHead]
  refine Writable.markChunked (Writable.wbyPrintf (Writable.responseClose ?_ env) env _) _
  exact (((hc.wbyPrintf env _).wbyPrintf env _).wbyPrintf env _).responseHeaders env headers

end Writable

end Connection

end Mavicona.Mumux
