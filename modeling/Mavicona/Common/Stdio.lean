import Mavicona.Common.ByteFile

/-!
# Buffered output streams

A stream that is written sequentially: the bytes on disk, a buffer of `cap` bytes, and the offset the
buffer goes to. The buffer reaches the disk when it is flushed, when the stream is repositioned, and
when a byte is put while it is full. A process that dies loses the buffer.

`Filling` describes the stream while a byte string is put from the start of the file on: up to `cap`
bytes the disk is untouched, from then on the front of the string is on disk.
-/

/-- An open output stream. -/
structure Stdio where
  disk : ByteFile
  off : ℕ
  buf : Bytes

namespace Stdio

/-- A stream on a file that was just opened. -/
def ofFile (f : ByteFile) : Stdio := ⟨f, 0, []⟩

/-- `fflush`; `fclose` leaves the same on disk. -/
def flush (s : Stdio) : Stdio := ⟨s.disk.write s.off s.buf, s.off + s.buf.length, []⟩

theorem flush_flush (s : Stdio) : s.flush.flush = s.flush := by
  simp [flush]

/-- `rewind`. -/
def rewind (s : Stdio) : Stdio := { s.flush with off := 0 }

/-- `putc`: a full buffer is flushed first. -/
def putc (cap : ℕ) (s : Stdio) (b : UInt8) : Stdio :=
  let s := if s.buf.length < cap then s else s.flush
  { s with buf := s.buf ++ [b] }

theorem flush_rewind (s : Stdio) : s.rewind.flush = ofFile s.flush.disk := by
  simp [rewind, flush, ofFile]

/-- Up to a flush, putting bytes is writing them. -/
theorem flush_foldl_putc (cap : ℕ) (s : Stdio) (v : Bytes) :
    (v.foldl (putc cap) s).flush
      = ⟨s.flush.disk.write s.flush.off v, s.flush.off + v.length, []⟩ := by
  induction v generalizing s with
  | nil => simp [flush]
  | cons b v ih =>
    have hputc : (s.putc cap b).flush = ⟨s.flush.disk.write s.flush.off [b], s.flush.off + 1, []⟩ := by
      rw [putc]
      split_ifs
      · simp [flush, ← ByteFile.write_write_append, Nat.add_assoc]
      · simp [flush]
    rw [List.foldl_cons, ih, hputc]
    simp only [mk.injEq, List.length_cons, and_true]
    refine ⟨?_, by omega⟩
    exact ByteFile.write_write_append s.flush.disk s.flush.off [b] v

/-- The stream `s` after the bytes `w` were put from the start of the file on, where the disk held
`d`. `n` bytes of the front are observed. -/
structure Filling (cap n : ℕ) (d : ByteFile) (w : Bytes) (s : Stdio) : Prop where
  short : w.length ≤ cap → s = ⟨d, 0, w⟩
  long : cap < w.length → s.disk.slice 0 n = w.take n ∧ n ≤ s.off

namespace Filling

variable {cap n : ℕ} {d : ByteFile} {w : Bytes} {s : Stdio}

theorem start (cap n : ℕ) (d : ByteFile) : Filling cap n d [] (ofFile d) where
  short := fun _ => rfl
  long := fun h => absurd h (by simp)

/-- The front of the file is still the old one, or that of the string. -/
theorem front_cases (hs : Filling cap n d w s) :
    s.disk.slice 0 n = d.slice 0 n ∨ cap < w.length ∧ s.disk.slice 0 n = w.take n := by
  by_cases hshort : w.length ≤ cap
  · obtain rfl := hs.short hshort
    exact .inl rfl
  · have hlong : cap < w.length := not_le.mp hshort
    exact .inr ⟨hlong, (hs.long hlong).1⟩

/-- Flushing behind the front does not change it. -/
theorem slice_flush (hoff : n ≤ s.off) : s.flush.disk.slice 0 n = s.disk.slice 0 n :=
  ByteFile.slice_write_of_apart _ (.inl (by omega))

/-- One more byte. -/
theorem putc (hs : Filling cap n d w s) (hn : n ≤ cap) (b : UInt8) :
    Filling cap n d (w ++ [b]) (s.putc cap b) := by
  have hlen : (w ++ [b]).length = w.length + 1 := by simp
  refine ⟨fun hshort => ?_, fun hlong => ?_⟩
  · obtain rfl := hs.short (by omega)
    rw [Stdio.putc, if_pos (by simp only; omega)]
  · by_cases hfull : cap < w.length
    · -- The front is on disk already.
      obtain ⟨hfront, hoff⟩ := hs.long hfull
      have htake : (w ++ [b]).take n = w.take n := List.take_append_of_le_length (by omega)
      rw [Stdio.putc, htake, ← hfront]
      split_ifs
      · exact ⟨rfl, hoff⟩
      · exact ⟨slice_flush hoff, Nat.le_add_right_of_le hoff⟩
    · -- The buffer has just become full, and this byte flushes it.
      have hcap : w.length = cap := by omega
      obtain rfl := hs.short (by omega)
      rw [Stdio.putc, if_neg (by simp only; omega)]
      refine ⟨?_, by simp only [flush]; omega⟩
      have hwrite : (d.write 0 w).slice 0 w.length = w := ByteFile.slice_write_self d 0 w rfl
      have hcut : Bytes.field ((d.write 0 w).slice 0 w.length) 0 n = (d.write 0 w).slice (0 + 0) n :=
        ByteFile.slice_slice _ (by omega)
      rw [hwrite] at hcut
      rw [List.take_append_of_le_length (by omega)]
      exact hcut.symm

/-- A whole string. -/
theorem foldl_putc (hn : n ≤ cap) (hs : Filling cap n d w s) (v : Bytes) :
    Filling cap n d (w ++ v) (v.foldl (Stdio.putc cap) s) := by
  induction v generalizing w s with
  | nil => simpa using hs
  | cons b v ih => simpa using ih (hs.putc hn b)

end Filling

end Stdio
