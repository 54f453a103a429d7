import Mavicona.Mumux.Payload
import Mavicona.Mumux.Respond

/-!
# Reading from a client that went away

Reference: `mumux/request.c` (`wby_read`, `wby_con_discard_incoming_data`), `mumux/util.c`
(`wby_read_buffered_data`), `mumux/response.c` (`wby_response_begin`).

`recv` returns 0 from the time on at which the other side has closed the stream. The loop of `wby_read`
takes that for a piece of length 0, and goes on.
-/

namespace Mavicona.Mumux

open Bytes Socket

namespace Connection

/-! ## Lengths of any size -/

/-- How much `wby_read_buffered_data` reads of the last `left` bytes of a buffer. The length is passed
as an `int`, and `memcpy` does not return from a size that is negative. -/
def bufferedSize (left len : ℕ) : Option ℕ :=
  if left = 0 then some 0
  else if toInt len < 0 then none
  else some (min (toInt len).toNat left)

/-- `wby_read`, for a length that need not fit into an `int`. -/
def wbyReadLong (len : ℕ) (c : Connection) : Outcome (Bool × Bytes) :=
  match bufferedSize c.headerBodyLeft len with
  | none => ⟨none, c⟩
  | some header =>
    match bufferedSize c.ioDataLeft (len - header) with
    | none => ⟨none, c⟩
    | some io =>
      let buffered := (lastBytes c.headerBodyLeft c.headerBuf.data).take header ++
        (lastBytes c.ioDataLeft c.ioBuf.data).take io
      let (ok, got, s) := readLoop (len - header - io) (len - header - io) c.socket
      c.endRead { c with
        headerBodyLeft := c.headerBodyLeft - header
        ioDataLeft := c.ioDataLeft - io
        socket := s
        bodyBytesRead := c.bodyBytesRead + (buffered ++ got).length } (buffered ++ got) ok

section Sizes

variable {c : Connection} {left len n : ℕ}

theorem bufferedSize_of_lt (h : len < 2 ^ 31) (left : ℕ) :
    bufferedSize left len = some (min len left) := by
  rw [bufferedSize, toInt_of_lt h, Int.toNat_natCast, if_neg (Int.not_lt.mpr (Int.natCast_nonneg len))]
  split_ifs with hleft
  · rw [hleft, Nat.min_zero]
  · rfl

/-- A length that fits is read as `wbyRead` does. -/
theorem wbyReadLong_of_lt (hc : c.Inside) (h : len < 2 ^ 31) : c.wbyReadLong len = c.wbyRead len := by
  have hheader : (readBuffered c.headerBodyLeft c.headerBuf len).length = min len c.headerBodyLeft := by
    rw [readBuffered_eq, List.length_take, length_lastBytes hc.header]
  have hio : ∀ k, (readBuffered c.ioDataLeft c.ioBuf k).length = min k c.ioDataLeft := by
    intro k
    rw [readBuffered_eq, List.length_take, length_lastBytes hc.io]
  have hbuffers : c.readBuffers len =
      ((lastBytes c.headerBodyLeft c.headerBuf.data).take (min len c.headerBodyLeft) ++
        (lastBytes c.ioDataLeft c.ioBuf.data).take
          (min (len - min len c.headerBodyLeft) c.ioDataLeft), { c with
        headerBodyLeft := c.headerBodyLeft - min len c.headerBodyLeft
        ioDataLeft := c.ioDataLeft - min (len - min len c.headerBodyLeft) c.ioDataLeft }) := by
    rw [readBuffers, hheader, hio]
    simp only [readBuffered, lastBytes, List.take_take, Nat.min_assoc, Nat.min_self]
  have hlength : ((c.readBuffers len).1).length =
      min len c.headerBodyLeft + min (len - min len c.headerBodyLeft) c.ioDataLeft := by
    rw [readBuffers, hheader, List.length_append, hheader, hio]
  rw [hbuffers] at hlength
  rw [wbyReadLong, bufferedSize_of_lt h]
  dsimp only
  rw [bufferedSize_of_lt (by omega)]
  dsimp only
  rw [wbyRead, hbuffers]
  dsimp only at hlength ⊢
  rw [hlength, Nat.sub_add_eq]

end Sizes

/-! ## Streams that end -/

section Loops

variable {s : Socket} {c : Connection} {len n fuel : ℕ}

end Loops

/-! ## The calls that read -/

section Calls

variable {c : Connection}

end Calls

end Connection

end Mavicona.Mumux
