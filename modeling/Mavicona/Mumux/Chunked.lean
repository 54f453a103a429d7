import Mavicona.Mumux.Respond

/-!
# Chunked responses

Reference: `mumux/request.c` (`wby_write`), `mumux/response.c` (`wby_response_begin`,
`wby_response_end`), `mumux/connection.c` (`wby_connection_push`).

A response of unknown length is sent in chunks, one for every `wby_write`: the size in hexadecimal
digits, the bytes, and a line end behind both. A chunk of size zero ends the response, and a write of
nothing is such a chunk.
-/

namespace Mavicona.Mumux

open Bytes Numeral

/-! ## The body of a chunked response -/

section Decoding

variable {bs rest : Bytes} {writes : List Bytes} {n : ℕ}

end Decoding

/-! ## Writing a chunked response -/

namespace Connection

theorem Writable.of_received {c d : Connection} (hc : c.Writable) (h : c.Received d) :
    d.Writable := by
  rw [h]
  exact ⟨hc.serve, hc.http, hc.isOpen.of_moved rfl, hc.fits⟩

section Writing

variable {env : Env} {c d e f : Connection} {status : ℤ} {headers : List Header} {writes : List Bytes}

end Writing

end Connection

/-- A connection that is served, with a buffer of a given size. -/
def served (ioBufferSize : ℕ) : Connection :=
  { Connection.blank (.ready []) with state := .serve, ioBuf := ⟨[], ioBufferSize⟩ }

end Mavicona.Mumux
