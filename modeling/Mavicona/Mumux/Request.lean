import Mavicona.Common.Numeral

/-!
# Requests

Reference: `mumux/util.c` (`wb_peek_request_size`, `wby_skipws`, `wby_tok_inplace`), `mumux/url.c`
(`wby_url_decode`), `mumux/connection.c` (`wby_connection_setup_request`), `mumux/request.c`
(`wby_find_header`, `wby_con_is_websocket_request`).

A request is parsed once its header section is complete: it ends at the first empty line. The lines,
the request line and the header fields are all cut by the same tokenizer, which overwrites the
separators in the buffer with NUL; a token is a C string that ends there.
-/

namespace Mavicona.Mumux

open Bytes Numeral

/-! ## C strings -/

/-- `strcasecmp` finds no difference. -/
def caseEq (s t : Bytes) : Bool := s.map lower = t.map lower

theorem length_eq_of_caseEq {s t : Bytes} (h : caseEq s t = true) : s.length = t.length := by
  have hmap := congrArg List.length (of_decide_eq_true h)
  rwa [List.length_map, List.length_map] at hmap

/-- `strstr`: what stands before and behind the first occurrence of a separator. -/
def strstr (sep : Bytes) : Bytes → Option (Bytes × Bytes)
  | [] => if sep = [] then some ([], []) else none
  | b :: s =>
    if sep.isPrefixOf (b :: s) then some ([], (b :: s).drop sep.length)
    else (strstr sep s).map fun (before, after) => (b :: before, after)

/-- `wby_skipws`. -/
def wbySkipws (s : Bytes) : Bytes := s.dropWhile fun b => b = 32 || b = 9

/-- The loop of `wby_tok_inplace`, for at most `max` tokens. Every round of it takes a byte of the
string at least, so that its length is enough for the number of rounds. -/
def tokLoop (sep : Bytes) (skipws : Bool) : ℕ → ℕ → Bytes → List Bytes
  | 0, _, _ => []
  | _, 0, _ => []
  | fuel + 1, max + 1, b =>
    let b := if skipws then wbySkipws b else b
    match strstr sep b with
    | some ([], rest) => tokLoop sep skipws fuel (max + 1) rest
    | some (token, rest) => token :: tokLoop sep skipws fuel max rest
    | none => [b]

/-- `wby_tok_inplace`. -/
def wbyTokInplace (sep : Bytes) (max : ℕ) (skipws : Bool) (s : Bytes) : List Bytes :=
  tokLoop sep skipws (s.length + 1) max s

/-- `isxdigit`. -/
def isXDigit (b : UInt8) : Bool := digitVal b < 16

/-- The loop of `wby_url_decode`, with room for `room` bytes. -/
def wbyUrlDecode (form : Bool) : ℕ → Bytes → Bytes
  | 0, _ => []
  | _, [] => []
  | room + 1, [b] => (if form ∧ b = 43 then 32 else b) :: wbyUrlDecode form room []
  | room + 1, [b, c] => (if form ∧ b = 43 then 32 else b) :: wbyUrlDecode form room [c]
  | room + 1, b :: c :: d :: s =>
    if b = 37 ∧ isXDigit c ∧ isXDigit d then
      UInt8.ofNat (digitVal c * 16 + digitVal d) :: wbyUrlDecode form room s
    else (if form ∧ b = 43 then 32 else b) :: wbyUrlDecode form room (c :: d :: s)

/-! ## The header section -/

structure Header where
  name : Bytes
  value : Bytes
deriving DecidableEq

/-- `wby_request`. -/
structure Request where
  method : Bytes
  uri : Bytes
  httpVersion : Bytes
  queryParams : Option Bytes
  contentLength : ℤ
  headers : List Header
deriving DecidableEq

/-- `WBY_MAX_HEADERS`. -/
def maxHeaders : ℕ := 64

/-- The end of a line. -/
def crlf : Bytes := [13, 10]

/-- `wb_peek_request_size`, which is `none` for -1. -/
def wbPeekRequestSize : Bytes → Option ℕ
  | [] => none
  | b :: s =>
    if (crlf ++ crlf).isPrefixOf (b :: s) then some 4 else (wbPeekRequestSize s).map (· + 1)

/-- A value of type `int`. -/
def toInt (n : ℕ) : ℤ := (BitVec.ofNat 32 n).toInt

theorem toInt_of_lt {n : ℕ} (h : n < 2 ^ 31) : toInt n = n := by
  rw [toInt, BitVec.toInt_eq_toNat_of_lt]
  · rw [BitVec.toNat_ofNat, Nat.mod_eq_of_lt (by omega)]
  · rw [BitVec.toNat_ofNat, Nat.mod_eq_of_lt (by omega)]
    omega

theorem toInt_lt (n : ℕ) : toInt n < 2 ^ 31 := BitVec.toInt_lt

theorem toInt_le (n : ℕ) : toInt n ≤ n := by
  have hnat : (BitVec.ofNat 32 n).toNat ≤ n := by
    rw [BitVec.toNat_ofNat]
    exact Nat.mod_le _ _
  rw [toInt, BitVec.toInt_eq_toNat_cond]
  split_ifs <;> omega

/-- `(int) strtoul(s, NULL, 10)`. -/
def strtoulInt (s : Bytes) : ℤ := toInt (((number 10 s.length s).map Prod.fst).getD 0)

/-- The loop over the header lines: the headers and the content length, or a failure. -/
def parseHeaders : List Bytes → ℤ → Option (List Header × ℤ)
  | [], contentLength => some ([], contentLength)
  | line :: lines, contentLength =>
    match wbyTokInplace [58] 2 true line with
    | [name, value] =>
      if caseEq (ascii "content-length") name then
        (parseHeaders lines (strtoulInt value)).map fun (hs, n) => (⟨name, value⟩ :: hs, n)
      else if caseEq (ascii "transfer-encoding") name then none
      else (parseHeaders lines contentLength).map fun (hs, n) => (⟨name, value⟩ :: hs, n)
    | _ => none

/-- `wby_connection_setup_request` of a header section. What it leaves behind when it fails is not
kept: the connection is given up then. -/
def setupRequest (section_ : Bytes) : Option Request :=
  -- the empty line at the end is cut off, together with what stands behind a NUL
  let buf := cstr (section_.take (section_.length - 2))
  let lines := wbyTokInplace crlf (maxHeaders + 2) false buf
  match lines with
  | [] => none
  | line :: rest =>
    match wbyTokInplace [32] 16 false line with
    | [method, target, httpVersion] =>
      let (uri, queryParams) := match strstr [63] target with
        | some (uri, query) => (uri, some query)
        | none => (target, none)
      (parseHeaders (rest.take (lines.length - 2)) 0).map fun (headers, contentLength) =>
        { method, uri := cstr (wbyUrlDecode true uri.length uri), httpVersion, queryParams
          contentLength, headers }
    | _ => none

/-- `wby_find_header`. -/
def wbyFindHeader (r : Request) (name : Bytes) : Option Bytes :=
  (r.headers.find? fun h => caseEq h.name name).map Header.value

/-- `wby_con_is_websocket_request`. -/
def wbyConIsWebsocketRequest (r : Request) : Bool :=
  match wbyFindHeader r (ascii "Connection"), wbyFindHeader r (ascii "Upgrade") with
  | some connection, some upgrade =>
    caseEq connection (ascii "Upgrade") && caseEq upgrade (ascii "websocket")
  | _, _ => false

/-! ## Where a header section ends -/

section Peek

variable {s t : Bytes} {n : ℕ}

theorem wbPeekRequestSize_le (h : wbPeekRequestSize s = some n) : 4 ≤ n ∧ n ≤ s.length := by
  induction s generalizing n with
  | nil => simp [wbPeekRequestSize] at h
  | cons b s ih =>
    rw [wbPeekRequestSize] at h
    split_ifs at h with hpre
    · obtain rfl := Option.some.inj h
      exact ⟨le_rfl, (List.isPrefixOf_iff_prefix.mp hpre).length_le⟩
    · obtain ⟨m, hm, rfl⟩ := Option.map_eq_some_iff.mp h
      have := ih hm
      rw [List.length_cons]
      omega

/-- More bytes behind a header section do not move its end. -/
theorem wbPeekRequestSize_append (h : wbPeekRequestSize s = some n) (t : Bytes) :
    wbPeekRequestSize (s ++ t) = some n := by
  induction s generalizing n with
  | nil => simp [wbPeekRequestSize] at h
  | cons b s ih =>
    rw [wbPeekRequestSize] at h
    rw [List.cons_append, wbPeekRequestSize]
    split_ifs at h with hpre
    · rw [if_pos]
      · exact h
      · exact List.isPrefixOf_iff_prefix.mpr
          ((List.isPrefixOf_iff_prefix.mp hpre).trans (List.prefix_append (b :: s) t))
    · obtain ⟨m, hm, rfl⟩ := Option.map_eq_some_iff.mp h
      rw [if_neg, ih hm]
      · rfl
      · intro hlong
        have hlen := (wbPeekRequestSize_le hm).1.trans (wbPeekRequestSize_le hm).2
        exact hpre (List.isPrefixOf_iff_prefix.mpr (List.prefix_of_prefix_length_le
          (List.isPrefixOf_iff_prefix.mp hlong) (List.prefix_append (b :: s) t) (by simp [crlf]; omega)))

end Peek

end Mavicona.Mumux
