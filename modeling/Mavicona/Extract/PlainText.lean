import Mathlib.Data.List.Infix
import Mavicona.Cynder.Message
import Mavicona.Extract.Url

/-!
# Plain text

Reference: `extract/plaintext_handler.cpp` (`isNumber`, `PlainTextHandler::handle`),
`extract/parse_observer.h` (`addMeta`).

The handler looks at a payload whose type is plain text: it may be a hash, a point in time, or a URL.
`std::stoi` throws when there are no digits or when the number does not fit into an `int`, and nothing
catches that.
-/

namespace Mavicona.Extract

open Bytes Numeral
open Mavicona.Cynder (MetaEntry)

/-- `isdigit`. -/
def isDigit (b : UInt8) : Bool := digitVal b < 10

/-- The characters of a hash. -/
def isHexDigit (b : UInt8) : Bool := digitVal b < 16

/-- `isNumber`. -/
def isNumber (s : Bytes) : Bool := s.all isDigit

/-- What `std::stoi` throws. -/
inductive StoiFault
  | invalidArgument
  | outOfRange
deriving DecidableEq, Repr

/-- `std::stoi` of digits. -/
def stoi (s : Bytes) : Except StoiFault ℤ :=
  if s = [] then .error .invalidArgument
  else if 2 ^ 31 ≤ value 10 s then .error .outOfRange
  else .ok (value 10 s)

/-- `addMeta`. -/
def addMeta (key : String) (text : Bytes) (metas : List MetaEntry) : List MetaEntry :=
  metas ++ [⟨ascii key, some text, []⟩]

/-- What comes of a call: the metadata that was added, and what was thrown. -/
structure Handled where
  metas : List MetaEntry
  thrown : Option StoiFault

/-- The hash that a payload may be. No character before the third one is looked at. -/
def handleHash (payload : Bytes) (metas : List MetaEntry) : List MetaEntry :=
  if payload.length = 32 then
    if (payload.drop 2).all isHexDigit then addMeta "hash" (ascii "md5") metas else metas
  else if payload.length = 40 then
    if (payload.drop 2).all isHexDigit then addMeta "hash" (ascii "sha") metas else metas
  else metas

/-- `payload.find(s) != std::string::npos` for one of the two ends of a protocol. -/
def hasProtocol (payload : Bytes) : Bool :=
  ascii "tp://" <:+: payload ∨ ascii "tps://" <:+: payload

/-- The URL that a payload may be. -/
def handleUrl (payload : Bytes) (metas : List MetaEntry) : List MetaEntry :=
  if hasProtocol payload then
    let url := Url.parse payload
    let metas := if url.protocol ≠ [] then addMeta "protocol" url.protocol metas else metas
    if url.host ≠ [] then addMeta "domain" url.host metas else metas
  else metas

/-- `PlainTextHandler::handle`, with the local time of the machine as a parameter. -/
def handle (timestampToString : ℤ → Bytes) (payload : Bytes) : Handled :=
  let metas := handleHash payload []
  if isNumber payload then
    match stoi payload with
    | .error fault => ⟨metas, some fault⟩
    | .ok iDec =>
      let metas :=
        if 4 < payload.length ∧ payload.length < 11 then
          addMeta "timestamp" (timestampToString iDec) metas
        else metas
      ⟨handleUrl payload metas, none⟩
  else ⟨handleUrl payload metas, none⟩

/-- The values under a key. -/
def valuesOf (key : String) (metas : List MetaEntry) : List Bytes :=
  (metas.filter fun m => m.key = ascii key).map MetaEntry.getValue

/-- What a payload is to be classified as. -/
structure Classified (timestampToString : ℤ → Bytes) (payload : Bytes) : Prop where
  returns : (handle timestampToString payload).thrown = none
  md5 : ascii "md5" ∈ valuesOf "hash" (handle timestampToString payload).metas ↔
    payload.length = 32 ∧ ∀ b ∈ payload, isHexDigit b = true
  sha : ascii "sha" ∈ valuesOf "hash" (handle timestampToString payload).metas ↔
    payload.length = 40 ∧ ∀ b ∈ payload, isHexDigit b = true
  timestamp : valuesOf "timestamp" (handle timestampToString payload).metas =
    if 5 ≤ payload.length ∧ payload.length ≤ 10 ∧ payload.all isDigit = true then
      [timestampToString (value 10 payload)]
    else []

/-! ## The metadata -/

section Values

variable {key other : String} {text payload : Bytes} {metas : List MetaEntry}

theorem valuesOf_addMeta_self (key : String) (text : Bytes) (metas : List MetaEntry) :
    valuesOf key (addMeta key text metas) = valuesOf key metas ++ [text] := by
  rw [valuesOf, addMeta, List.filter_append, List.map_append, valuesOf]
  simp [MetaEntry.getValue]

theorem valuesOf_addMeta_of_ne (text : Bytes) (metas : List MetaEntry) (h : ascii other ≠ ascii key) :
    valuesOf key (addMeta other text metas) = valuesOf key metas := by
  rw [valuesOf, addMeta, List.filter_append, List.map_append, valuesOf]
  simp [h]

/-- A URL is no hash and no point in time. -/
theorem valuesOf_handleUrl (hprotocol : ascii "protocol" ≠ ascii key)
    (hdomain : ascii "domain" ≠ ascii key) :
    valuesOf key (handleUrl payload metas) = valuesOf key metas := by
  rw [handleUrl]
  split_ifs
  · dsimp only
    split_ifs
    · rw [valuesOf_addMeta_of_ne _ _ hdomain, valuesOf_addMeta_of_ne _ _ hprotocol]
    · rw [valuesOf_addMeta_of_ne _ _ hdomain]
    · rw [valuesOf_addMeta_of_ne _ _ hprotocol]
    · rfl
  · rfl

/-- The hash that is found. -/
def hashOf (payload : Bytes) : List Bytes :=
  if (payload.drop 2).all isHexDigit then
    if payload.length = 32 then [ascii "md5"] else if payload.length = 40 then [ascii "sha"] else []
  else []

theorem valuesOf_handleHash : valuesOf "hash" (handleHash payload []) = hashOf payload := by
  rw [handleHash, hashOf]
  split_ifs <;> rfl

theorem valuesOf_handleHash_of_ne (h : ascii "hash" ≠ ascii key) :
    valuesOf key (handleHash payload []) = [] := by
  rw [handleHash]
  split_ifs
  all_goals first | rfl | exact valuesOf_addMeta_of_ne _ _ h

theorem mem_hashOf_iff : (ascii "md5" ∈ hashOf payload ↔
      payload.length = 32 ∧ (payload.drop 2).all isHexDigit = true) ∧
    (ascii "sha" ∈ hashOf payload ↔
      payload.length = 40 ∧ (payload.drop 2).all isHexDigit = true) := by
  have hdiffer : ascii "md5" ≠ ascii "sha" := by decide
  rw [hashOf]
  split_ifs with hhex hmd5 hsha
  · simp [hmd5, hhex, hdiffer.symm]
  · simp [hsha, hhex, hdiffer]
  · simp [hmd5, hsha]
  · simp [hhex]

end Values

/-! ## Classification -/

section Classification

variable {timestampToString : ℤ → Bytes} {payload : Bytes}

/-- A payload that is a number the conversion throws at. -/
def Throws (payload : Bytes) : Prop :=
  isNumber payload = true ∧ (payload = [] ∨ 2 ^ 31 ≤ value 10 payload)

theorem handle_of_throws (h : Throws payload) : ∃ fault,
    handle timestampToString payload = ⟨handleHash payload [], some fault⟩ := by
  obtain ⟨hnumber, hempty | hlarge⟩ := h
  · exact ⟨.invalidArgument, by rw [handle, if_pos hnumber, stoi, if_pos hempty]⟩
  · by_cases hempty : payload = []
    · exact ⟨.invalidArgument, by rw [handle, if_pos hnumber, stoi, if_pos hempty]⟩
    · exact ⟨.outOfRange, by rw [handle, if_pos hnumber, stoi, if_neg hempty, if_pos hlarge]⟩

/-- A payload that is classified without an exception. -/
theorem handle_of_not_throws (h : ¬ Throws payload) :
    handle timestampToString payload =
      ⟨handleUrl payload
        (if isNumber payload = true ∧ 4 < payload.length ∧ payload.length < 11 then
          addMeta "timestamp" (timestampToString (value 10 payload)) (handleHash payload [])
        else handleHash payload []), none⟩ := by
  rw [handle]
  by_cases hnumber : isNumber payload = true
  · have hempty : payload ≠ [] := fun hempty => h ⟨hnumber, .inl hempty⟩
    have hlarge : ¬ 2 ^ 31 ≤ value 10 payload := fun hlarge => h ⟨hnumber, .inr hlarge⟩
    rw [if_pos hnumber, stoi, if_neg hempty, if_neg hlarge]
    simp only [hnumber, true_and]
  · rw [if_neg hnumber, if_neg fun h => hnumber h.1]

/-- A hash is found whatever else comes of the payload. -/
theorem valuesOf_hash_handle :
    valuesOf "hash" (handle timestampToString payload).metas = hashOf payload := by
  by_cases hthrows : Throws payload
  · obtain ⟨fault, hhandle⟩ := @handle_of_throws timestampToString payload hthrows
    rw [hhandle]
    exact valuesOf_handleHash
  · rw [handle_of_not_throws hthrows]
    dsimp only
    rw [valuesOf_handleUrl (by decide) (by decide)]
    split_ifs
    · rw [valuesOf_addMeta_of_ne _ _ (by decide), valuesOf_handleHash]
    · exact valuesOf_handleHash

theorem valuesOf_timestamp_handle (h : ¬ Throws payload) :
    valuesOf "timestamp" (handle timestampToString payload).metas =
      if 5 ≤ payload.length ∧ payload.length ≤ 10 ∧ payload.all isDigit = true then
        [timestampToString (value 10 payload)]
      else [] := by
  have hcond : (isNumber payload = true ∧ 4 < payload.length ∧ payload.length < 11) ↔
      5 ≤ payload.length ∧ payload.length ≤ 10 ∧ payload.all isDigit = true := by
    rw [isNumber]
    constructor
    · rintro ⟨hdigits, hlong, hshort⟩
      exact ⟨hlong, by omega, hdigits⟩
    · rintro ⟨hlong, hshort, hdigits⟩
      exact ⟨hdigits, hlong, by omega⟩
  rw [handle_of_not_throws h]
  dsimp only
  rw [valuesOf_handleUrl (by decide) (by decide)]
  by_cases hstamp : 5 ≤ payload.length ∧ payload.length ≤ 10 ∧ payload.all isDigit = true
  · rw [if_pos (hcond.mpr hstamp), if_pos hstamp, valuesOf_addMeta_self,
      valuesOf_handleHash_of_ne (by decide), List.nil_append]
  · rw [if_neg fun h => hstamp (hcond.mp h), if_neg hstamp, valuesOf_handleHash_of_ne (by decide)]

theorem all_drop_iff {n : ℕ} {p : UInt8 → Bool} :
    ((payload.drop n).all p = true → ∀ b ∈ payload, p b = true) ↔
      ((∀ b ∈ payload.drop n, p b = true) → ∀ b ∈ payload.take n, p b = true) := by
  rw [List.all_eq_true]
  constructor
  · exact fun h hdrop b hb => h hdrop b (List.mem_of_mem_take hb)
  · intro h hdrop b hb
    rw [← List.take_append_drop n payload] at hb
    exact (List.mem_append.mp hb).elim (h hdrop b) (hdrop b)

/-- **When a payload is classified.** A number must have digits and fit into an `int`, however many
digits it is written with, and a text as long as a hash that is one from its third character on must
be one from the first. -/
theorem classified_iff (timestampToString : ℤ → Bytes) (payload : Bytes) :
    Classified timestampToString payload ↔
      ((∀ b ∈ payload, isDigit b = true) → payload ≠ [] ∧ value 10 payload < 2 ^ 31) ∧
      (payload.length = 32 ∨ payload.length = 40 →
        (∀ b ∈ payload.drop 2, isHexDigit b = true) → ∀ b ∈ payload.take 2, isHexDigit b = true) := by
  have hthrows : ¬ Throws payload ↔
      ((∀ b ∈ payload, isDigit b = true) → payload ≠ [] ∧ value 10 payload < 2 ^ 31) := by
    rw [Throws, isNumber, List.all_eq_true, not_and, not_or, not_le]
  have hreturns : (handle timestampToString payload).thrown = none ↔ ¬ Throws payload := by
    by_cases h : Throws payload
    · obtain ⟨fault, hhandle⟩ := @handle_of_throws timestampToString payload h
      rw [hhandle]
      exact iff_of_false nofun (not_not.mpr h)
    · rw [handle_of_not_throws h]
      exact iff_of_true rfl h
  obtain ⟨hmd5, hsha⟩ := @mem_hashOf_iff payload
  rw [← hthrows, ← hreturns, ← all_drop_iff]
  constructor
  · rintro ⟨hnone, hiff, hiff', -⟩
    rw [valuesOf_hash_handle] at hiff hiff'
    refine ⟨hnone, ?_⟩
    rintro (hlen | hlen) hdrop
    · exact (hiff.mp (hmd5.mpr ⟨hlen, hdrop⟩)).2
    · exact (hiff'.mp (hsha.mpr ⟨hlen, hdrop⟩)).2
  · rintro ⟨hnone, hhex⟩
    have hall (hin : ∀ b ∈ payload, isHexDigit b = true) : (payload.drop 2).all isHexDigit = true :=
      List.all_eq_true.mpr fun b hb => hin b (List.mem_of_mem_drop hb)
    refine ⟨hnone, ?_, ?_, valuesOf_timestamp_handle (hreturns.mp hnone)⟩
    · rw [valuesOf_hash_handle, hmd5]
      exact and_congr_right fun hlen => ⟨hhex (.inl hlen), hall⟩
    · rw [valuesOf_hash_handle, hsha]
      exact and_congr_right fun hlen => ⟨hhex (.inr hlen), hall⟩

/-- Ten digits may be too large a number. -/
theorem not_classified_ten_digits : ¬ Classified (fun t => print 10 t.toNat) (ascii "9999999999") := by
  rintro ⟨hreturns, -⟩
  exact absurd hreturns (by decide)

/-- A payload that is not a number throws nothing. -/
theorem not_throws_of_mem {b : UInt8} (hb : b ∈ payload) (hdigit : isDigit b = false) :
    ¬ Throws payload := by
  rintro ⟨hnumber, -⟩
  rw [List.all_eq_true.mp hnumber b hb] at hdigit
  exact absurd hdigit nofun

end Classification

/-! ## Domains -/

section Domains

variable {payload : Bytes} {metas : List MetaEntry}

/-- The metadata of a URL: the domain that is stored, if the payload is taken for a URL, is the
host. -/
def StoresDomain (timestampToString : ℤ → Bytes) (u : UrlParts) : Prop :=
  Url.parse u.text = u.url ∧
    valuesOf "domain" (handle timestampToString u.text).metas =
      if hasProtocol u.text then [u.host.map lower] else []

theorem valuesOf_domain_handleUrl : valuesOf "domain" (handleUrl payload metas) =
    valuesOf "domain" metas ++
      if hasProtocol payload ∧ (Url.parse payload).host ≠ [] then [(Url.parse payload).host]
      else [] := by
  rw [handleUrl]
  by_cases hprotocol : hasProtocol payload = true
  · rw [if_pos hprotocol]
    dsimp only
    have hkeep : valuesOf "domain" (if (Url.parse payload).protocol ≠ [] then
        addMeta "protocol" (Url.parse payload).protocol metas else metas) =
          valuesOf "domain" metas := by
      split_ifs
      · exact valuesOf_addMeta_of_ne _ _ (by decide)
      · rfl
    generalize (if (Url.parse payload).protocol ≠ [] then
      addMeta "protocol" (Url.parse payload).protocol metas else metas) = kept at hkeep ⊢
    by_cases hhost : (Url.parse payload).host ≠ []
    · rw [if_pos hhost, if_pos ⟨hprotocol, hhost⟩, valuesOf_addMeta_self, hkeep]
    · rw [if_neg hhost, if_neg fun h => hhost h.2, List.append_nil, hkeep]
  · rw [if_neg hprotocol, if_neg fun h => hprotocol h.1, List.append_nil]

/-- **A URL is parsed into what it is composed of, and its host is stored as the domain,** exactly if
no query follows the host without a path in between. -/
theorem storesDomain_iff (timestampToString : ℤ → Bytes) (u : UrlParts) :
    StoresDomain timestampToString u ↔ ¬ (u.path = [] ∧ u.query.isSome = true) := by
  rw [← u.parse_text_eq_iff]
  refine ⟨And.left, fun hparse => ⟨hparse, ?_⟩⟩
  have hcolon : 58 ∈ u.text := by simp [UrlParts.text, ascii]
  rw [handle_of_not_throws (not_throws_of_mem hcolon (by decide))]
  dsimp only
  have hhost : (Url.parse u.text).host ≠ [] := by
    rw [hparse]
    exact fun h => u.host_ne_nil (List.map_eq_nil_iff.mp h)
  have hnumber : isNumber u.text ≠ true := fun h =>
    absurd (List.all_eq_true.mp h 58 hcolon) (by decide)
  rw [if_neg fun h => hnumber h.1, valuesOf_domain_handleUrl, valuesOf_handleHash_of_ne (by decide),
    List.nil_append]
  by_cases hprotocol : hasProtocol u.text = true
  · rw [if_pos ⟨hprotocol, hhost⟩, if_pos hprotocol, hparse]
    rfl
  · rw [if_neg fun h => hprotocol h.1, if_neg hprotocol]

/-- `http://example.com?q=1`. -/
def bareQuery : UrlParts where
  protocol := ascii "http"
  host := ascii "example.com"
  path := []
  query := some (ascii "q=1")
  protocol_unmarked := by decide
  host_ne_nil := by decide
  host_unbroken := by decide
  path_rooted := nofun
  path_unbroken := List.not_mem_nil

/-- The query becomes a part of the domain. -/
theorem not_storesDomain_bareQuery :
    (Url.parse bareQuery.text).host = ascii "example.com?q=1" ∧
      ¬ StoresDomain (fun t => print 10 t.toNat) bareQuery := by
  have hhost : (Url.parse bareQuery.text).host = ascii "example.com?q=1" := by decide
  refine ⟨hhost, fun h => ?_⟩
  rw [h.1] at hhost
  exact absurd hhost (by decide)

end Domains

end Mavicona.Extract
