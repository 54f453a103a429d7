import Mathlib.Logic.Function.Basic
import Mathlib.Data.List.Basic
import Mavicona.Common.Bytes

/-!
# Databases and the engine on top of them

Reference: `cynder/engine.cpp`, `cynder/additional_index.h`, `common/util.h`, `quid/quidpp.h`,
`upscaledb.hpp`.

upscaledb is taken as documented: without duplicate keys a database is a map that raises
`UPS_DUPLICATE_KEY` and `UPS_KEY_NOT_FOUND`; with duplicate keys it is a sequence of entries in key
order, the duplicates of a key in insertion order, which a cursor visits one by one. The C++ wrapper
keeps the size of a key in 16 bits.
-/

namespace Mavicona.Cynder

open Bytes

/-- The errors of upscaledb the engine can meet. -/
inductive UpsError
  | keyNotFound
  | duplicateKey
deriving DecidableEq, Repr

/-- `upscaledb::key`: the size argument is a `uint16_t`. -/
def upsKey (key : Bytes) : Bytes := key.take (u16 key.length)

theorem upsKey_of_lt {key : Bytes} (h : key.length < 2 ^ 16) : upsKey key = key := by
  rw [upsKey, u16_of_lt h, List.take_length]

/-! ## Databases without duplicate keys -/

/-- A database without duplicate keys. -/
abbrev Db := Bytes → Option Bytes

namespace Db

/-- `AbstractEngine::put` without the duplicate flag. -/
def put (db : Db) (key value : Bytes) (override : Bool) : Except UpsError Db :=
  if override ∨ db (upsKey key) = none then
    .ok (Function.update db (upsKey key) (some value))
  else .error .duplicateKey

/-- `AbstractEngine::get`. -/
def get (db : Db) (key : Bytes) : Except UpsError Bytes :=
  match db (upsKey key) with
  | none => .error .keyNotFound
  | some value => .ok value

/-- `AbstractEngine::remove`. -/
def remove (db : Db) (key : Bytes) : Except UpsError Db :=
  match db (upsKey key) with
  | none => .error .keyNotFound
  | some _ => .ok (Function.update db (upsKey key) none)

end Db

/-! ## Databases with duplicate keys -/

/-- A database with duplicate keys: its entries in key order. -/
abbrev DupDb := List (Bytes × Bytes)

namespace DupDb

/-- Insert an entry behind all entries whose key is not larger. -/
def insertLast (key value : Bytes) : DupDb → DupDb
  | [] => [(key, value)]
  | e :: db => if key < e.1 then (key, value) :: e :: db else e :: insertLast key value db

/-- `AbstractEngine::put` with the duplicate flag. -/
def put (db : DupDb) (key value : Bytes) : DupDb := insertLast (upsKey key) value db

/-- The loop of `AbstractEngine::getMulti`. The cursor is the rest of the database from its position
on; it moves only when a new quid was found, and fails behind the last entry. -/
def getMultiLoop : ℕ → DupDb → List Bytes → Except UpsError (List Bytes)
  | 0, _, list => .ok list
  | _ + 1, [], list => .ok list
  | n + 1, e :: cursor, list =>
    let quid := e.2.take 36
    if quid ∈ list then getMultiLoop n (e :: cursor) list
    else if cursor = [] then .error .keyNotFound
    else getMultiLoop n cursor (list ++ [quid])

/-- `AbstractEngine::getMulti`: the list with the quids found under `key` appended. -/
def getMulti (db : DupDb) (key : Bytes) (list : List Bytes) : Except UpsError (List Bytes) :=
  let cursor := db.dropWhile (fun e => e.1 ≠ upsKey key)
  if cursor = [] then .ok list
  else getMultiLoop (db.countP fun e => e.1 = upsKey key) cursor list

end DupDb

/-! ## Quids and keywords -/

/-- `Quid::unpackedSize()`. -/
def unpackedSize : ℕ := 36

/-- `Quid::crop`. -/
def crop (cquid : Bytes) : Bytes :=
  if cquid.length = unpackedSize + 2 ∧ cquid.getD 0 0 = 123 ∧ cquid.getD (unpackedSize + 1) 0 = 125
  then (cquid.drop 1).take unpackedSize
  else []

/-- The quid test every index method that normalises starts with: `none` is the early return on an
invalid quid. -/
def cropQuid (quid : Bytes) : Option Bytes :=
  if quid.length ≠ unpackedSize then
    if crop quid = [] then none else some (crop quid)
  else some quid

/-- `tolower` in the C locale. -/
def tolower (c : UInt8) : UInt8 := if 65 ≤ c ∧ c ≤ 90 then c + 32 else c

/-- `normalize`. -/
def normalize (str : Bytes) : Bytes := str.map tolower

/-- `commonIndexKeywords`. -/
def commonIndexKeywords : List Bytes :=
  ["name", "author", "owner", "user", "username",
    "date", "datetime", "timestamp", "locale",
    "age", "type", "classification", "category",
    "group", "set", "rating", "result", "status",
    "location", "language", "place", "target",
    "url", "address", "path", "description",
    "remark", "subject", "comment", "note", "tag",
    "color", "file", "width", "height", "time", "shape",
    "size", "texture", "source", "title", "domain",
    "standard", "setting", "protocol"].map ascii

/-- `AbstractAdditionalIndex::matchKeyword`. -/
def matchKeyword (keyword : Bytes) : Bool := keyword ∈ commonIndexKeywords

end Mavicona.Cynder
