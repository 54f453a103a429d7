import Mavicona.Common.Bytes

/-!
# Messages

Reference: `protoc/scrapedata.proto`, `protoc/storagequery.proto`.

An optional field is an `Option`; its accessor (`getContent`, `getValue`) returns the empty string
when the field is not set. `ScrapeData` is cut down to the fields the storage master reads.
-/

namespace Mavicona.Cynder

/-- `ScrapeData.MetaEntry` and `StorageQuery.MetaEntry`, which have the same fields. -/
structure MetaEntry where
  key : Bytes
  value : Option Bytes
  metas : List MetaEntry

/-- The accessor `value()`. -/
def MetaEntry.getValue (m : MetaEntry) : Bytes := m.value.getD []

/-- `StorageQuery.Action`. -/
inductive Action
  | select
  | insert
  | update
  | delete
  | search
deriving DecidableEq, Repr

/-- `StorageQuery.Result`. -/
inductive Result
  | success
  | notfound
  | duplicate
  | unknown
deriving DecidableEq, Repr

/-- `StorageQuery`. -/
structure StorageQuery where
  name : Bytes
  id : Int32
  quid : Bytes
  content : Option Bytes
  queryaction : Action
  queryresult : Result
  metas : List MetaEntry
  next : List StorageQuery

namespace StorageQuery

/-- The accessor `content()`. -/
def getContent (q : StorageQuery) : Bytes := q.content.getD []

/-- `set_content`. -/
def setContent (q : StorageQuery) (content : Bytes) : StorageQuery :=
  { q with content := some content }

/-- `clear_content`. -/
def clearContent (q : StorageQuery) : StorageQuery := { q with content := none }

/-- `set_queryresult`. -/
def setResult (q : StorageQuery) (result : Result) : StorageQuery :=
  { q with queryresult := result }

end StorageQuery

/-- `ScrapeData`, as far as the storage master reads it. -/
structure ScrapeData where
  name : Bytes
  id : Int32
  quid : Bytes
  payload : Bytes
  metas : List MetaEntry

end Mavicona.Cynder
