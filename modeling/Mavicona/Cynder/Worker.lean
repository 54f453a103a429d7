import Mavicona.Cynder.Engine
import Mavicona.Cynder.Filebase
import Mavicona.Cynder.Message

/-!
# The storage worker

Reference: `cynder/cynder.cpp` (`initSlave`), `cynder/data_index.cpp`, `cynder/record_index.h`,
`cynder/key_index.cpp`, `cynder/text_index.cpp`.

`handle` is one round of the loop of `initSlave`: the state after a request and the reply, or no reply
when the process dies. An exception leaves the state as it was when it was thrown, so every operation
returns the state beside its result.
-/

namespace Mavicona.Cynder

open Bytes

/-- `SerializeToString` and `ParseFromArray` of the generated class `StorageQuery`. The message is
cleared before it is parsed, so what was serialized is what is parsed. -/
structure Protobuf where
  serializeToString : StorageQuery → Bytes
  parseFromArray : Bytes → StorageQuery
  parse_serialize : ∀ q, parseFromArray (serializeToString q) = q

/-! ## The data index -/

def dataMagic : ℕ := 72
def dataFlagAdi : ℕ := 0x1
def dataFlagLfb : ℕ := 0x2

/-- `LFB_MINIMUM_SIZE`. -/
def lfbMinimumSize : ℕ := 1024 * 1024 * 8

/-- `std::string::max_size()`. -/
def stringMaxSize : ℕ := 2 ^ 62 - 1

/-- `sizeof(StorageType)`. -/
def sizeofStorageType : ℕ := 12

/-- `struct StorageType`. -/
structure StorageType where
  page : ℕ
  pointer : ℕ
  magic : ℕ
  flags : ℕ

/-- The memory image of the trailer: two padding bytes follow `page`, two follow `flags`. -/
def StorageType.encode (t : StorageType) : Bytes :=
  le 2 t.page ++ (le 2 0 ++ (le 4 t.pointer ++ (le 1 t.magic ++ (le 1 t.flags ++ le 2 0))))

def StorageType.decode (bs : Bytes) : StorageType where
  page := ofLe (field bs 0 2)
  pointer := ofLe (field bs 4 4)
  magic := ofLe (field bs 8 1)
  flags := ofLe (field bs 9 1)

/-- The test of `DataIndex::put` for content that goes to the large-file base. -/
def isLarge (value : Bytes) : Bool := value.length > lfbMinimumSize && value.length < stringMaxSize

/-- The value `DataIndex::put` stores for content kept in the index, with its trailer. -/
def inlineValue (value : Bytes) : Bytes :=
  value ++ StorageType.encode { page := 0, pointer := 0, magic := dataMagic, flags := dataFlagAdi }

/-- The value `DataIndex::put` stores for content kept in page `page` of the large-file base: the
trailer alone. -/
def lfbValue (page : ℕ) : Bytes :=
  StorageType.encode { page := u16 page, pointer := 0, magic := dataMagic, flags := dataFlagLfb }

/-- The state of a worker: the record index, the data index with the large-file base, and the two
additional indexes. -/
structure Worker where
  ari : Db
  adi : Db
  uki : DupDb
  fti : DupDb
  lfb : Filebase

/-- Why a call does not return a value: an upscaledb exception, or the end of the process. -/
inductive Fault
  | ups (error : UpsError)
  | crash
deriving DecidableEq, Repr

namespace Worker

/-- `DataIndex::put`. The content is routed before the key index is consulted. -/
def dataPut (w : Worker) (quid value : Bytes) (override : Bool) : Except UpsError Unit × Worker :=
  match cropQuid quid with
  | none => (.ok (), w)
  | some quid =>
    let (record, lfb) :=
      if isLarge value then
        let (page, lfb) := w.lfb.put quid value
        (lfbValue page, lfb)
      else (inlineValue value, w.lfb)
    match w.adi.put quid record override with
    | .error e => (.error e, { w with lfb := lfb })
    | .ok adi => (.ok (), { w with adi := adi, lfb := lfb })

/-- The part of `DataIndex::get` behind the lookup. -/
def readRecord (w : Worker) (quid data : Bytes) : Except Fault Bytes :=
  if data.length < sizeofStorageType then .error .crash
  else
    let dataEnd := data.length - sizeofStorageType
    let type := StorageType.decode (field data dataEnd sizeofStorageType)
    if type.magic ≠ dataMagic then .ok []
    else if type.flags = dataFlagLfb then
      match w.lfb.get type.page quid with
      | none => .error .crash
      | some value => .ok value
    else .ok (data.take dataEnd)

/-- `DataIndex::get`. -/
def dataGet (w : Worker) (quid : Bytes) : Except Fault Bytes :=
  match cropQuid quid with
  | none => .ok []
  | some quid =>
    match w.adi.get quid with
    | .error e => .error (.ups e)
    | .ok data => w.readRecord quid data

/-! ## The record index and the additional indexes -/

/-- `RecordIndex::put`. -/
def recordPut (w : Worker) (quid value : Bytes) (override : Bool) : Except UpsError Unit × Worker :=
  match cropQuid quid with
  | none => (.ok (), w)
  | some quid =>
    match w.ari.put quid value override with
    | .error e => (.error e, w)
    | .ok ari => (.ok (), { w with ari := ari })

/-- `KeyIndex::put`. -/
def keyPut (uki : DupDb) (quid key value : Bytes) : DupDb :=
  match cropQuid quid with
  | none => uki
  | some quid =>
    let key := normalize key
    if matchKeyword key then uki.put key (quid ++ value) else uki

/-- `TextIndex::put`. -/
def textPut (fti : DupDb) (quid key value : Bytes) : DupDb :=
  match cropQuid quid with
  | none => fti
  | some quid =>
    let value := normalize value
    if matchKeyword value then fti.put key (quid ++ value) else fti

/-- One leaf of `traverseMeta`. -/
def putLeaf (w : Worker) (quid key value : Bytes) : Worker :=
  { w with uki := keyPut w.uki quid key value, fti := textPut w.fti quid value key }

mutual

/-- `traverseMeta` of `initSlave`. -/
def traverseMeta (quid : Bytes) : MetaEntry → Worker → Worker
  | ⟨key, value, []⟩, w => w.putLeaf quid key (value.getD [])
  | ⟨_, _, m :: ms⟩, w => traverseForest quid (m :: ms) w

/-- The loop over the children of a node, and over the metadata of a query. -/
def traverseForest (quid : Bytes) : List MetaEntry → Worker → Worker
  | [], w => w
  | m :: ms, w => traverseForest quid ms (traverseMeta quid m w)

end

end Worker

/-! ## Requests -/

/-- The handler of `initSlave` for an upscaledb exception. -/
def StorageQuery.caught (query : StorageQuery) : UpsError → StorageQuery
  | .keyNotFound => query.setResult .notfound
  | .duplicateKey => query.setResult .duplicate

namespace Worker

variable (proto : Protobuf)

/-- `case StorageQuery::SELECT`. The content is looked up under the quid of the restored record. -/
def select (w : Worker) (query : StorageQuery) : Worker × Option StorageQuery :=
  match w.ari.get query.quid with
  | .error e => (w, some (query.caught e))
  | .ok serialized =>
    let query := proto.parseFromArray serialized
    match w.dataGet query.quid with
    | .error (.ups e) => (w, some (query.caught e))
    | .error .crash => (w, none)
    | .ok content => (w, some (query.setContent content))

/-- `case StorageQuery::INSERT` and `case StorageQuery::UPDATE`, which differ in the override flag. -/
def write (override : Bool) (w : Worker) (query : StorageQuery) : Worker × Option StorageQuery :=
  match w.dataPut query.quid query.getContent override with
  | (.error e, w) => (w, some (query.caught e))
  | (.ok (), w) =>
    let query := query.clearContent
    match w.recordPut query.quid (proto.serializeToString query) override with
    | (.error e, w) => (w, some (query.caught e))
    | (.ok (), w) => (traverseForest query.quid query.metas w, some query)

/-- `case StorageQuery::DELETE`. -/
def delete (w : Worker) (query : StorageQuery) : Worker × Option StorageQuery :=
  match w.adi.remove query.quid with
  | .error e => (w, some (query.caught e))
  | .ok adi =>
    let w := { w with adi := adi }
    match w.ari.remove query.quid with
    | .error e => (w, some (query.caught e))
    | .ok ari => ({ w with ari := ari }, some query)

/-- The loop of `case StorageQuery::SEARCH` over the quids found: the records added to the reply. -/
def searchNext (w : Worker) : List Bytes → Option (List StorageQuery)
  | [] => some []
  | value :: keyList =>
    match w.ari.get value with
    | .error _ => searchNext w keyList
    | .ok serialized =>
      let next := proto.parseFromArray serialized
      match w.dataGet value with
      | .error .crash => none
      | .error (.ups _) => (searchNext w keyList).map (next :: ·)
      | .ok content => (searchNext w keyList).map (next.setContent content :: ·)

/-- `case StorageQuery::SEARCH`. -/
def search (w : Worker) (query : StorageQuery) : Worker × Option StorageQuery :=
  match w.uki.getMulti query.getContent [] with
  | .error e => (w, some (query.caught e))
  | .ok keyList =>
    match w.fti.getMulti query.getContent keyList with
    | .error e => (w, some (query.caught e))
    | .ok keyList =>
      match w.searchNext proto keyList with
      | none => (w, none)
      | some next => (w, some { query with next := query.next ++ next })

/-- One round of the loop of `initSlave`: the state after the request and the reply. -/
def handle (w : Worker) (request : StorageQuery) : Worker × Option StorageQuery :=
  let query := request.setResult .success
  match query.queryaction with
  | .select => w.select proto query
  | .insert => w.write proto false query
  | .update => w.write proto true query
  | .delete => w.delete query
  | .search => w.search proto query

/-- The state after a request. -/
def next (w : Worker) (request : StorageQuery) : Worker := (w.handle proto request).1

/-- The reply to a request. -/
def reply (w : Worker) (request : StorageQuery) : Option StorageQuery := (w.handle proto request).2

/-- A worker started on empty databases and without large files. -/
def start (heap : Uninit) : Worker where
  ari := fun _ => none
  adi := fun _ => none
  uki := []
  fti := []
  lfb := Filebase.construct heap 0 fun _ => none

end Worker

end Mavicona.Cynder
