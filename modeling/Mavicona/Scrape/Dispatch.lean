import Mavicona.Chella.Message
import Mavicona.Quid.Text

/-!
# Committing scraped data

Reference: `scrape/scrape.cpp` (`dispatch_commit`), `protoc/scrapedata.proto`.

A scraper pushes items on a stack and commits them: every item is sent to the extractor in a message of
its own, with a number and a fresh quid, and the stack is cleared if the extractor answered `DONE` to all
of them.
-/

namespace Mavicona.Scrape

open Wire Mavicona.Cynder Mavicona.Chella Mavicona.Quid

/-! ## The message -/

/-- `ScrapeData::DataType`. -/
inductive DataType
  | plain
  | file
  | binary
  | stream
deriving DecidableEq, Repr

/-- The value of a data type. -/
def DataType.toVarint : DataType → ℕ
  | .plain => 0
  | .file => 1
  | .binary => 2
  | .stream => 3

/-- The data type of a value, if it has one. -/
def DataType.ofVarint? : ℕ → Option DataType
  | 0 => some .plain
  | 1 => some .file
  | 2 => some .binary
  | 3 => some .stream
  | _ => none

theorem DataType.ofVarint?_toVarint (d : DataType) : ofVarint? d.toVarint = some d := by cases d <;> rfl

/-- `ScrapeData::Data`. -/
structure Data where
  payload : Option Bytes := none
  size : Option UInt64 := none
  extension : Option Bytes := none
deriving DecidableEq

/-- `ScrapeData`, without `zone` and `next`. -/
structure ScrapeData where
  name : Option Bytes := none
  id : Option Int32 := none
  quid : Option Bytes := none
  type : Option DataType := none
  content : Option Data := none
  metas : List MetaEntry := []

namespace ScrapeData

/-- The accessor `name()`. -/
def getName (d : ScrapeData) : Bytes := d.name.getD []

/-- The accessor `id()`. -/
def getId (d : ScrapeData) : Int32 := d.id.getD 0

/-- The accessor `quid()`. -/
def getQuid (d : ScrapeData) : Bytes := d.quid.getD []

end ScrapeData

/-- `SerializeToString` and `ParseFromArray` of `ScrapeData`. -/
structure ScrapeFormat where
  serialize : ScrapeData → Bytes
  parse : Bytes → ScrapeData
  parse_serialize : ∀ d, parse (serialize d) = d

/-! ## The wire format -/

/-- The fields of a `Data`. -/
def Data.fields (d : Data) : List Field :=
  optional 1 d.payload ++ optionalVarint 2 (d.size.map UInt64.toNat) ++ optional 3 d.extension

/-- Read a `Data`. -/
def readData (bs : Bytes) : Data :=
  let fs := (decode bs).getD []
  { payload := (bytesOf 1 fs).getLast?
    size := (varintsOf 2 fs).getLast?.map UInt64.ofNat
    extension := (bytesOf 3 fs).getLast? }

theorem readData_encode (d : Data) : readData (encode d.fields) = d := by
  have hsize := map_map_of_leftInverse (fun n => UInt64.ofNat_toNat (x := n)) d.size
  simp only [Option.map_map] at hsize
  simp [readData, decode_encode, Data.fields, getLast?_toList, hsize]

/-- The fields of a `ScrapeData`. -/
def ScrapeData.fields (d : ScrapeData) : List Field :=
  optional 1 d.name ++ optionalVarint 2 (d.id.map int32ToVarint) ++ optional 3 d.quid ++
    optionalVarint 5 (d.type.map DataType.toVarint) ++
    optional 6 (d.content.map fun c => encode c.fields) ++ metaFields 7 d.metas

/-- Read a `ScrapeData`. -/
def readScrape (bs : Bytes) : ScrapeData :=
  let fs := (decode bs).getD []
  { name := (bytesOf 1 fs).getLast?
    id := (varintsOf 2 fs).getLast?.map int32OfVarint
    quid := (bytesOf 3 fs).getLast?
    type := ((varintsOf 5 fs).filterMap DataType.ofVarint?).getLast?
    content := (bytesOf 6 fs).getLast?.map readData
    metas := (bytesOf 7 fs).map (readMeta bs.length) }

theorem readScrape_encode (d : ScrapeData) : readScrape (encode d.fields) = d := by
  have hint := map_map_of_leftInverse int32OfVarint_int32ToVarint d.id
  have hcontent := map_map_of_leftInverse readData_encode d.content
  simp only [Option.map_map] at hint hcontent
  have htype := getLast?_filterMap_of_leftInverse DataType.ofVarint?_toVarint d.type
  have hmetas : (d.metas.map fun m => encode m.fields).map (readMeta (encode d.fields).length)
      = d.metas := by
    -- Every tree of metadata is shorter than the message.
    refine map_readMeta_encode d.metas fun m hm => length_lt_length_encode_of_mem (n := 7) ?_
    simp [ScrapeData.fields, mem_metaFields hm]
  have hdecode := decode_encode d.fields
  -- The length of the message stays folded as the fuel.
  generalize encode d.fields = bs at hdecode hmetas ⊢
  simp only [List.map_map] at hmetas
  simp [readScrape, hdecode, ScrapeData.fields, getLast?_toList, hint, hcontent, htype, hmetas]

/-- The wire format as the library. -/
def scrapeFormat : ScrapeFormat where
  serialize := fun d => encode d.fields
  parse := readScrape
  parse_serialize := readScrape_encode

/-! ## The scraper -/

/-- The stack of a scraper, the items with their names, and its counter. -/
structure Scraper where
  datastack : List (Bytes × Bytes)
  itemCount : Int32

/-- What the extractor answers, or `zmq::error_t` while the message is sent. -/
inductive Answer
  | done
  | fail
  | error
deriving DecidableEq, Repr

/-- The message for an item. -/
def commitData (itemCount : Int32) (quid : QuidT) (ent : Bytes × Bytes) : ScrapeData where
  name := some ent.1
  id := some itemCount
  quid := some (quid.toString false)
  type := some .plain
  content := some { payload := some ent.2, size := some (UInt64.ofNat ent.2.length) }

/-- The loop of `dispatch_commit`: the messages sent so far, how many were answered `DONE`, the counter,
and whether the loop was left on an error. -/
structure Commit where
  messages : List ScrapeData
  complete : ℕ
  itemCount : Int32
  interrupted : Bool

/-- The loop of `dispatch_commit`, where `env` gives the quid and the answer for each message. -/
def commitLoop (env : ℕ → QuidT × Answer) : List (Bytes × Bytes) → Commit → Commit
  | [], c => c
  | ent :: rest, c =>
    let (quid, answer) := env c.messages.length
    let messages := c.messages ++ [commitData c.itemCount quid ent]
    match answer with
    | .done => commitLoop env rest ⟨messages, c.complete + 1, c.itemCount + 1, false⟩
    | .fail => commitLoop env rest ⟨messages, c.complete, c.itemCount + 1, false⟩
    | .error => ⟨messages, c.complete, c.itemCount + 1, true⟩

namespace Scraper

/-- The messages of a commit. -/
def commit (env : ℕ → QuidT × Answer) (s : Scraper) : Commit :=
  commitLoop env s.datastack ⟨[], 0, s.itemCount, false⟩

/-- `dispatch_commit`. -/
def dispatchCommit (env : ℕ → QuidT × Answer) (s : Scraper) : Scraper :=
  let c := s.commit env
  { datastack := if !c.interrupted && c.complete == s.datastack.length then [] else s.datastack
    itemCount := c.itemCount }

end Scraper

/-- Every message of the loop carries the text of a quid. -/
theorem quid_of_mem_commitLoop {env : ℕ → QuidT × Answer} {stack : List (Bytes × Bytes)} {c : Commit}
    (hc : ∀ d ∈ c.messages, ∃ u : QuidT, d.quid = some (u.toString false)) :
    ∀ d ∈ (commitLoop env stack c).messages, ∃ u : QuidT, d.quid = some (u.toString false) := by
  induction stack generalizing c with
  | nil => exact hc
  | cons ent rest ih =>
    rw [commitLoop]
    obtain ⟨quid, answer⟩ := env c.messages.length
    have hnext : ∀ d ∈ c.messages ++ [commitData c.itemCount quid ent],
        ∃ u : QuidT, d.quid = some (u.toString false) := by
      intro d hd
      rcases List.mem_append.mp hd with hd | hd
      · exact hc d hd
      · rw [List.mem_singleton.mp hd]
        exact ⟨quid, rfl⟩
    cases answer with
    | done => exact ih (c := ⟨_, _, _, _⟩) hnext
    | fail => exact ih (c := ⟨_, _, _, _⟩) hnext
    | error => exact hnext

theorem Scraper.quid_of_mem_commit {env : ℕ → QuidT × Answer} {s : Scraper} {d : ScrapeData}
    (hd : d ∈ (s.commit env).messages) : ∃ u : QuidT, d.quid = some (u.toString false) :=
  quid_of_mem_commitLoop (fun _ h => absurd h List.not_mem_nil) d hd

end Mavicona.Scrape
