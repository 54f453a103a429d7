import Mavicona.Cynder.Codec
import Mavicona.Chella.Execute

/-!
# Jobs and control messages

Reference: `protoc/processjob.proto`, `protoc/controlmessage.proto`.

Every field is an `Option`, the required ones included, since the result of `ParseFromArray` is not
tested anywhere and the message keeps what was read. The accessors return the default of the field.
The generated classes are a parameter, a `Protobuf` with the laws of the library; `protobuf` is the
wire format as such.
-/

namespace Mavicona.Chella

open Wire Mavicona.Cynder

/-- `ProcessJob`. -/
structure ProcessJob where
  name : Option Bytes := none
  id : Option Int32 := none
  quid : Option Bytes := none
  state : Option JobState := none
  content : Option Bytes := none
  data : Option Bytes := none
  partition : Option Int32 := none
  partitionCount : Option Int32 := none
  quidParent : Option Bytes := none
deriving DecidableEq

namespace ProcessJob

/-! ## Accessors -/

/-- The accessor `name()`. -/
def getName (j : ProcessJob) : Bytes := j.name.getD []

/-- The accessor `id()`. -/
def getId (j : ProcessJob) : Int32 := j.id.getD 0

/-- The accessor `quid()`. -/
def getQuid (j : ProcessJob) : Bytes := j.quid.getD []

/-- The accessor `state()`. -/
def getState (j : ProcessJob) : JobState := j.state.getD .spawn

/-- The accessor `content()`. -/
def getContent (j : ProcessJob) : Bytes := j.content.getD []

/-- The accessor `data()`. -/
def getData (j : ProcessJob) : Bytes := j.data.getD []

/-- The accessor `partition()`. -/
def getPartition (j : ProcessJob) : Int32 := j.partition.getD 0

/-- The accessor `partition_count()`. -/
def getPartitionCount (j : ProcessJob) : Int32 := j.partitionCount.getD 0

/-- The accessor `quid_parent()`. -/
def getQuidParent (j : ProcessJob) : Bytes := j.quidParent.getD []

/-- `set_id`. -/
def setId (j : ProcessJob) (id : Int32) : ProcessJob := { j with id := some id }

/-- The parameters that `prepareJob` gathers for `Execute::run`. -/
def toParameter (j : ProcessJob) : Parameter where
  jobid := j.getId.toUInt32
  jobpartition := j.getPartition.toUInt32
  jobpartitionCount := j.getPartitionCount.toUInt32
  jobname := j.getName
  jobquid := j.getQuid
  jobparent := j.getQuidParent
  jobdata := j.getData
  jobstate := j.getState

end ProcessJob

/-- `ControlMessage`; its actions are the states a worker reports. -/
structure ControlMessage where
  id : Option Int32 := none
  jobid : Option Int32 := none
  quid : Option Bytes := none
  action : Option WorkerState := none
  progress : Option Int32 := none
  clusterJobs : Option Int32 := none

/-- `SerializeToString` and `ParseFromArray` of the generated classes. Parsing starts from a cleared
message, so that what was serialized is what is parsed, and no bytes are the message without fields. -/
structure Protobuf where
  serializeJob : ProcessJob → Bytes
  parseJob : Bytes → ProcessJob
  parse_serialize : ∀ j, parseJob (serializeJob j) = j
  parse_nil : parseJob [] = {}
  serializeControl : ControlMessage → Bytes
  parseControl : Bytes → ControlMessage

/-- A job with an id has bytes on the wire. -/
theorem Protobuf.serializeJob_ne_nil (pb : Protobuf) {j : ProcessJob} {id : Int32} (hid : j.id = some id) :
    pb.serializeJob j ≠ [] := by
  intro hnil
  have hparse := pb.parse_serialize j
  rw [hnil, pb.parse_nil] at hparse
  rw [← hparse] at hid
  exact absurd hid (by simp)

/-! ## The wire format -/

/-- An optional field with a varint. -/
def optionalVarint (number : ℕ) (value : Option ℕ) : List Field :=
  (value.map fun v => (⟨number, .varint v⟩ : Field)).toList

@[simp] theorem bytesOf_optionalVarint (number other : ℕ) (value : Option ℕ) :
    bytesOf number (optionalVarint other value) = [] := by
  cases value <;> simp [optionalVarint]

@[simp] theorem varintsOf_optionalVarint (number other : ℕ) (value : Option ℕ) :
    varintsOf number (optionalVarint other value) = if other = number then value.toList else [] := by
  cases value <;> simp [optionalVarint]

/-- The fields of a `ProcessJob`. -/
def ProcessJob.fields (j : ProcessJob) : List Field :=
  optional 1 j.name ++ optionalVarint 2 (j.id.map int32ToVarint) ++ optional 3 j.quid ++
    optionalVarint 4 (j.state.map JobState.code) ++ optional 5 j.content ++ optional 6 j.data ++
    optionalVarint 7 (j.partition.map int32ToVarint) ++
    optionalVarint 8 (j.partitionCount.map int32ToVarint) ++ optional 9 j.quidParent

/-- Read a `ProcessJob`. -/
def readJob (bs : Bytes) : ProcessJob :=
  let fs := (decode bs).getD []
  { name := (bytesOf 1 fs).getLast?
    id := (varintsOf 2 fs).getLast?.map int32OfVarint
    quid := (bytesOf 3 fs).getLast?
    state := (varintsOf 4 fs).getLast?.map JobState.ofCode
    content := (bytesOf 5 fs).getLast?
    data := (bytesOf 6 fs).getLast?
    partition := (varintsOf 7 fs).getLast?.map int32OfVarint
    partitionCount := (varintsOf 8 fs).getLast?.map int32OfVarint
    quidParent := (bytesOf 9 fs).getLast? }

theorem getLast?_toList {α : Type*} (o : Option α) : o.toList.getLast? = o := by cases o <;> rfl

theorem map_map_of_leftInverse {α β : Type*} {f : α → β} {g : β → α} (h : ∀ a, g (f a) = a)
    (o : Option α) : (o.map f).map g = o := by
  cases o with
  | none => rfl
  | some a => exact congrArg some (h a)

/-- A value of an enumeration that is tested when it is read. -/
theorem getLast?_filterMap_of_leftInverse {α β : Type*} {f : α → β} {g : β → Option α}
    (h : ∀ a, g (f a) = some a) (o : Option α) : ((o.map f).toList.filterMap g).getLast? = o := by
  cases o with
  | none => rfl
  | some a => simp [h]

theorem readJob_encode (j : ProcessJob) : readJob (encode j.fields) = j := by
  have hint := map_map_of_leftInverse int32OfVarint_int32ToVarint
  have hstate := map_map_of_leftInverse JobState.ofCode_code
  simp only [Option.map_map] at hint hstate
  simp [readJob, decode_encode, ProcessJob.fields, getLast?_toList, hint, hstate]

/-- The value of `ControlMessage.Action`. -/
def WorkerState.toVarint : WorkerState → ℕ
  | .idle => 1
  | .awaiting => 2
  | .accepted => 3
  | .setup => 4
  | .running => 5
  | .teardown => 6
  | .failed => 7

def WorkerState.ofVarint : ℕ → WorkerState
  | 2 => .awaiting
  | 3 => .accepted
  | 4 => .setup
  | 5 => .running
  | 6 => .teardown
  | 7 => .failed
  | _ => .idle

/-- The fields of a `ControlMessage`. -/
def ControlMessage.fields (m : ControlMessage) : List Field :=
  optionalVarint 1 (m.id.map int32ToVarint) ++ optionalVarint 2 (m.jobid.map int32ToVarint) ++
    optional 3 m.quid ++ optionalVarint 4 (m.action.map WorkerState.toVarint) ++
    optionalVarint 5 (m.progress.map int32ToVarint) ++
    optionalVarint 6 (m.clusterJobs.map int32ToVarint)

/-- Read a `ControlMessage`. -/
def readControl (bs : Bytes) : ControlMessage :=
  let fs := (decode bs).getD []
  { id := (varintsOf 1 fs).getLast?.map int32OfVarint
    jobid := (varintsOf 2 fs).getLast?.map int32OfVarint
    quid := (bytesOf 3 fs).getLast?
    action := (varintsOf 4 fs).getLast?.map WorkerState.ofVarint
    progress := (varintsOf 5 fs).getLast?.map int32OfVarint
    clusterJobs := (varintsOf 6 fs).getLast?.map int32OfVarint }

/-- The wire format as the library. -/
def protobuf : Protobuf where
  serializeJob := fun j => encode j.fields
  parseJob := readJob
  parse_serialize := readJob_encode
  parse_nil := by simp [readJob, decode, readFields]
  serializeControl := fun m => encode m.fields
  parseControl := readControl

end Mavicona.Chella
