import Mavicona.Chella.Message

/-!
# Tasks

Reference: `protoc/task.proto`.

A `Task` is what the clients of the pitcher send, and what the pitcher keeps in its store. As with the
other messages every field is an `Option`, and the accessors return the default of the field.
-/

namespace Mavicona.Pitch

open Wire Mavicona.Cynder Mavicona.Chella

/-- `Task::QueuePriority`. -/
inductive QueuePriority
  | realtime
  | high
  | normal
  | low
  | idle
deriving DecidableEq, Repr

/-- The value of a priority. -/
def QueuePriority.toVarint : QueuePriority → ℕ
  | .realtime => 0
  | .high => 1
  | .normal => 2
  | .low => 3
  | .idle => 4

/-- The priority of a value, if it has one (`Task_QueuePriority_IsValid`). -/
def QueuePriority.ofVarint? : ℕ → Option QueuePriority
  | 0 => some .realtime
  | 1 => some .high
  | 2 => some .normal
  | 3 => some .low
  | 4 => some .idle
  | _ => none

theorem QueuePriority.ofVarint?_toVarint (p : QueuePriority) : ofVarint? p.toVarint = some p := by
  cases p <;> rfl

/-- `Task`. -/
structure Task where
  name : Option Bytes := none
  id : Option Int32 := none
  quid : Option Bytes := none
  priority : Option QueuePriority := none
  content : Option Bytes := none
deriving DecidableEq

namespace Task

/-- The accessor `name()`. -/
def getName (t : Task) : Bytes := t.name.getD []

/-- The accessor `id()`. -/
def getId (t : Task) : Int32 := t.id.getD 0

/-- The accessor `quid()`. -/
def getQuid (t : Task) : Bytes := t.quid.getD []

/-- The accessor `priority()`. -/
def getPriority (t : Task) : QueuePriority := t.priority.getD .normal

end Task

/-- `SerializeToString` and `ParseFromArray` of `Task`; what was serialized is what is parsed. -/
structure TaskFormat where
  serialize : Task → Bytes
  parse : Bytes → Task
  parse_serialize : ∀ t, parse (serialize t) = t

/-! ## The wire format -/

/-- The fields of a `Task`. -/
def Task.fields (t : Task) : List Field :=
  optional 1 t.name ++ optionalVarint 2 (t.id.map int32ToVarint) ++ optional 3 t.quid ++
    optionalVarint 4 (t.priority.map QueuePriority.toVarint) ++ optional 5 t.content

/-- Read a `Task`. A priority that is not valid does not set the field. -/
def readTask (bs : Bytes) : Task :=
  let fs := (decode bs).getD []
  { name := (bytesOf 1 fs).getLast?
    id := (varintsOf 2 fs).getLast?.map int32OfVarint
    quid := (bytesOf 3 fs).getLast?
    priority := ((varintsOf 4 fs).filterMap QueuePriority.ofVarint?).getLast?
    content := (bytesOf 5 fs).getLast? }

theorem readTask_encode (t : Task) : readTask (encode t.fields) = t := by
  have hint := map_map_of_leftInverse int32OfVarint_int32ToVarint
  simp only [Option.map_map] at hint
  have hpriority := getLast?_filterMap_of_leftInverse QueuePriority.ofVarint?_toVarint t.priority
  simp [readTask, decode_encode, Task.fields, getLast?_toList, hint, hpriority]

/-- The wire format as the library. -/
def taskFormat : TaskFormat where
  serialize := fun t => encode t.fields
  parse := readTask
  parse_serialize := readTask_encode

end Mavicona.Pitch
