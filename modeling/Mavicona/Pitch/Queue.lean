import Mathlib.Data.Char
import Mathlib.Data.List.Lex
import Mathlib.Data.Multiset.Filter
import Mavicona.Common.OrderedMap
import Mavicona.Common.Run
import Mavicona.Pitch.Task

/-!
# The queue of the pitcher

Reference: `pitch/queue.h`.

A task is stored under its id and put in one of two queues in memory, a priority queue and a FIFO queue
for idle tasks. On a start the queues are filled from the store. The order in which the priority queue
returns tasks of the same priority is not specified; `getNextTask` takes the task it returns as an
argument.
-/

namespace Mavicona.Pitch

open OrderedMap Trace

/-! ## Keys -/

/-- `std::to_string` of an `int`. -/
def toDecimal (i : ℤ) : List Char :=
  if i < 0 then '-' :: Nat.toDigits 10 i.natAbs else Nat.toDigits 10 i.natAbs

theorem toDigits_injective : Function.Injective (Nat.toDigits 10) :=
  Function.LeftInverse.injective (g := fun cs => Nat.ofDigitChars 10 cs 0) fun _ =>
    Nat.ofDigitChars_toDigits (by decide) (by decide)

/-- No sign among the digits. -/
theorem minus_cons_ne_toDigits (cs : List Char) (n : ℕ) : '-' :: cs ≠ Nat.toDigits 10 n := by
  intro heq
  have hdigit : '-'.isDigit := by
    refine Nat.isDigit_of_mem_toDigits (b := 10) (n := n) (by decide) (by decide) ?_
    rw [← heq]
    exact List.mem_cons_self
  exact absurd hdigit (by decide)

theorem toDecimal_injective : Function.Injective toDecimal := by
  intro i j heq
  rw [toDecimal, toDecimal] at heq
  -- The sign is told from the first character, then the digits decide.
  split_ifs at heq with hi hj hj
  · have := toDigits_injective (List.cons.inj heq).2
    omega
  · exact absurd heq (minus_cons_ne_toDigits _ _)
  · exact absurd heq.symm (minus_cons_ne_toDigits _ _)
  · have := toDigits_injective heq
    omega

/-- The key of a task, `std::to_string(task.id())`. -/
def Task.key (t : Task) : List Char := toDecimal t.getId.toInt

theorem Task.key_eq_iff {t u : Task} : t.key = u.key ↔ t.getId = u.getId := by
  constructor
  · intro heq
    exact Int32.toInt_inj.mp (toDecimal_injective heq)
  · intro heq
    rw [Task.key, Task.key, heq]

/-! ## The store -/

/-- The database `qstore`: an ordered map with nothing in it but tasks under their keys. -/
structure Store (fmt : TaskFormat) where
  entries : List (List Char × Bytes)
  sorted : Sorted entries
  keyed : ∀ e ∈ entries, ∃ t : Task, e = (t.key, fmt.serialize t)

namespace Store

variable {fmt : TaskFormat} {t u : Task}

/-- The database of a first start. -/
def empty : Store fmt := ⟨[], sorted_nil, by simp⟩

/-- `db->Put(.., std::to_string(task.id()), serialized)`. -/
def put (db : Store fmt) (t : Task) : Store fmt where
  entries := OrderedMap.insert t.key (fmt.serialize t) db.entries
  sorted := db.sorted.insert _ _
  keyed := by
    intro e he
    rcases List.mem_cons.mp ((insert_perm db.sorted _ _).mem_iff.mp he) with rfl | he
    · exact ⟨t, rfl⟩
    · exact db.keyed e (mem_erase.mp he).1

/-- `db->Delete(.., std::to_string(task.id()))`. -/
def delete (db : Store fmt) (t : Task) : Store fmt where
  entries := OrderedMap.erase t.key db.entries
  sorted := db.sorted.erase _
  keyed := fun e he => db.keyed e (mem_erase.mp he).1

/-- The tasks that a scan of the database reads, in order. -/
def tasks (db : Store fmt) : List Task := db.entries.map fun e => fmt.parse e.2

/-- The entry of a task. -/
theorem mem_tasks (db : Store fmt) : t ∈ db.tasks ↔ (t.key, fmt.serialize t) ∈ db.entries := by
  rw [tasks, List.mem_map]
  constructor
  · rintro ⟨e, he, rfl⟩
    obtain ⟨u, rfl⟩ := db.keyed e he
    rwa [fmt.parse_serialize]
  · intro ht
    exact ⟨_, ht, fmt.parse_serialize t⟩

/-- A deletion takes away the task with the id. -/
theorem tasks_delete (db : Store fmt) (t : Task) :
    (db.delete t).tasks = db.tasks.filter fun u => u.getId ≠ t.getId := by
  rw [tasks, tasks, List.filter_map]
  refine congrArg _ (List.filter_congr fun e he => ?_)
  obtain ⟨u, rfl⟩ := db.keyed e he
  simp only [Function.comp_apply, fmt.parse_serialize, ne_eq, Task.key_eq_iff]

/-- A task that is stored takes the place of the one with its id. -/
theorem tasks_put (db : Store fmt) (t : Task) :
    (db.put t).tasks.Perm (t :: db.tasks.filter fun u => u.getId ≠ t.getId) := by
  have hperm := (insert_perm db.sorted t.key (fmt.serialize t)).map fun e => fmt.parse e.2
  rw [List.map_cons, fmt.parse_serialize] at hperm
  rw [← tasks_delete]
  exact hperm

theorem mem_tasks_delete (db : Store fmt) :
    u ∈ (db.delete t).tasks ↔ u ∈ db.tasks ∧ u.getId ≠ t.getId := by
  rw [tasks_delete, List.mem_filter, decide_eq_true_iff]

theorem mem_tasks_put (db : Store fmt) :
    u ∈ (db.put t).tasks ↔ u = t ∨ u ∈ db.tasks ∧ u.getId ≠ t.getId := by
  rw [(db.tasks_put t).mem_iff, List.mem_cons, List.mem_filter, decide_eq_true_iff]

/-- No two tasks in the store have the same id. -/
theorem nodup_tasks (db : Store fmt) : (db.tasks.map Task.getId).Nodup := by
  rw [List.Nodup, List.pairwise_map, tasks, List.pairwise_map]
  -- Different keys are those of different ids.
  refine db.sorted.imp_of_mem fun {e f} he hf hlt => ?_
  obtain ⟨t, rfl⟩ := db.keyed e he
  obtain ⟨u, rfl⟩ := db.keyed f hf
  rw [fmt.parse_serialize, fmt.parse_serialize]
  exact mt Task.key_eq_iff.mpr hlt.ne

end Store

/-! ## The queue -/

/-- `Queue<Task>`. -/
structure Queue (fmt : TaskFormat) where
  taskList : Multiset Task
  taskListIdle : List Task
  db : Store fmt

namespace Queue

variable {fmt : TaskFormat}

/-- The first half of `Queue::push`. -/
def put (q : Queue fmt) (task : Task) : Queue fmt := { q with db := q.db.put task }

/-- The second half of `Queue::push`. -/
def enqueue (q : Queue fmt) (task : Task) (prio : ℤ) : Queue fmt :=
  if 50 < prio then { q with taskListIdle := q.taskListIdle ++ [task] }
  else { q with taskList := task ::ₘ q.taskList }

/-- `Queue::push`. -/
def push (q : Queue fmt) (task : Task) (prio : ℤ) (cache : Bool) : Queue fmt :=
  (if cache then q.put task else q).enqueue task prio

/-- `Queue::doneTask`. -/
def doneTask (q : Queue fmt) (task : Task) : Queue fmt := { q with db := q.db.delete task }

/-- `task` may be on top of the priority queue: `CompareTaskPriority` puts no other before it. -/
def Top (q : Queue fmt) (task : Task) : Prop :=
  task ∈ q.taskList ∧ ∀ u ∈ q.taskList, task.getPriority.toVarint ≤ u.getPriority.toVarint

instance (q : Queue fmt) (task : Task) : Decidable (q.Top task) := inferInstanceAs (Decidable (_ ∧ _))

/-- `Queue::getNextTask`, with `task` on top. -/
def getNextTask (q : Queue fmt) (task : Task) : Queue fmt :=
  { q with taskList := q.taskList.erase task }

/-- `Queue::getNextIdleTask`. -/
def getNextIdleTask (q : Queue fmt) : Option (Task × Queue fmt) :=
  match q.taskListIdle with
  | [] => none
  | task :: rest => some (task, { q with taskListIdle := rest })

/-- The second argument of `push` for a task, unless it is a realtime one. -/
def prioOf : QueuePriority → Option ℤ
  | .realtime => none
  | .high => some 1
  | .normal => some 2
  | .low => some 3
  | .idle => some 100

/-- The `switch` of `queuCache` and of `parseTask`. -/
def dispatch (cache : Bool) (q : Queue fmt) (task : Task) : Queue fmt :=
  match prioOf task.getPriority with
  | some prio => q.push task prio cache
  | none => q

/-- `Queue::queuCache`. -/
def queuCache (q : Queue fmt) : Queue fmt := q.db.tasks.foldl (dispatch false) q

/-- The constructor of `Queue`. -/
def init (db : Store fmt) : Queue fmt := queuCache ⟨0, [], db⟩

/-! ### What happens to the database -/

@[simp] theorem db_enqueue (q : Queue fmt) (task : Task) (prio : ℤ) :
    (q.enqueue task prio).db = q.db := by
  rw [enqueue]
  split_ifs <;> rfl

@[simp] theorem db_push (q : Queue fmt) (task : Task) (prio : ℤ) :
    (q.push task prio true).db = q.db.put task := by
  rw [push, db_enqueue]
  rfl

theorem db_dispatch_false (q : Queue fmt) (task : Task) : (dispatch false q task).db = q.db := by
  rw [dispatch]
  cases prioOf task.getPriority with
  | none => rfl
  | some prio => exact db_enqueue q task prio

/-- A start leaves the database as it is. -/
@[simp] theorem db_init (db : Store fmt) : (init db).db = db := by
  have hfold : ∀ (tasks : List Task) (q : Queue fmt), (tasks.foldl (dispatch false) q).db = q.db := by
    intro tasks
    induction tasks with
    | nil => exact fun _ => rfl
    | cons task tasks ih =>
      intro q
      rw [List.foldl_cons, ih, db_dispatch_false]
  exact hfold _ _

end Queue

end Mavicona.Pitch
