import Mavicona.Pitch.Queue

/-!
# What a restart of the pitcher recovers

The store is keyed by the id that the client chose, and the queues hold the tasks themselves. A restart
fills the queues with the tasks of the store, so that it recovers what was pushed and is not done if and
only if no two such tasks ever shared an id.
-/

namespace Mavicona.Pitch

open Trace

variable {fmt : TaskFormat}

/-! ## The queues after a start -/

/-- The queues hold these tasks, each in the queue that its priority selects. -/
structure Queue.Holds (q : Queue fmt) (tasks : Multiset Task) : Prop where
  union : q.taskList + (q.taskListIdle : Multiset Task) = tasks
  taskList : ∀ t ∈ q.taskList, t.getPriority = .high ∨ t.getPriority = .normal ∨ t.getPriority = .low
  taskListIdle : ∀ t ∈ q.taskListIdle, t.getPriority = .idle

/-- The task belongs in one of the queues. -/
def Task.Queued (t : Task) : Prop := t.getPriority ≠ .realtime

instance : DecidablePred Task.Queued := fun t => inferInstanceAs (Decidable (t.getPriority ≠ .realtime))

/-- The tasks of the store that belong in a queue. -/
def Store.queued (db : Store fmt) : Multiset Task := (db.tasks : Multiset Task).filter Task.Queued

namespace Queue

section Start

variable {q : Queue fmt} {task : Task} {tasks : Multiset Task} {prio : ℤ}

theorem prioOf_eq_none_iff {p : QueuePriority} : prioOf p = none ↔ p = .realtime := by
  cases p <;> simp [prioOf]

theorem queued_of_prioOf (hprio : prioOf task.getPriority = some prio) : task.Queued := by
  intro hrealtime
  rw [prioOf_eq_none_iff.mpr hrealtime] at hprio
  exact absurd hprio (Option.some_ne_none prio).symm

/-- Idle tasks, and no others, go to the idle queue. -/
theorem prioOf_cases {p : QueuePriority} (hprio : prioOf p = some prio) :
    (p = .idle ∧ 50 < prio) ∨ ((p = .high ∨ p = .normal ∨ p = .low) ∧ ¬ 50 < prio) := by
  cases p with
  | realtime => exact absurd hprio (by simp [prioOf])
  | high | normal | low =>
    obtain rfl := Option.some.inj hprio
    exact .inr (by decide)
  | idle =>
    obtain rfl := Option.some.inj hprio
    exact .inl (by decide)

/-- A task is put in the queue that its priority selects. -/
theorem Holds.enqueue (hq : q.Holds tasks) (hprio : prioOf task.getPriority = some prio) :
    (q.enqueue task prio).Holds (task ::ₘ tasks) := by
  obtain ⟨hunion, hlist, hidle⟩ := hq
  rcases prioOf_cases hprio with ⟨hpriority, hbig⟩ | ⟨hpriority, hsmall⟩
  · rw [Queue.enqueue, if_pos hbig]
    refine ⟨?_, hlist, ?_⟩
    · rw [← hunion, ← Multiset.coe_add, ← Multiset.add_assoc, Multiset.add_comm, Multiset.coe_singleton,
        Multiset.singleton_add]
    · intro t ht
      rcases List.mem_append.mp ht with ht | ht
      · exact hidle t ht
      · rw [List.mem_singleton.mp ht, hpriority]
  · rw [Queue.enqueue, if_neg hsmall]
    refine ⟨?_, ?_, hidle⟩
    · rw [← hunion, Multiset.cons_add]
    · intro t ht
      rcases Multiset.mem_cons.mp ht with rfl | ht
      · exact hpriority
      · exact hlist t ht

/-- One turn of the loop. -/
theorem Holds.dispatch (hq : q.Holds tasks) (task : Task) :
    (dispatch false q task).Holds (if task.Queued then task ::ₘ tasks else tasks) := by
  unfold Queue.dispatch
  split
  next prio hprio =>
    rw [if_pos (queued_of_prioOf hprio)]
    exact hq.enqueue hprio
  next hprio =>
    have hrealtime : ¬ task.Queued := not_not.mpr (prioOf_eq_none_iff.mp hprio)
    rwa [if_neg hrealtime]

/-- The whole loop. -/
theorem Holds.foldl_dispatch (hq : q.Holds tasks) (ts : List Task) :
    (ts.foldl (Queue.dispatch false) q).Holds
      ((ts : Multiset Task).filter Task.Queued + tasks) := by
  induction ts generalizing q tasks with
  | nil => simpa using hq
  | cons task ts ih =>
    have hrest := ih (hq.dispatch task)
    rw [List.foldl_cons, ← Multiset.cons_coe]
    split_ifs at hrest with hqueued
    · rw [Multiset.filter_cons_of_pos _ hqueued, Multiset.cons_add, ← Multiset.add_cons]
      exact hrest
    · rw [Multiset.filter_cons_of_neg _ hqueued]
      exact hrest

/-- A start fills the queues with the tasks of the store. -/
theorem holds_init (db : Store fmt) : (init db).Holds db.queued := by
  have hempty : (⟨0, [], db⟩ : Queue fmt).Holds 0 :=
    ⟨rfl, fun t ht => absurd ht (Multiset.notMem_zero t), fun t ht => absurd ht List.not_mem_nil⟩
  have hfilled := hempty.foldl_dispatch db.tasks
  rwa [Multiset.add_zero] at hfilled

end Start

end Queue

/-! ## The tasks in the store -/

namespace Store

theorem mem_queued (db : Store fmt) {t : Task} : t ∈ db.queued ↔ t ∈ db.tasks ∧ t.Queued := by
  rw [queued, Multiset.mem_filter, Multiset.mem_coe]

/-- A deletion takes away the task with the id. -/
theorem queued_delete (db : Store fmt) (t : Task) :
    (db.delete t).queued = db.queued.filter fun u => u.getId ≠ t.getId := by
  rw [queued, tasks_delete, queued, ← Multiset.filter_coe, Multiset.filter_comm]

/-- A task that is stored takes the place of the one with its id. -/
theorem queued_put (db : Store fmt) (t : Task) :
    (db.put t).queued =
      (if t.Queued then {t} else 0) + db.queued.filter fun u => u.getId ≠ t.getId := by
  have hput : ((db.put t).tasks : Multiset Task) = t ::ₘ (db.delete t).tasks := by
    rw [tasks_delete]
    exact Multiset.coe_eq_coe.mpr (db.tasks_put t)
  rw [← queued_delete, queued, hput, Multiset.filter_cons]
  rfl

theorem nodup_queued (db : Store fmt) : db.queued.Nodup :=
  (Multiset.coe_nodup.mpr (List.Nodup.of_map _ db.nodup_tasks)).filter _

end Store

/-! ## Runs of the queue -/

/-- The calls of a program that uses the queue, and its restart. `getNextTask` has the task that the
priority queue returns. -/
inductive QueueOp
  | push (task : Task) (prio : ℤ)
  | getNextTask (task : Task)
  | getNextIdleTask
  | doneTask (task : Task)
  | restart

/-- A queue, and the tasks that were pushed and not passed to `doneTask`, the realtime ones apart. -/
structure QueueRun (fmt : TaskFormat) where
  queue : Queue fmt
  pending : Multiset Task

namespace QueueRun

/-- A queue on an empty database. -/
def start : QueueRun fmt := ⟨.init .empty, 0⟩

/-- One call. A call that is not possible does nothing. -/
def step (r : QueueRun fmt) : QueueOp → QueueRun fmt
  | .push task prio =>
    ⟨r.queue.push task prio true, if task.Queued then task ::ₘ r.pending else r.pending⟩
  | .getNextTask task =>
    if r.queue.Top task then { r with queue := r.queue.getNextTask task } else r
  | .getNextIdleTask =>
    match r.queue.getNextIdleTask with
    | some (_, queue) => { r with queue := queue }
    | none => r
  | .doneTask task => ⟨r.queue.doneTask task, r.pending.erase task⟩
  | .restart => { r with queue := .init r.queue.db }

/-- A restart at this point puts what is pending in the queues. -/
def Recoverable (r : QueueRun fmt) : Prop := (r.step .restart).queue.Holds r.pending

/-- No task is pushed while another one with its id is pending, and no task is done while a different
one with its id is pending. -/
def Guard (r : QueueRun fmt) : QueueOp → Prop
  | .push task _ => ∀ u ∈ r.pending, u.getId ≠ task.getId
  | .doneTask task => ∀ u ∈ r.pending, u.getId = task.getId → u = task
  | _ => True

/-- The restart recovers exactly what is in the store. -/
theorem recoverable_iff {r : QueueRun fmt} : r.Recoverable ↔ r.queue.db.queued = r.pending := by
  constructor
  · intro hr
    rw [← hr.union]
    exact (Queue.holds_init r.queue.db).union.symm
  · intro hpending
    rw [Recoverable, ← hpending]
    exact Queue.holds_init r.queue.db

section Steps

variable {r : QueueRun fmt} {task : Task} {prio : ℤ}

theorem recoverable_start : (start : QueueRun fmt).Recoverable := recoverable_iff.mpr rfl

/-- A push recovers the tasks whose ids it does not use again. -/
theorem recoverable_push_iff (hr : r.Recoverable) :
    (r.step (.push task prio)).Recoverable ↔ r.Guard (.push task prio) := by
  have hdb : (r.step (.push task prio)).queue.db.queued =
      (if task.Queued then {task} else 0) + r.pending.filter fun u => u.getId ≠ task.getId := by
    rw [← recoverable_iff.mp hr, ← Store.queued_put]
    exact congrArg Store.queued (r.queue.db_push task prio)
  have hpending : (r.step (.push task prio)).pending =
      (if task.Queued then {task} else 0) + r.pending := by
    rw [step]
    split_ifs
    · rw [Multiset.singleton_add]
    · rw [Multiset.zero_add]
  -- Both sides gain the task, so they agree exactly if the filter drops nothing.
  rw [recoverable_iff, hdb, hpending, Multiset.add_right_inj, Multiset.filter_eq_self, Guard]

/-- A task that is done takes its own entry out of the store, and no other. -/
theorem recoverable_doneTask_iff (hr : r.Recoverable) :
    (r.step (.doneTask task)).Recoverable ↔ r.Guard (.doneTask task) := by
  have hdb : (r.step (.doneTask task)).queue.db.queued
      = r.pending.filter fun u => u.getId ≠ task.getId := by
    rw [← recoverable_iff.mp hr]
    exact r.queue.db.queued_delete task
  -- The ids in the store are distinct, so that `erase` is a filter as well.
  have hnodup : r.pending.Nodup := by
    rw [← recoverable_iff.mp hr]
    exact r.queue.db.nodup_queued
  have hpending : (r.step (.doneTask task)).pending = r.pending.filter (· ≠ task) :=
    hnodup.erase_eq_filter task
  rw [recoverable_iff, hdb, hpending, Guard]
  constructor
  · intro heq u hu hid
    by_contra hne
    have hkept : u ∈ r.pending.filter (· ≠ task) := Multiset.mem_filter.mpr ⟨hu, hne⟩
    rw [← heq] at hkept
    exact (Multiset.mem_filter.mp hkept).2 hid
  · intro hguard
    refine Multiset.filter_congr fun u hu => not_congr ⟨hguard u hu, ?_⟩
    rintro rfl
    rfl

/-- Every other call leaves the store and what is pending as they are. -/
theorem recoverable_step_iff (hr : r.Recoverable) (op : QueueOp) :
    (r.step op).Recoverable ↔ r.Guard op := by
  cases op with
  | push task prio => exact recoverable_push_iff hr
  | doneTask task => exact recoverable_doneTask_iff hr
  -- What is in memory is lost in a restart anyway.
  | getNextTask task =>
    refine iff_of_true ?_ trivial
    rw [step]
    split_ifs
    · exact hr
    · exact hr
  | getNextIdleTask =>
    refine iff_of_true ?_ trivial
    rw [step, Queue.getNextIdleTask]
    cases r.queue.taskListIdle with
    | nil => exact hr
    | cons task rest => exact hr
  | restart =>
    refine iff_of_true (recoverable_iff.mpr ?_) trivial
    rw [step, Queue.db_init]
    exact recoverable_iff.mp hr

end Steps

end QueueRun

/-- **When the store of the pitcher is crash safe.** For every sequence of calls of the queue and of
restarts, from an empty database: a restart at whatever point puts back in the queues exactly the tasks
that were pushed and are not done, each in the queue of its priority, if and only if no task is pushed
while another one with its id is pending, and none is done while a different one with its id is
pending. -/
theorem always_recoverable_iff (fmt : TaskFormat) (ops : List QueueOp) :
    Always QueueRun.step QueueRun.Recoverable (QueueRun.start : QueueRun fmt) ops ↔
      ∃ r, Run QueueRun.step QueueRun.Guard (QueueRun.start : QueueRun fmt) ops r :=
  always_iff_exists_run QueueRun.recoverable_start (fun _ hr => hr)
    (fun _ op hr hguard => (QueueRun.recoverable_step_iff hr op).mpr hguard)
    (fun _ op hr hguard => mt (QueueRun.recoverable_step_iff hr op).mp hguard)

/-- The task that a client without ids of its own sends. -/
def sampleTask (name : UInt8) : Task := { name := some [name], id := some 0, priority := some .normal }

/-- Two tasks with the id 0: a restart recovers one of them. -/
theorem not_always_recoverable_sample :
    ¬ Always QueueRun.step QueueRun.Recoverable (QueueRun.start : QueueRun taskFormat)
      [.push (sampleTask 97) 2, .push (sampleTask 98) 2] := by
  intro halways
  have hfirst := halways 1
  have hguard := (QueueRun.recoverable_push_iff hfirst).mp (halways 2)
  exact hguard (sampleTask 97) (by decide) rfl

end Mavicona.Pitch
