import Mathlib.Algebra.Order.Group.Multiset
import Mavicona.Pitch.QueueRecovery

/-!
# Accepting and provisioning tasks

Reference: `pitch/pitcher.cpp`, `pitch/provision.cpp`.

The pitcher has two threads. The main loop receives a task, puts it in the store and in a queue, and
replies `QUEUED`. `Provision::runTask` takes the next task from the queues, sends it to the chella master
as a job, and deletes its entry from the store. A step of the model is one call on the queue, or one
message; the steps of the two threads interleave freely.
-/

namespace Mavicona.Pitch

open Trace Mavicona.Chella

variable {fmt : TaskFormat}

/-! ## The two threads -/

/-- Where the main loop is. -/
inductive Acceptance
  | waiting
  | received (task : Task)
  | stored (task : Task) (prio : ℤ)
  | handled (task : Task)

/-- Where `Provision::runTask` is. `accepted` is in the branch of the priority queue and `slow` in the
one of the idle queue. -/
inductive Provisioning
  | waiting
  | accepted (task : Task)
  | sent (task : Task)
  | slow (task : Task)

/-- The task that is in the store and in no queue yet. -/
def Acceptance.entering : Acceptance → Multiset Task
  | .stored task _ => {task}
  | _ => 0

/-- The task that is about to be acknowledged, if it was put in a queue. -/
def Acceptance.entered : Acceptance → Multiset Task
  | .handled task => if task.Queued then {task} else 0
  | _ => 0

/-- The task that is being provisioned and was not sent. -/
def Provisioning.current : Provisioning → Multiset Task
  | .accepted task | .slow task => {task}
  | _ => 0

/-- The job that `Provision::runTask` builds, where `counter` is the content of `libdso_counter.so`. -/
def processJob (counter : Bytes) (task : Task) : ProcessJob where
  name := some task.getName
  id := some task.getId
  quid := some task.getQuid
  state := some .spawn
  content := some counter

/-- `parseTask`. -/
def parseTask (taskQueue : Queue fmt) (task : Task) : Queue fmt := Queue.dispatch true taskQueue task

/-- The tasks in the two queues. -/
def Queue.tasks (q : Queue fmt) : Multiset Task := q.taskList + (q.taskListIdle : Multiset Task)

/-! ## The pitcher -/

/-- The state of the pitcher, with the tasks that were ever in the store, those whose sender received
the reply `QUEUED`, and the jobs that were sent with the tasks they were made from. -/
structure Pitcher (fmt : TaskFormat) where
  queue : Queue fmt
  acceptance : Acceptance
  provisioning : Provisioning
  stored : Multiset Task
  acked : Multiset Task
  sent : List (Task × ProcessJob)

/-- A step of one of the threads. -/
inductive PitcherStep
  | receive (task : Task)
  | parseTask
  | reply
  | getNextTask (task : Task)
  | getNextIdleTask
  | send (counter : Bytes)
  | doneTask

namespace Pitcher

/-- A pitcher that was just started on a database. -/
def init (db : Store fmt) : Pitcher fmt := ⟨.init db, .waiting, .waiting, db.queued, 0, []⟩

/-- The first half of `Queue::push`. -/
def storeTask (p : Pitcher fmt) (task : Task) (prio : ℤ) : Pitcher fmt :=
  { p with queue := p.queue.put task, acceptance := .stored task prio, stored := task ::ₘ p.stored }

/-- The second half of `Queue::push`. -/
def enqueueTask (p : Pitcher fmt) (task : Task) (prio : ℤ) : Pitcher fmt :=
  { p with queue := p.queue.enqueue task prio, acceptance := .handled task }

/-- The reply `QUEUED`. -/
def ackTask (p : Pitcher fmt) (task : Task) : Pitcher fmt :=
  { p with acceptance := .waiting, acked := task ::ₘ p.acked }

/-- A job is sent to the master. -/
def sendTask (p : Pitcher fmt) (counter : Bytes) (task : Task) : Pitcher fmt :=
  { p with provisioning := .sent task, sent := p.sent ++ [(task, processJob counter task)] }

/-- The entry of the task is deleted. -/
def finishTask (p : Pitcher fmt) (task : Task) : Pitcher fmt :=
  { p with queue := p.queue.doneTask task, provisioning := .waiting }

/-- One step. A step that is not possible does nothing. -/
def step (p : Pitcher fmt) : PitcherStep → Pitcher fmt
  | .receive task =>
    match p.acceptance with
    | .waiting => { p with acceptance := .received task }
    | _ => p
  | .parseTask =>
    match p.acceptance with
    | .received task =>
      match Queue.prioOf task.getPriority with
      | some prio => p.storeTask task prio
      | none => { p with acceptance := .handled task }
    | .stored task prio => p.enqueueTask task prio
    | _ => p
  | .reply =>
    match p.acceptance with
    | .handled task => p.ackTask task
    | _ => p
  | .getNextTask task =>
    match p.provisioning with
    | .waiting =>
      if p.queue.Top task then
        { p with queue := p.queue.getNextTask task, provisioning := .accepted task }
      else p
    | _ => p
  | .getNextIdleTask =>
    match p.provisioning with
    | .waiting =>
      -- The idle queue has its turn when the other one is empty.
      if p.queue.taskList = 0 then
        match p.queue.getNextIdleTask with
        | some (task, queue) => { p with queue := queue, provisioning := .slow task }
        | none => p
      else p
    | _ => p
  | .send counter =>
    match p.provisioning with
    | .accepted task => p.sendTask counter task
    | _ => p
  | .doneTask =>
    match p.provisioning with
    | .sent task | .slow task => p.finishTask task
    | _ => p

/-- The tasks in the two queues, and the one that is being provisioned. -/
def held (p : Pitcher fmt) : Multiset Task := p.queue.tasks + p.provisioning.current

/-- The tasks that were sent. -/
def sentTasks (p : Pitcher fmt) : Multiset Task := (p.sent.map Prod.fst : List Task)

/-- The tasks that are stored and have to be sent. -/
def unsent (p : Pitcher fmt) : Multiset Task := p.held + p.acceptance.entering

/-- Every acknowledged task is in a queue, is being provisioned or was sent, and as long as a task that
was stored is not sent its entry is in the store. -/
structure Safe (p : Pitcher fmt) : Prop where
  acked : p.acked ≤ p.held + p.sentTasks
  kept : ∀ t ∈ p.stored - p.sentTasks, (t.key, fmt.serialize t) ∈ p.queue.db.entries

/-- The condition on a step: a task is stored while no different one with its id has to be sent, a task
that is acknowledged is not a realtime one, a task that was sent is done while none with its id has to
be sent, and no task is done in the branch of the idle queue. -/
def Guard (p : Pitcher fmt) : PitcherStep → Prop
  | .parseTask =>
    match p.acceptance with
    | .received task => task.Queued → ∀ u ∈ p.unsent, u.getId = task.getId → u = task
    | _ => True
  | .reply =>
    match p.acceptance with
    | .handled task => task.Queued
    | _ => True
  | .doneTask =>
    match p.provisioning with
    | .sent task => ∀ u ∈ p.unsent, u.getId ≠ task.getId
    | .slow _ => False
    | _ => True
  | _ => True

/-- The two steps of `parseTask`, with nothing in between. -/
theorem queue_parseTask (p : Pitcher fmt) (task : Task) (hwaiting : p.acceptance = .waiting) :
    (((p.step (.receive task)).step .parseTask).step .parseTask).queue
      = Pitch.parseTask p.queue task := by
  obtain ⟨queue, acceptance, provisioning, stored, acked, sent⟩ := p
  obtain rfl : acceptance = .waiting := hwaiting
  simp only [step, Pitch.parseTask, Queue.dispatch]
  cases Queue.prioOf task.getPriority with
  | none => rfl
  | some prio => rfl

end Pitcher

/-! ## The tasks in the queues -/

namespace Queue

section Tasks

variable {q : Queue fmt} {task : Task} {prio : ℤ}

theorem tasks_enqueue : (q.enqueue task prio).tasks = q.tasks + {task} := by
  rw [enqueue]
  split_ifs
  · rw [tasks, tasks, ← Multiset.coe_add, ← Multiset.add_assoc, Multiset.coe_singleton]
  · rw [tasks, tasks, Multiset.cons_add, Multiset.add_comm _ {task}, Multiset.singleton_add]

theorem tasks_getNextTask (htop : q.Top task) : (q.getNextTask task).tasks + {task} = q.tasks := by
  rw [tasks, tasks, Multiset.add_comm _ {task}, Multiset.singleton_add, ← Multiset.cons_add,
    getNextTask, Multiset.cons_erase htop.1]

theorem tasks_getNextIdleTask {q' : Queue fmt} (hnext : q.getNextIdleTask = some (task, q')) :
    q'.tasks + {task} = q.tasks ∧ q'.db = q.db := by
  obtain ⟨taskList, taskListIdle, db⟩ := q
  cases taskListIdle with
  | nil => exact absurd hnext (by simp [getNextIdleTask])
  | cons first rest =>
    obtain ⟨rfl, rfl⟩ := Prod.mk.inj (Option.some.inj hnext)
    refine ⟨?_, rfl⟩
    rw [tasks, tasks, Multiset.add_assoc, ← Multiset.cons_coe, ← Multiset.singleton_add,
      Multiset.add_comm {first}]

end Tasks

end Queue

namespace Pitcher

/-! ## The invariant -/

/-- A task that was stored has to be sent or was sent; one that has to be sent is in the store; and one
that is or will be acknowledged is in the hands of the pitcher. -/
structure Accounted (p : Pitcher fmt) : Prop where
  stored : p.stored = p.unsent + p.sentTasks
  queued : ∀ t ∈ p.stored, t.Queued
  acked : p.acked + p.acceptance.entered ≤ p.held + p.sentTasks
  kept : ∀ t ∈ p.unsent, t ∈ p.queue.db.tasks

theorem accounted_init (db : Store fmt) : (init db).Accounted := by
  have htasks : (Queue.init db).tasks = db.queued := (Queue.holds_init db).union
  have hunsent : (init db).unsent = db.queued := by
    rw [unsent, held, ← htasks]
    exact (Multiset.add_zero _).trans (Multiset.add_zero _)
  refine ⟨?_, ?_, Multiset.zero_le _, ?_⟩
  · rw [hunsent]
    exact (Multiset.add_zero _).symm
  · intro t ht
    exact (db.mem_queued.mp ht).2
  · intro t ht
    rw [hunsent] at ht
    rw [init, Queue.db_init]
    exact (db.mem_queued.mp ht).1

theorem Accounted.safe {p : Pitcher fmt} (hp : p.Accounted) : p.Safe := by
  refine ⟨(Multiset.le_add_right _ _).trans hp.acked, ?_⟩
  intro t ht
  rw [hp.stored, Multiset.add_sub_cancel_right] at ht
  exact p.queue.db.mem_tasks.mp (hp.kept t ht)

/-- A step that stores and sends nothing keeps the account, if it keeps the tasks that have to be sent. -/
theorem Accounted.transfer {p p' : Pitcher fmt} (hp : p.Accounted) (hstored : p'.stored = p.stored)
    (hsent : p'.sent = p.sent) (hunsent : p'.unsent = p.unsent)
    (hacked : p'.acked + p'.acceptance.entered ≤ p'.held + p.sentTasks)
    (hkept : ∀ t ∈ p.unsent, t ∈ p'.queue.db.tasks) : p'.Accounted := by
  have hsentTasks : p'.sentTasks = p.sentTasks := by rw [sentTasks, sentTasks, hsent]
  refine ⟨?_, ?_, ?_, ?_⟩
  · rw [hstored, hunsent, hsentTasks]
    exact hp.stored
  · rw [hstored]
    exact hp.queued
  · rw [hsentTasks]
    exact hacked
  · rw [hunsent]
    exact hkept

/-- What was stored and not sent is in the store. -/
theorem Safe.mem_tasks {p : Pitcher fmt} (hp : p.Safe) {tasks : Multiset Task} {u : Task}
    (hstored : p.stored = tasks + p.sentTasks) (hu : u ∈ tasks) : u ∈ p.queue.db.tasks := by
  refine p.queue.db.mem_tasks.mpr (hp.kept u ?_)
  rwa [hstored, Multiset.add_sub_cancel_right]

/-! ## The steps of the main loop -/

section Acceptance

variable {p : Pitcher fmt} {task : Task} {prio : ℤ}

theorem unsent_eq_held (hentering : p.acceptance.entering = 0) : p.unsent = p.held := by
  rw [unsent, hentering, Multiset.add_zero]

theorem stored_storeTask (hp : p.Accounted) :
    (p.storeTask task prio).stored = (p.unsent + {task}) + (p.storeTask task prio).sentTasks := by
  show task ::ₘ p.stored = p.unsent + {task} + p.sentTasks
  rw [hp.stored, Multiset.add_comm p.unsent {task}, Multiset.singleton_add, Multiset.cons_add]

/-- A task is stored while no different one with its id has to be sent. -/
theorem Accounted.storeTask (hp : p.Accounted) (hreceived : p.acceptance = .received task)
    (hqueued : task.Queued) (hguard : ∀ u ∈ p.unsent, u.getId = task.getId → u = task) :
    (p.storeTask task prio).Accounted := by
  have hheld : p.unsent = p.held := unsent_eq_held (by rw [hreceived]; rfl)
  have hunsent : (p.storeTask task prio).unsent = p.unsent + {task} := by
    rw [hheld]
    rfl
  refine ⟨?_, ?_, ?_, ?_⟩
  · rw [hunsent]
    exact stored_storeTask hp
  · intro t ht
    rcases Multiset.mem_cons.mp ht with rfl | ht
    · exact hqueued
    · exact hp.queued t ht
  · have hacked := hp.acked
    rw [hreceived] at hacked
    exact hacked
  · intro u hu
    rw [hunsent] at hu
    refine p.queue.db.mem_tasks_put.mpr ?_
    -- An earlier task with the id of the new one is the new one, by the guard.
    rcases Multiset.mem_add.mp hu with hu | hu
    · by_cases hid : u.getId = task.getId
      · exact .inl (hguard u hu hid)
      · exact .inr ⟨hp.kept u hu, hid⟩
    · exact .inl (Multiset.mem_singleton.mp hu)

/-- A task that is stored over a different one takes its entry away. -/
theorem Accounted.not_safe_storeTask (hp : p.Accounted) {u : Task} (hu : u ∈ p.unsent)
    (hid : u.getId = task.getId) (hne : u ≠ task) : ¬ (p.storeTask task prio).Safe := by
  intro hsafe
  have hkept := hsafe.mem_tasks (stored_storeTask hp) (Multiset.mem_add.mpr (.inl hu))
  rcases p.queue.db.mem_tasks_put.mp hkept with heq | ⟨-, hother⟩
  · exact hne heq
  · exact hother hid

/-- A task goes from the store to its queue. -/
theorem Accounted.enqueueTask (hp : p.Accounted) (hstored : p.acceptance = .stored task prio) :
    (p.enqueueTask task prio).Accounted := by
  have hunsentOld : p.unsent = p.held + {task} := by
    rw [unsent, hstored]
    rfl
  have hheld : (p.enqueueTask task prio).held = p.held + {task} := by
    rw [held, held, add_right_comm]
    exact congrArg (· + p.provisioning.current) Queue.tasks_enqueue
  have hunsent : (p.enqueueTask task prio).unsent = p.unsent := by
    rw [unsent_eq_held rfl, hheld, hunsentOld]
  have hqueued : task.Queued := by
    refine hp.queued task ?_
    rw [hp.stored, hunsentOld]
    simp
  refine hp.transfer rfl rfl hunsent ?_ ?_
  · have hacked : p.acked ≤ p.held + p.sentTasks := (Multiset.le_add_right _ _).trans hp.acked
    have hentered : (p.enqueueTask task prio).acceptance.entered = {task} := if_pos hqueued
    rw [hentered, hheld, add_right_comm]
    exact Multiset.add_le_add_iff_right.mpr hacked
  · rw [Pitcher.enqueueTask, Queue.db_enqueue]
    exact hp.kept

/-- The main loop moves on with the queue as it is. -/
theorem Accounted.move (hp : p.Accounted) {acceptance : Acceptance}
    (hentering : acceptance.entering = p.acceptance.entering)
    (hentered : acceptance.entered = p.acceptance.entered) :
    ({ p with acceptance := acceptance } : Pitcher fmt).Accounted := by
  refine hp.transfer rfl rfl (congrArg (p.held + ·) hentering) ?_ hp.kept
  rw [hentered]
  exact hp.acked

/-- A task that was put in a queue is acknowledged. -/
theorem Accounted.ackTask (hp : p.Accounted) (hhandled : p.acceptance = .handled task)
    (hqueued : task.Queued) : (p.ackTask task).Accounted := by
  have hunsent : (p.ackTask task).unsent = p.unsent := by
    rw [unsent_eq_held rfl, unsent_eq_held (p := p) (by rw [hhandled]; rfl)]
    rfl
  have hentered : p.acceptance.entered = {task} := by
    rw [hhandled]
    exact if_pos hqueued
  have hacked := hp.acked
  rw [hentered, Multiset.add_comm, Multiset.singleton_add] at hacked
  exact hp.transfer rfl rfl hunsent ((Multiset.add_zero _).le.trans hacked) hp.kept

/-- A realtime task that is acknowledged is nowhere. -/
theorem Accounted.not_safe_ackTask (hp : p.Accounted) (hrealtime : ¬ task.Queued) :
    ¬ (p.ackTask task).Safe := by
  intro hsafe
  have hheld : task ∈ p.held + p.sentTasks :=
    Multiset.mem_of_le hsafe.acked (Multiset.mem_cons_self _ _)
  -- Whatever the pitcher holds or has sent was stored, and no realtime task ever is.
  refine hrealtime (hp.queued task ?_)
  rw [hp.stored, unsent]
  rcases Multiset.mem_add.mp hheld with hheld | hsent
  · exact Multiset.mem_add.mpr (.inl (Multiset.mem_add.mpr (.inl hheld)))
  · exact Multiset.mem_add.mpr (.inr hsent)

end Acceptance

/-! ## The steps of `Provision::runTask` -/

section Provisioning

variable {p : Pitcher fmt} {task : Task}

/-- A task goes from a queue to the thread. -/
theorem Accounted.take (hp : p.Accounted) {queue : Queue fmt} {provisioning : Provisioning}
    (hwaiting : p.provisioning = .waiting) (hcurrent : provisioning.current = {task})
    (htasks : queue.tasks + {task} = p.queue.tasks) (hdb : queue.db = p.queue.db) :
    ({ p with queue := queue, provisioning := provisioning } : Pitcher fmt).Accounted := by
  have hheld : queue.tasks + provisioning.current = p.held := by
    rw [held, hcurrent, htasks, hwaiting]
    exact (Multiset.add_zero _).symm
  refine hp.transfer rfl rfl (congrArg (· + p.acceptance.entering) hheld) ?_ ?_
  · rw [held, hheld]
    exact hp.acked
  · rw [hdb]
    exact hp.kept

/-- A task is sent. -/
theorem Accounted.sendTask (hp : p.Accounted) (haccepted : p.provisioning = .accepted task)
    (counter : Bytes) : (p.sendTask counter task).Accounted := by
  have hsent : (p.sendTask counter task).sentTasks = p.sentTasks + {task} := by
    rw [sentTasks, Pitcher.sendTask, List.map_append, ← Multiset.coe_add]
    rfl
  have hheld : p.held = (p.sendTask counter task).held + {task} := by
    rw [held, haccepted]
    exact congrArg (· + {task}) (Multiset.add_zero _).symm
  have hunsent : p.unsent = (p.sendTask counter task).unsent + {task} := by
    rw [unsent, hheld, add_right_comm]
    rfl
  -- The task moves from those that have to be sent to those that were.
  have hmoved : ∀ tasks : Multiset Task,
      tasks + (p.sendTask counter task).sentTasks = tasks + {task} + p.sentTasks := by
    intro tasks
    rw [hsent, add_right_comm, Multiset.add_assoc]
  refine ⟨?_, hp.queued, ?_, ?_⟩
  · rw [hmoved, ← hunsent]
    exact hp.stored
  · rw [hmoved, ← hheld]
    exact hp.acked
  · intro u hu
    refine hp.kept u ?_
    rw [hunsent]
    exact Multiset.mem_add.mpr (.inl hu)

/-- A task that was sent is done, while none with its id has to be sent. -/
theorem Accounted.finishTask (hp : p.Accounted) (hsent : p.provisioning = .sent task)
    (hguard : ∀ u ∈ p.unsent, u.getId ≠ task.getId) : (p.finishTask task).Accounted := by
  have hheld : (p.finishTask task).held = p.held := by
    rw [held, held, hsent]
    rfl
  refine hp.transfer rfl rfl (congrArg (· + p.acceptance.entering) hheld) ?_ ?_
  · rw [hheld]
    exact hp.acked
  · intro u hu
    exact p.queue.db.mem_tasks_delete.mpr ⟨hp.kept u hu, hguard u hu⟩

/-- A task that is done takes away the entry of a task that has to be sent and has its id. -/
theorem Accounted.not_safe_finishTask (hp : p.Accounted) {u : Task} (hu : u ∈ p.unsent)
    (hid : u.getId = task.getId) : ¬ (p.finishTask task).Safe := by
  intro hsafe
  have hkept : u ∈ (p.finishTask task).queue.db.tasks := hsafe.mem_tasks hp.stored hu
  exact (p.queue.db.mem_tasks_delete.mp hkept).2 hid

end Provisioning

/-! ## The whole pitcher -/

section Pitcher

variable {p : Pitcher fmt}

theorem Accounted.step_parseTask (hp : p.Accounted) (hguard : p.Guard .parseTask) :
    (p.step .parseTask).Accounted := by
  rw [Guard] at hguard
  rw [Pitcher.step]
  cases hacceptance : p.acceptance with
  | waiting => exact hp
  | handled task => exact hp
  | stored task prio => exact hp.enqueueTask hacceptance
  | received task =>
    rw [hacceptance] at hguard
    dsimp only
    cases hprio : Queue.prioOf task.getPriority with
    | some prio =>
      have hqueued : task.Queued := Queue.queued_of_prioOf hprio
      exact hp.storeTask hacceptance hqueued (hguard hqueued)
    | none =>
      have hrealtime : ¬ task.Queued := not_not.mpr (Queue.prioOf_eq_none_iff.mp hprio)
      refine hp.move ?_ ?_
      · rw [hacceptance]
        rfl
      · rw [hacceptance]
        exact if_neg hrealtime

theorem Accounted.step_doneTask (hp : p.Accounted) (hguard : p.Guard .doneTask) :
    (p.step .doneTask).Accounted := by
  rw [Guard] at hguard
  rw [Pitcher.step]
  cases hprovisioning : p.provisioning with
  | waiting => exact hp
  | accepted task => exact hp
  | sent task =>
    rw [hprovisioning] at hguard
    exact hp.finishTask hprovisioning hguard
  | slow task =>
    rw [hprovisioning] at hguard
    exact hguard.elim

theorem Accounted.step_getNextIdleTask (hp : p.Accounted) : (p.step .getNextIdleTask).Accounted := by
  rw [Pitcher.step]
  cases hprovisioning : p.provisioning with
  | waiting =>
    by_cases hempty : p.queue.taskList = 0
    · rw [if_pos hempty]
      cases hnext : p.queue.getNextIdleTask with
      | none => exact hp
      | some next =>
        obtain ⟨htasks, hdb⟩ := Queue.tasks_getNextIdleTask hnext
        exact hp.take hprovisioning rfl htasks hdb
    · rw [if_neg hempty]
      exact hp
  | accepted task => exact hp
  | sent task => exact hp
  | slow task => exact hp

theorem Accounted.step (hp : p.Accounted) (a : PitcherStep) (hguard : p.Guard a) :
    (p.step a).Accounted := by
  cases a with
  | parseTask => exact hp.step_parseTask hguard
  | doneTask => exact hp.step_doneTask hguard
  | getNextIdleTask => exact hp.step_getNextIdleTask
  | receive task =>
    rw [Pitcher.step]
    cases hacceptance : p.acceptance with
    | waiting =>
      refine hp.move ?_ ?_
      · rw [hacceptance]
        rfl
      · rw [hacceptance]
        rfl
    | received _ => exact hp
    | stored _ _ => exact hp
    | handled _ => exact hp
  | reply =>
    rw [Guard] at hguard
    rw [Pitcher.step]
    cases hacceptance : p.acceptance with
    | waiting => exact hp
    | received task => exact hp
    | stored task prio => exact hp
    | handled task =>
      rw [hacceptance] at hguard
      exact hp.ackTask hacceptance hguard
  | getNextTask task =>
    rw [Pitcher.step]
    cases hprovisioning : p.provisioning with
    | waiting =>
      by_cases htop : p.queue.Top task
      · rw [if_pos htop]
        exact hp.take hprovisioning rfl (Queue.tasks_getNextTask htop) rfl
      · rw [if_neg htop]
        exact hp
    | accepted _ => exact hp
    | sent _ => exact hp
    | slow _ => exact hp
  | send counter =>
    rw [Pitcher.step]
    cases hprovisioning : p.provisioning with
    | waiting => exact hp
    | accepted task => exact hp.sendTask hprovisioning counter
    | sent _ => exact hp
    | slow _ => exact hp

/-- A step that does not meet the condition loses a task or its entry. -/
theorem Accounted.not_safe (hp : p.Accounted) {a : PitcherStep} (hguard : ¬ p.Guard a) :
    ¬ (p.step a).Safe := by
  cases a with
  | parseTask =>
    rw [Guard] at hguard
    rw [Pitcher.step]
    cases hacceptance : p.acceptance with
    | waiting | handled | stored => exact absurd trivial (by rwa [hacceptance] at hguard)
    | received task =>
      rw [hacceptance] at hguard
      simp only [not_forall] at hguard
      obtain ⟨hqueued, u, hu, hid, hne⟩ := hguard
      dsimp only
      cases hprio : Queue.prioOf task.getPriority with
      | some prio => exact hp.not_safe_storeTask hu hid hne
      | none => exact absurd (Queue.prioOf_eq_none_iff.mp hprio) hqueued
  | reply =>
    rw [Guard] at hguard
    rw [Pitcher.step]
    cases hacceptance : p.acceptance with
    | waiting | received | stored => exact absurd trivial (by rwa [hacceptance] at hguard)
    | handled task =>
      rw [hacceptance] at hguard
      exact hp.not_safe_ackTask hguard
  | doneTask =>
    rw [Guard] at hguard
    rw [Pitcher.step]
    cases hprovisioning : p.provisioning with
    | waiting | accepted => exact absurd trivial (by rwa [hprovisioning] at hguard)
    | sent task =>
      rw [hprovisioning] at hguard
      simp only [not_forall, not_not] at hguard
      obtain ⟨u, hu, hid⟩ := hguard
      exact hp.not_safe_finishTask hu hid
    | slow task =>
      -- The task in the idle branch was never sent itself.
      have hcurrent : task ∈ p.unsent := by
        rw [unsent, held, hprovisioning]
        simp [Provisioning.current]
      exact hp.not_safe_finishTask hcurrent rfl
  | receive | getNextTask | getNextIdleTask | send => exact absurd trivial hguard

end Pitcher

end Pitcher

/-- **When an acknowledged task is never dropped.** For every store the pitcher is started on and every
interleaving of the two threads: at every point each acknowledged task is in a queue, is being
provisioned or was sent, and no task loses its entry in the store before it is sent, if and only if in
every step a task is stored while no different one with its id has to be sent, a task that is
acknowledged is not a realtime one, a task that was sent is done while none with its id has to be sent,
and no task is done in the branch of the idle queue. -/
theorem always_safe_iff (db : Store fmt) (steps : List PitcherStep) :
    Always Pitcher.step Pitcher.Safe (Pitcher.init db) steps ↔
      ∃ p, Run Pitcher.step Pitcher.Guard (Pitcher.init db) steps p :=
  always_iff_exists_run (Pitcher.accounted_init db) (fun _ hp => hp.safe)
    (fun _ a hp hguard => hp.step a hguard) (fun _ _ hp hguard => hp.not_safe hguard)

/-- An idle task that is acknowledged, taken from its queue and done, without being sent. -/
theorem not_always_safe_sample :
    ¬ Always Pitcher.step Pitcher.Safe (Pitcher.init (Store.empty : Store taskFormat))
      [.receive { id := some 0, priority := some .idle }, .parseTask, .parseTask, .reply,
        .getNextIdleTask, .doneTask] := by
  intro halways
  exact absurd (halways 6).acked (by decide)

end Mavicona.Pitch
