import Mavicona.Chella.WriteAhead

/-!
# The lock of the job home

Reference: `chella/exec.cpp` (`Execute::run`), `chella/localenv.cpp`, `chella/controlclient.h`.

A run that has found its package waits until the job home is not locked, and locks it. The lock is
removed by `LocalEnv::teardown`, which only the code behind `py_failed` reaches; the same code marks the
log done and stops the thread of the controller. Every step before the first call into the job returns
without any of these. Such a return destroys a `std::thread` that still runs, which ends the process.

`Worker.run` runs one job after the other on a worker; a run that finds its home locked waits for
ever, since nobody else is there to remove the lock.
-/

namespace Mavicona.Chella

open Bytes Trace

/-! ## The effects of a run -/

namespace Execute

/-- Reports and checkpoints, which neither lock the home nor mark the log done. -/
def Quiet : Event → Prop
  | .act (.report _) => True
  | .wal (.setCheckpoint _) => True
  | _ => False

/-- A stage that only reports. -/
structure Stage.Reports (s : Stage) : Prop where
  before : ∀ a ∈ s.before, ∃ state, a = .report state
  after : ∀ a ∈ s.after, ∃ state, a = .report state

theorem Stage.Reports.early (ok : Bool) : (Stage.early ok).Reports :=
  ⟨fun _ h => absurd h List.not_mem_nil, fun _ h => absurd h List.not_mem_nil⟩

end Execute

/-! ## A worker that runs one job after the other -/

/-- A job that is given to `Execute::run`, with what its surroundings decide: the times of its log
operations, how its steps turn out, whether the log can be opened, and whether `MXLOCK` can be created
and removed. A step that throws ends the process, as one that fails does. -/
structure Job where
  module : Bytes
  param : Parameter
  clock : ℕ → ℕ
  outcome : Outcome
  logOpens : Bool
  lockOpens : Bool
  unlinks : Bool

namespace Job

/-- The process dies in the constructor of the log. -/
def aborts (j : Job) : Bool := !j.logOpens || WalOp.construct.aborts j.module j.param

/-- The effects of the run. Nobody else holds the lock, so it is not waited for. -/
def events (j : Job) : List Event :=
  Execute.run j.param.jobstate { j.outcome with forked := false, waits := 0 }

/-- The run returns: in front of the destructor of the log it stops the controller, whose thread ends the
process otherwise. -/
def returns (j : Job) : Bool := j.events.contains (.wal .destroy)

/-- Whether the home is locked after an effect of the run. -/
def stepLock (j : Job) (locked : Bool) : Event → Bool
  | .act .setLock => locked || j.lockOpens
  | .act .teardown => locked && !j.unlinks
  | _ => locked

/-- The log the run leaves, once its stream is flushed. -/
def log (bufsiz : ℕ) (j : Job) : ByteFile :=
  ((microSteps j.module j.param j.clock .nil 0 j.events).foldl (Process.step bufsiz)
    Process.start).log.flush.disk

end Job

/-- The packages whose home is locked, the logs of the runs that have returned, and whether a run
waits for a lock. -/
structure Worker where
  locked : Bytes → Bool
  returned : List ByteFile
  waiting : Bool

namespace Worker

/-- No job has been run. -/
def fresh : Worker := ⟨fun _ => false, [], false⟩

/-- Run a job to its end. A run that finds its home locked never comes back. A run that ends its process
is followed by the next job as well: in the parent of the fork, or in the worker that is started again. -/
def run (bufsiz : ℕ) (w : Worker) (j : Job) : Worker :=
  if w.waiting then w
  else if j.aborts then w
  else if j.outcome.packageExists && w.locked j.module then { w with waiting := true }
  else
    { w with
      locked := Function.update w.locked j.module (j.events.foldl j.stepLock (w.locked j.module))
      returned := if j.returns then w.returned ++ [j.log bufsiz] else w.returned }

/-- No home is locked, no run waits, and the log of every run that returned is marked done. -/
structure Clean (w : Worker) : Prop where
  locked : ∀ package, w.locked package = false
  waiting : w.waiting = false
  returned : ∀ log ∈ w.returned, (onDisk log).done ≠ 0

end Worker

/-! ## The lock a run leaves -/

section Lock

variable {j : Job}

end Lock

/-! ## The log a run leaves -/

section Log

variable {bufsiz : ℕ} {module : Bytes} {param : Parameter} {clock : ℕ → ℕ} {isDone : Bool}
  {p : Process}

/-- Once flushed, the log has the header of the job with this mark. -/
def Headed (module : Bytes) (param : Parameter) (isDone : Bool) (p : Process) : Prop :=
  ∃ checkpoint time,
    p.log.flush.disk.slice 0 152 = (Wal.header module param checkpoint isDone time).encode

/-- Only the stream matters. -/
theorem Headed.ret (hp : Headed module param isDone p) (op : WalOp) :
    Headed module param isDone (p.step bufsiz (.ret op)) := hp

end Log

/-! ## Whether a run leaves the worker clean -/

namespace Job

variable {j : Job}

end Job

end Mavicona.Chella
