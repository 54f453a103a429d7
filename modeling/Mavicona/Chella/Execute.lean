import Mavicona.Chella.Wal

/-!
# Running a job

Reference: `chella/exec.cpp` (`Execute::run`), `chella/localenv.cpp`.

`run` gives the effects of `Execute::run` in order: the operations on the log, and the acts on the
controller and the job home. What the package, the Python interpreter and the job do is an `Outcome`,
one field for each step that can fail. The source is a sequence of such steps, each with its own way
out: most return at once and leave the log open, those behind `inject` jump to the cleanup.
-/

namespace Mavicona.Chella

/-- An operation on the log of a run. -/
inductive WalOp
  | construct
  | setCheckpoint (checkpoint : Checkpoint)
  | markDone
  | destroy
deriving DecidableEq, Repr

/-- The states a worker reports to its controller. -/
inductive WorkerState
  | accepted
  | idle
  | awaiting
  | setup
  | running
  | teardown
  | failed
deriving DecidableEq, Repr

/-- What a run does besides logging: reporting a state, `LocalEnv::setLock` and `LocalEnv::teardown`,
which removes the lock. -/
inductive Act
  | report (state : WorkerState)
  | setLock
  | teardown
deriving DecidableEq, Repr

/-- An effect of a run. -/
inductive Event
  | wal (op : WalOp)
  | act (a : Act)
deriving DecidableEq, Repr

/-- How the steps of a run turn out. -/
structure Outcome where
  /-- The process is the parent of a fork. -/
  forked : Bool
  packageExists : Bool
  /-- How often the lock of the job home was found taken. -/
  waits : ℕ
  hasHome : Bool
  setupHome : Bool
  setupEnv : Bool
  packageMain : Bool
  packageInvoke : Bool
  decodeLocale : Bool
  importModule : Bool
  instanceConfig : Bool
  instanceCallback : Bool
  instanceDB : Bool
  funcJobInit : Bool
  instanceJobInit : Bool
  funcJobInvoke : Bool
  instanceJob : Bool
  injectCfg : Bool
  injectIpc : Bool
  injectDb : Bool
  inject : Bool
  updateStatus : Bool
  setupOnce : Bool
  setup : Bool
  run : Bool
  teardown : Bool
  memberChains : Bool
  chainsIsList : Bool
  /-- `PyList_Size(pMemberChains)`. -/
  chainsSize : ℕ
  teardownOnce : Bool

namespace Execute

/-- The way out of a step that fails: `return true`, or `goto py_failed`. -/
inductive Exit
  | leave (acts : List Act)
  | failed

/-- A step: what precedes it, whether it succeeds, the way out, and what follows it. -/
structure Stage where
  before : List Act
  ok : Bool
  exit : Exit
  after : List Act
  checkpoint : Option Checkpoint

/-- A step that returns at once when it fails. -/
def Stage.early (ok : Bool) : Stage := ⟨[], ok, .leave [], [], none⟩

/-- A call into the job. -/
def Stage.call (before : List Act) (ok : Bool) (checkpoint : Option Checkpoint) : Stage :=
  ⟨before, ok, .failed, [], checkpoint⟩

/-- The code behind `py_failed`. -/
def cleanup : List Event :=
  [.wal .markDone, .act .teardown, .act (.report .idle), .wal .destroy]

def Exit.events : Exit → List Event
  | .leave acts => acts.map .act
  | .failed => .act (.report .failed) :: cleanup

/-- Run the steps one after the other, up to the first that fails. -/
def runStages : List Stage → List Event
  | [] => cleanup
  | s :: ss =>
    s.before.map .act ++
      if s.ok then
        s.after.map .act ++ ((s.checkpoint.map fun c => .wal (.setCheckpoint c)).toList ++ runStages ss)
      else s.exit.events

/-- The steps up to the instance of the job. -/
def prepareStages (o : Outcome) : List Stage :=
  [⟨[], o.packageExists, .leave [.report .idle], List.replicate o.waits (.report .awaiting), none⟩,
    ⟨[], o.hasHome || o.setupHome, .leave [], [.setLock], none⟩,
    .early o.setupEnv,
    ⟨[], o.packageMain && o.packageInvoke, .leave [], [], some .init⟩,
    .early o.decodeLocale,
    ⟨[], o.importModule, .leave [], [], some .load⟩,
    .early o.instanceConfig, .early o.instanceCallback, .early o.instanceDB,
    .early o.funcJobInit, .early o.instanceJobInit, .early o.funcJobInvoke, .early o.instanceJob,
    .early o.injectCfg, .early o.injectIpc, .early o.injectDb]

/-- The calls into the job. -/
def jobStages (jobstate : JobState) (o : Outcome) : List Stage :=
  [.call [] o.inject none, .call [] o.updateStatus (some .inject)] ++
  (if jobstate = .spawn then [.call [] o.setupOnce (some .setupOnce)] else []) ++
  [.call [.report .setup] o.setup (some .setup),
    .call [.report .running] o.run (some .run),
    .call [.report .teardown] o.teardown (some .teardown),
    .call [] o.memberChains none,
    .call [] o.chainsIsList none] ++
  (if jobstate = .funnel ∨ jobstate = .spawn ∧ o.chainsSize = 0 then
    [.call [] o.teardownOnce (some .teardownOnce)] else []) ++
  [.call [] true (some .pullchain)]

/-- `Execute::run`. The parent of a fork returns before anything else. -/
def run (jobstate : JobState) (o : Outcome) : List Event :=
  if o.forked then []
  else
    .wal .construct :: .act (.report .accepted) ::
      runStages (prepareStages o ++ jobStages jobstate o)

/-! ## The log operations of a run -/

/-- The log operations among the effects. -/
def walOps (es : List Event) : List WalOp :=
  es.filterMap fun
    | .wal op => some op
    | .act _ => none

@[simp] theorem walOps_nil : walOps [] = [] := rfl

@[simp] theorem walOps_cons_wal (op : WalOp) (es : List Event) :
    walOps (.wal op :: es) = op :: walOps es := rfl

@[simp] theorem walOps_cons_act (a : Act) (es : List Event) : walOps (.act a :: es) = walOps es := rfl

@[simp] theorem walOps_append (es fs : List Event) : walOps (es ++ fs) = walOps es ++ walOps fs :=
  List.filterMap_append

@[simp] theorem walOps_map_act (acts : List Act) : walOps (acts.map .act) = [] := by
  induction acts with
  | nil => rfl
  | cons a acts ih => exact ih

/-- The steps log some of their checkpoints, in order, and then end with the log marked done and
closed, or leave it open. -/
theorem walOps_runStages (ss : List Stage) :
    ∃ (cs : List Checkpoint) (tail : List WalOp),
      walOps (runStages ss) = cs.map .setCheckpoint ++ tail ∧
      cs.Sublist (ss.filterMap Stage.checkpoint) ∧ (tail = [] ∨ tail = [.markDone, .destroy]) := by
  induction ss with
  | nil => exact ⟨[], [.markDone, .destroy], rfl, List.Sublist.refl _, .inr rfl⟩
  | cons s ss ih =>
    obtain ⟨cs, tail, hops, hsub, htail⟩ := ih
    by_cases hok : s.ok = true
    · cases hcheckpoint : s.checkpoint with
      | none =>
        refine ⟨cs, tail, ?_, ?_, htail⟩
        · simp [runStages, hok, hcheckpoint, hops]
        · simpa [hcheckpoint] using hsub
      | some c =>
        refine ⟨c :: cs, tail, ?_, ?_, htail⟩
        · simp [runStages, hok, hcheckpoint, hops]
        · simpa [hcheckpoint] using hsub
    · cases hexit : s.exit with
      | leave acts =>
        exact ⟨[], [], by simp [runStages, hok, hexit, Exit.events], List.nil_sublist _, .inl rfl⟩
      | failed =>
        exact ⟨[], [.markDone, .destroy], by simp [runStages, hok, hexit, Exit.events, cleanup],
          List.nil_sublist _, .inr rfl⟩

/-- The checkpoints of the steps. -/
theorem checkpoint_stages (jobstate : JobState) (o : Outcome) :
    (prepareStages o ++ jobStages jobstate o).filterMap Stage.checkpoint =
      .init :: .load :: .inject :: ((if jobstate = .spawn then [.setupOnce] else []) ++
        .setup :: .run :: .teardown ::
        ((if jobstate = .funnel ∨ jobstate = .spawn ∧ o.chainsSize = 0 then [.teardownOnce] else []) ++
        [.pullchain])) := by
  unfold prepareStages jobStages
  split_ifs <;> rfl

/-- They come in the order of the enumeration. -/
theorem pairwise_checkpoints (jobstate : JobState) (o : Outcome) :
    ((prepareStages o ++ jobStages jobstate o).filterMap Stage.checkpoint).Pairwise
      (fun c d => c.code ≤ d.code) := by
  rw [checkpoint_stages]
  split_ifs <;> decide

/-- The log operations of a run: the constructor, checkpoints in order, and at most one `markDone`,
which only the destructor follows. -/
theorem walOps_run (jobstate : JobState) {o : Outcome} (hforked : o.forked = false) :
    ∃ (cs : List Checkpoint) (tail : List WalOp),
      walOps (run jobstate o) = .construct :: (cs.map .setCheckpoint ++ tail) ∧
      cs.Pairwise (fun c d => c.code ≤ d.code) ∧ (tail = [] ∨ tail = [.markDone, .destroy]) := by
  obtain ⟨cs, tail, hops, hsub, htail⟩ := walOps_runStages (prepareStages o ++ jobStages jobstate o)
  refine ⟨cs, tail, ?_, (pairwise_checkpoints jobstate o).sublist hsub, htail⟩
  simp [run, hforked, hops]

end Execute

end Mavicona.Chella
