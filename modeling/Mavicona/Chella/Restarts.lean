import Mavicona.Chella.WriteAhead

/-!
# A job that crashes at every recovery

Reference: `chella/exec.cpp` (`Execute::init`), `chella/wal.cpp`.

At its start a worker rolls back every log it finds. The callback runs the job again in the same
process, the new run truncates the log, and if the process dies before `markDone` the next start
finds what that run has left on disk. `Wal::rollback` is meant to give up on such a job after some
attempts. But `Wal::commit` writes a fail count of zero, and the score would grow with the count if
there were one.
-/

namespace Mavicona.Chella

open Bytes Trace

/-! ## Restarts -/

/-- A run started by recovery that dies before `markDone`: the times of its log operations, how its
steps turn out, and the number of stream operations after which the process dies. The lock that an
earlier crash has left in the job home is waited for in `outcome.waits`; the process may die there. -/
structure Attempt where
  clock : ℕ → ℕ
  outcome : Outcome
  died : ℕ

/-- The effects of a run up to its `markDone`. -/
def beforeMarkDone (es : List Event) : List Event := es.takeWhile (· ≠ .wal .markDone)

/-- The log on disk when the attempt has died. Recovery does not fork. -/
def Attempt.leaves (bufsiz : ℕ) (module : Bytes) (param : Parameter) (a : Attempt) : ByteFile :=
  let steps := microSteps module param a.clock .nil 0
    (beforeMarkDone (Execute.run param.jobstate { a.outcome with forked := false }))
  ((steps.take a.died).foldl (Process.step bufsiz) Process.start).log.disk

/-- A log over the restarts of its worker, and the scores on which the callback was invoked. -/
structure Recoveries where
  log : ByteFile
  scores : List ℤ

/-- A start of the worker: roll the log back, and die in the run that this starts. -/
def Recoveries.restart (bufsiz : ℕ) (packageExists : Bytes → Bool) (r : Recoveries) (a : Attempt) :
    Recoveries :=
  match Wal.rollback packageExists r.log with
  | none => r
  | some (module, param) =>
    let h := onDisk r.log
    { log := a.leaves bufsiz module param
      scores := r.scores ++ [Wal.recoveryLikeliness (packageExists (cstr h.module)) h] }

theorem Recoveries.restart_of_none {bufsiz : ℕ} {packageExists : Bytes → Bool} {r : Recoveries}
    (hroll : Wal.rollback packageExists r.log = none) (a : Attempt) :
    r.restart bufsiz packageExists a = r := by
  unfold restart
  generalize Wal.rollback packageExists r.log = callback at hroll
  subst hroll
  rfl

theorem Recoveries.restart_of_some {bufsiz : ℕ} {packageExists : Bytes → Bool} {r : Recoveries}
    {module : Bytes} {param : Parameter}
    (hroll : Wal.rollback packageExists r.log = some (module, param)) (a : Attempt) :
    ∃ score, r.restart bufsiz packageExists a
      = ⟨a.leaves bufsiz module param, r.scores ++ [score]⟩ := by
  unfold restart
  generalize Wal.rollback packageExists r.log = callback at hroll
  subst hroll
  exact ⟨_, rfl⟩

/-- The log after any number of restarts. -/
def Recoveries.restarts (bufsiz : ℕ) (packageExists : Bytes → Bool) (r : Recoveries)
    (attempts : List Attempt) : Recoveries :=
  attempts.foldl (restart bufsiz packageExists) r

/-- Recovery of the log is given up: the score falls from one failed attempt to the next, and the
callback is invoked a bounded number of times. -/
structure GivenUp (bufsiz : ℕ) (packageExists : Bytes → Bool) (log : ByteFile) : Prop where
  falling : ∀ attempts : List Attempt,
    (Recoveries.restarts bufsiz packageExists ⟨log, []⟩ attempts).scores.Pairwise (· > ·)
  bounded : ∃ bound, ∀ attempts : List Attempt,
    (Recoveries.restarts bufsiz packageExists ⟨log, []⟩ attempts).scores.length ≤ bound

/-! ## The score -/

/-- One more failed attempt makes recovery more likely. -/
theorem Wal.recoveryLikeliness_succ_failcount (packageExists : Bool) (h : WalHeader) :
    recoveryLikeliness packageExists { h with failcount := h.failcount + 1 }
      = recoveryLikeliness packageExists h + 10 := by
  simp only [recoveryLikeliness, Nat.cast_add, Nat.cast_one]
  ring

/-! ## Logs that are pending -/

section Pending

variable {packageExists : Bytes → Bool} {module : Bytes} {param : Parameter}
  {log : ByteFile}

/-- The header of the job is on disk, at some checkpoint and not marked done. -/
def Pending (module : Bytes) (param : Parameter) (log : ByteFile) : Prop :=
  ∃ checkpoint time, log.slice 0 152 = (Wal.header module param checkpoint false time).encode

theorem Wal.Logged.pending {checkpoint : Checkpoint} (hlog : Wal.Logged module param checkpoint log) :
    Pending module param log := ⟨checkpoint, hlog.header⟩

/-- A log whose package is gone, or whose name has a negative size, is never run again. -/
theorem Pending.rollback_eq_none (hmodule : module.length = 40) (hlog : Pending module param log)
    (hskip : packageExists (cstr module) = false ∨ 2 ^ 31 ≤ param.jobname.length % 2 ^ 32) :
    Wal.rollback packageExists log = none := by
  obtain ⟨checkpoint, time, hheader⟩ := hlog
  rw [Wal.rollback_of_header packageExists hmodule hheader, if_pos hskip.symm]

/-- Any other log is run again, with a module and a quid that pass the assertions of the constructor
and a name that is no longer. -/
theorem Pending.rollback_eq_some (hmodule : module.length = 40) (hlog : Pending module param log)
    (hpackage : packageExists (cstr module) = true)
    (hsize : param.jobname.length % 2 ^ 32 < 2 ^ 31) :
    ∃ module' param', Wal.rollback packageExists log = some (module', param') ∧
      module'.length = 40 ∧ param'.jobquid.length = 36 ∧ packageExists (cstr module') = true ∧
      param'.jobname.length < 2 ^ 31 := by
  obtain ⟨checkpoint, time, hheader⟩ := hlog
  have hnot : ¬ (2 ^ 31 ≤ param.jobname.length % 2 ^ 32 ∨ packageExists (cstr module) = false) := by
    rintro (hneg | hmissing)
    · omega
    · rw [hpackage] at hmissing
      exact absurd hmissing (by decide)
  refine ⟨_, _, (Wal.rollback_of_header packageExists hmodule hheader).trans (if_neg hnot),
    length_padTo _ _, length_padTo _ _, ?_, ?_⟩
  · rw [cstr_padTo_strncpy hmodule.le]
    exact hpackage
  · refine (length_cstr_le _).trans_lt ?_
    rw [ByteFile.length_slice]
    exact hsize

end Pending

/-! ## An attempt that leaves its log -/

section Attempts

variable {packageExists : Bytes → Bool} {module : Bytes} {param : Parameter}
  {log : ByteFile}

/-- The first effects of a run whose package is loaded: the log is created, the home is locked, and
the first checkpoint is logged. -/
theorem beforeMarkDone_run (jobstate : JobState) :
    ∃ rest, beforeMarkDone (Execute.run jobstate sampleOutcome)
      = .wal .construct :: .act (.report .accepted) :: .act .setLock ::
          .wal (.setCheckpoint .init) :: rest := ⟨_, rfl⟩

/-- The attempt that dies while the first checkpoint is logged. -/
def dyingAttempt (module : Bytes) (param : Parameter) : Attempt where
  clock := fun _ => 0
  outcome := sampleOutcome
  died := (WalOp.construct.steps module param .nil 0).length + 3

/-- It has flushed what the constructor wrote. -/
theorem leaves_dyingAttempt (bufsiz : ℕ) (hmodule : module.length = 40)
    (hquid : param.jobquid.length = 36) :
    (dyingAttempt module param).leaves bufsiz module param = (Wal.create module param 0).file.file := by
  obtain ⟨rest, hrun⟩ := beforeMarkDone_run param.jobstate
  have hpasses : WalOp.construct.aborts module param = false := by
    simp [WalOp.aborts, hmodule, hquid]
  have hinit : (WalOp.setCheckpoint .init).aborts module param = false := rfl
  have htake : (microSteps module param (fun _ => 0) .nil 0
      (beforeMarkDone (Execute.run param.jobstate sampleOutcome))).take
        ((WalOp.construct.steps module param .nil 0).length + 3)
      = WalOp.construct.steps module param .nil 0
          ++ [.act (.report .accepted), .act .setLock, .rewind] := by
    rw [hrun, microSteps, hpasses, if_neg Bool.false_ne_true, List.take_length_add_append, microSteps,
      microSteps, microSteps, hinit, if_neg Bool.false_ne_true]
    rfl
  have hstart : Process.start.log.flush.disk = (FileStream.ofFile ByteFile.empty).file := rfl
  have hcreate := flush_commitSteps bufsiz
    (w := ⟨module, param, .nil, FileStream.ofFile ByteFile.empty⟩) hstart false 0
  rw [Attempt.leaves]
  change (((microSteps module param (fun _ => 0) .nil 0 (beforeMarkDone
    (Execute.run param.jobstate sampleOutcome))).take _).foldl (Process.step bufsiz)
      Process.start).log.disk = _
  rw [dyingAttempt, htake, WalOp.steps, List.foldl_append, List.foldl_append]
  exact hcreate

/-- From a log that is pending there are restarts with as many callbacks as one likes. -/
theorem exists_restarts (bufsiz n : ℕ) (scores : List ℤ) (hmodule : module.length = 40)
    (hlog : Pending module param log) (hpackage : packageExists (cstr module) = true)
    (hsize : param.jobname.length % 2 ^ 32 < 2 ^ 31) :
    ∃ attempts, (Recoveries.restarts bufsiz packageExists ⟨log, scores⟩ attempts).scores.length
      = scores.length + n := by
  -- Each crash leaves a pending log again, of a name that is no longer.
  induction n generalizing module param log scores with
  | zero => exact ⟨[], rfl⟩
  | succ n ih =>
    obtain ⟨module', param', hroll, hmodule', hquid', hpackage', hname'⟩ :=
      hlog.rollback_eq_some hmodule hpackage hsize
    have hpending : Pending module' param'
        ((dyingAttempt module' param').leaves bufsiz module' param') := by
      rw [leaves_dyingAttempt bufsiz hmodule' hquid']
      exact (Wal.logged_commit ⟨module', param', .nil, FileStream.ofFile ByteFile.empty⟩ 0).pending
    have hsize' : param'.jobname.length % 2 ^ 32 < 2 ^ 31 := by omega
    obtain ⟨score, hrestart⟩ := Recoveries.restart_of_some (r := ⟨log, scores⟩) hroll
      (dyingAttempt module' param')
    obtain ⟨attempts, hlen⟩ := ih (scores ++ [score]) hmodule' hpending hpackage' hsize'
    refine ⟨dyingAttempt module' param' :: attempts, ?_⟩
    rw [Recoveries.restarts, List.foldl_cons, hrestart]
    exact hlen.trans (by rw [List.length_append, List.length_singleton]; omega)

/-- So recovery of such a log is not given up. -/
theorem not_givenUp (bufsiz : ℕ) (hmodule : module.length = 40) (hlog : Pending module param log)
    (hpackage : packageExists (cstr module) = true)
    (hsize : param.jobname.length % 2 ^ 32 < 2 ^ 31) : ¬ GivenUp bufsiz packageExists log := by
  intro hgiven
  obtain ⟨bound, hbound⟩ := hgiven.bounded
  obtain ⟨attempts, hlen⟩ := exists_restarts bufsiz (bound + 1) [] hmodule hlog hpackage hsize
  have hle := hbound attempts
  rw [hlen] at hle
  simp at hle

/-- A log that is never rolled back stays as it is. -/
theorem restarts_eq_self {bufsiz : ℕ} {r : Recoveries} (hroll : Wal.rollback packageExists r.log = none)
    (attempts : List Attempt) : Recoveries.restarts bufsiz packageExists r attempts = r := by
  induction attempts with
  | nil => rfl
  | cons a attempts ih =>
    rw [Recoveries.restarts, List.foldl_cons, Recoveries.restart_of_none hroll]
    exact ih

end Attempts

/-- **When recovery of a crashing job is given up.** For every log with the header of a job that is not
marked done: over restarts in which each run that `rollback` starts dies before `markDone`, the scores
fall and the callback is invoked a bounded number of times if and only if it is not invoked at all,
because the package is missing or the 32-bit size of the name is negative. -/
theorem givenUp_iff (bufsiz : ℕ) (packageExists : Bytes → Bool) {module : Bytes} {param : Parameter}
    {log : ByteFile} (hmodule : module.length = 40) (hlog : Pending module param log) :
    GivenUp bufsiz packageExists log ↔
      packageExists (cstr module) = false ∨ 2 ^ 31 ≤ param.jobname.length % 2 ^ 32 := by
  constructor
  · intro hgiven
    by_contra hnot
    obtain ⟨hpackage, hsize⟩ : packageExists (cstr module) = true ∧
        param.jobname.length % 2 ^ 32 < 2 ^ 31 := by
      simpa using hnot
    exact not_givenUp bufsiz hmodule hlog hpackage hsize hgiven
  · intro hskip
    have hroll : Wal.rollback packageExists (Recoveries.mk log []).log = none :=
      hlog.rollback_eq_none hmodule hskip
    refine ⟨fun attempts => ?_, 0, fun attempts => ?_⟩
    · rw [restarts_eq_self hroll]
      exact List.Pairwise.nil
    · rw [restarts_eq_self hroll]
      exact Nat.le_refl _

/-- A job whose package was removed is given up. -/
theorem givenUp_missing_package :
    GivenUp 4096 (fun _ => false) (Wal.create sampleModule (sampleParameter []) 1).file.file :=
  (givenUp_iff 4096 (fun _ => false) (by decide)
    (Wal.logged_commit ⟨sampleModule, sampleParameter [], .nil, FileStream.ofFile ByteFile.empty⟩
      1).pending).mpr (.inl rfl)

/-- A job whose package is there is not. -/
theorem not_givenUp_sample :
    ¬ GivenUp 4096 (fun _ => true)
      ((Wal.create sampleModule (sampleParameter []) 1).setCheckpoint .run 2).file.file := by
  have hlog : Pending sampleModule (sampleParameter [])
      ((Wal.create sampleModule (sampleParameter []) 1).setCheckpoint .run 2).file.file :=
    (Wal.logged_commit { Wal.create sampleModule (sampleParameter []) 1 with checkpoint := .run }
      2).pending
  exact not_givenUp 4096 (by decide) hlog rfl (by decide)

end Mavicona.Chella
