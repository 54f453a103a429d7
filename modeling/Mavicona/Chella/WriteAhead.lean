import Mavicona.Common.Run
import Mavicona.Common.Stdio
import Mavicona.Chella.Recovery
import Mavicona.Chella.Execute

/-!
# When the log reaches the disk

`Wal::commit` rewinds the stream and writes the header and the name of the job; it does not flush. So
what it writes reaches the disk when the buffer of the stream overflows, or when the next commit
rewinds, or when the destructor closes the file. `microSteps` spells a run of `Execute::run` out
into single stream operations, and a process may die between any two of them.

`WriteAhead` says that at each such point every log operation that has returned is on disk. A run has
the property if and only if header and name overflow the buffer, or the process is the parent of a
fork, which opens no log.
-/

namespace Mavicona.Chella

open Bytes Trace

/-! ## The steps of a process -/

/-- A step of a process that runs a job. -/
inductive Micro
  | act (a : Act)
  | rewind
  | putc (b : UInt8)
  | fclose
  | ret (op : WalOp)

/-- The stream of the log, and the log operations that have returned. -/
structure Process where
  log : Stdio
  returned : List WalOp

namespace Process

/-- A process before its first log operation, on the new file. -/
def start : Process := ⟨Stdio.ofFile ByteFile.empty, []⟩

/-- One step, on a stream with a buffer of `bufsiz` bytes. -/
def step (bufsiz : ℕ) (p : Process) : Micro → Process
  | .act _ => p
  | .rewind => { p with log := p.log.rewind }
  | .putc b => { p with log := p.log.putc bufsiz b }
  | .fclose => { p with log := p.log.flush }
  | .ret op => { p with returned := p.returned ++ [op] }

end Process

section Steps

variable (module : Bytes) (param : Parameter)

/-- The steps of `Wal::commit`. -/
def commitSteps (checkpoint : Checkpoint) (isDone : Bool) (time : ℕ) : List Micro :=
  .rewind ::
    ((Wal.header module param checkpoint isDone time).encode ++ param.jobname).map .putc

/-- The steps of a log operation, from the checkpoint in the member to the return. -/
def WalOp.steps (checkpoint : Checkpoint) (time : ℕ) : WalOp → List Micro
  | .construct => commitSteps module param .nil false time ++ [.ret .construct]
  | .setCheckpoint c => commitSteps module param c false time ++ [.ret (.setCheckpoint c)]
  | .markDone => commitSteps module param checkpoint true time ++ [.ret .markDone]
  | .destroy => [.fclose, .ret .destroy]

/-- The `checkpoint` member after a log operation. -/
def WalOp.checkpoint (checkpoint : Checkpoint) : WalOp → Checkpoint
  | .construct => .nil
  | .setCheckpoint c => c
  | .markDone => checkpoint
  | .destroy => checkpoint

/-- The constructor asserts the sizes of module and quid before it commits. -/
def WalOp.aborts : WalOp → Bool
  | .construct => decide (module.length ≠ 40 ∨ param.jobquid.length ≠ 36)
  | _ => false

variable (clock : ℕ → ℕ)

/-- The steps of a run, up to a failed assertion. `clock n` is the time of the `n`-th log
operation. -/
def microSteps : Checkpoint → ℕ → List Event → List Micro
  | _, _, [] => []
  | checkpoint, n, .act a :: es => .act a :: microSteps checkpoint n es
  | checkpoint, n, .wal op :: es =>
    if op.aborts module param then []
    else
      op.steps module param checkpoint (clock n) ++ microSteps (op.checkpoint checkpoint) (n + 1) es

end Steps

/-! ## What a crash leaves -/

/-- The header that recovery finds on disk. -/
def onDisk (log : ByteFile) : WalHeader := WalHeader.decode (log.slice 0 sizeofWalHeader)

/-- What the log has to say once an operation has returned. -/
def Announces (h : WalHeader) : WalOp → Prop
  | .construct => h.magic = logMagic ∧ Checkpoint.nil.code ≤ h.checkpoint
  | .setCheckpoint c => h.magic = logMagic ∧ c.code ≤ h.checkpoint
  | .markDone => h.done ≠ 0
  | .destroy => True

/-- A process that dies here leaves a log that announces everything that has returned. -/
def Durable (p : Process) : Prop := ∀ op ∈ p.returned, Announces (onDisk p.log.disk) op

/-- The log of a run is written ahead: every point of the run is durable. -/
def WriteAhead (bufsiz : ℕ) (module : Bytes) (param : Parameter) (clock : ℕ → ℕ) (o : Outcome) : Prop :=
  Always (Process.step bufsiz) Durable Process.start
    (microSteps module param clock .nil 0 (Execute.run param.jobstate o))

/-! ## One commit -/

section Commit

variable {bufsiz : ℕ} {module : Bytes} {param : Parameter} {checkpoint : Checkpoint} {isDone : Bool}
  {p : Process}

/-- The operations that a header with this checkpoint and this mark announces. -/
def Covers (checkpoint : Checkpoint) (isDone : Bool) : WalOp → Prop
  | .construct => True
  | .setCheckpoint c => c.code ≤ checkpoint.code
  | .markDone => isDone = true
  | .destroy => True

theorem Covers.announces {time : ℕ} {op : WalOp} (h : Covers checkpoint isDone op) :
    Announces (WalHeader.decode (Wal.header module param checkpoint isDone time).encode) op := by
  rw [Wal.decode_header]
  cases op with
  | construct => exact ⟨rfl, Nat.zero_le _⟩
  | setCheckpoint c => exact ⟨rfl, h⟩
  | markDone =>
    have hdone : isDone = true := h
    simp [Announces, hdone]
  | destroy => trivial

/-- Putting bytes changes nothing but the stream. -/
theorem foldl_putc (bufsiz : ℕ) (p : Process) (v : Bytes) :
    (v.map .putc).foldl (Process.step bufsiz) p
      = { p with log := v.foldl (Stdio.putc bufsiz) p.log } := by
  induction v generalizing p with
  | nil => rfl
  | cons b v ih => exact ih _

/-- The header on disk is `h`, and what is still in the buffer goes behind it. -/
structure Settled (h : Bytes) (s : Stdio) : Prop where
  front : s.disk.slice 0 152 = h
  flushed : s.flush.disk.slice 0 152 = h

theorem Settled.onDisk {h : Bytes} {s : Stdio} (hs : Settled h s) :
    onDisk s.disk = WalHeader.decode h := by
  rw [Chella.onDisk, sizeofWalHeader, hs.front]

theorem Settled.of_le_off {h : Bytes} {s : Stdio} (hfront : s.disk.slice 0 152 = h)
    (hoff : 152 ≤ s.off) : Settled h s :=
  ⟨hfront, (Stdio.Filling.slice_flush hoff).trans hfront⟩

theorem Settled.flush {h : Bytes} {s : Stdio} (hs : Settled h s) : Settled h s.flush := by
  refine ⟨hs.flushed, ?_⟩
  rw [Stdio.flush_flush]
  exact hs.flushed

/-- A commit that overflows the buffer: the old header stays on disk until the new one replaces it
as a whole. -/
theorem commit_settled (time : ℕ) (hbuf : 152 ≤ bufsiz) (hname : bufsiz < 152 + param.jobname.length)
    {h : Bytes} (hs : Settled h p.log) (hold : ∀ op ∈ p.returned, Announces (WalHeader.decode h) op)
    (hnew : ∀ op ∈ p.returned, Covers checkpoint isDone op) :
    Always (Process.step bufsiz) Durable p (commitSteps module param checkpoint isDone time) ∧
      ∃ q, (commitSteps module param checkpoint isDone time).foldl (Process.step bufsiz) p = q ∧
        Settled (Wal.header module param checkpoint isDone time).encode q.log ∧
        q.returned = p.returned := by
  set header := (Wal.header module param checkpoint isDone time).encode with hheader
  have hlen : header.length = 152 := WalHeader.length_encode _
  -- The stream after the first `n` bytes.
  have hfill : ∀ v : Bytes, Stdio.Filling bufsiz 152 p.log.flush.disk v
      (v.foldl (Stdio.putc bufsiz) p.log.rewind) :=
    fun v => (Stdio.Filling.start bufsiz 152 _).foldl_putc hbuf v
  refine ⟨?_, _, rfl, ?_, ?_⟩
  · rw [commitSteps, always_cons, ← hheader]
    refine ⟨fun op hop => hs.onDisk ▸ hold op hop, fun n op hop => ?_⟩
    rw [← List.map_take, foldl_putc] at hop ⊢
    set v := (header ++ param.jobname).take n with hv
    show Announces (WalHeader.decode ((v.foldl (Stdio.putc bufsiz) p.log.rewind).disk.slice 0 152)) op
    rcases (hfill v).front_cases with hfront | ⟨hlong, hfront⟩
    · rw [hfront, hs.flushed]
      exact hold op hop
    · have hvlen : v.length ≤ n := List.length_take_le n _
      have htake : v.take 152 = header := by
        rw [hv, List.take_take, Nat.min_eq_left (by omega), List.take_left' hlen]
      rw [hfront, htake]
      exact (hnew op hop).announces
  · have hlong : bufsiz < (header ++ param.jobname).length := by
      rw [List.length_append]
      omega
    obtain ⟨hdisk, hoff⟩ := (hfill _).long hlong
    rw [List.take_left' hlen] at hdisk
    rw [commitSteps, List.foldl_cons, ← hheader, foldl_putc]
    exact .of_le_off hdisk hoff
  · rw [commitSteps, List.foldl_cons, foldl_putc]
    rfl

/-- Once the stream is flushed, the steps of a commit have left what `Wal.commit` leaves. -/
theorem flush_commitSteps (bufsiz : ℕ) {w : Wal} (hfile : p.log.flush.disk = w.file.file)
    (isDone : Bool) (time : ℕ) :
    ((commitSteps w.module w.jobparameters w.checkpoint isDone time).foldl (Process.step bufsiz)
      p).log.flush.disk = (w.commit isDone time).file.file := by
  rw [commitSteps, List.foldl_cons, foldl_putc]
  simp only [Process.step, Stdio.flush_foldl_putc, Stdio.flush_rewind, hfile, Stdio.ofFile]
  rw [← ByteFile.write_write_append]
  simp [Wal.commit]

end Commit

/-! ## A whole run -/

section Run

variable {bufsiz : ℕ} {module : Bytes} {param : Parameter} {clock : ℕ → ℕ} {checkpoint : Checkpoint}
  {isDone : Bool} {p : Process}

/-- The header on disk was written for this checkpoint and this mark, and announces whatever has
returned. -/
structure Current (module : Bytes) (param : Parameter) (checkpoint : Checkpoint) (isDone : Bool)
    (p : Process) : Prop where
  settled : ∃ time, Settled (Wal.header module param checkpoint isDone time).encode p.log
  covers : ∀ op ∈ p.returned, Covers checkpoint isDone op

theorem Current.durable (hp : Current module param checkpoint isDone p) : Durable p := by
  obtain ⟨time, hs⟩ := hp.settled
  intro op hop
  rw [hs.onDisk]
  exact (hp.covers op hop).announces

/-- The return of an operation that the header on disk announces. -/
theorem Current.ret (hp : Current module param checkpoint isDone p) {op : WalOp}
    (hop : Covers checkpoint isDone op) :
    Current module param checkpoint isDone (p.step bufsiz (.ret op)) := by
  refine ⟨hp.settled, fun op' hop' => ?_⟩
  rcases List.mem_append.mp hop' with hop' | hop'
  · exact hp.covers op' hop'
  · rw [List.mem_singleton.mp hop']
    exact hop

/-- A commit and its return. -/
theorem commit_current (hbuf : 152 ≤ bufsiz) (hname : bufsiz < 152 + param.jobname.length) {h : Bytes}
    (hs : Settled h p.log) (hold : ∀ op ∈ p.returned, Announces (WalHeader.decode h) op)
    (hnew : ∀ op ∈ p.returned, Covers checkpoint isDone op) {op : WalOp}
    (hop : Covers checkpoint isDone op) (time : ℕ) :
    Always (Process.step bufsiz) Durable p
        (commitSteps module param checkpoint isDone time ++ [Micro.ret op]) ∧
      Current module param checkpoint isDone
        ((commitSteps module param checkpoint isDone time ++ [Micro.ret op]).foldl
          (Process.step bufsiz) p) := by
  obtain ⟨hall, q, hq, hsettled, hreturned⟩ := commit_settled time hbuf hname hs hold hnew
  have hcurrent : Current module param checkpoint isDone q := ⟨⟨time, hsettled⟩, hreturned ▸ hnew⟩
  have hret : Current module param checkpoint isDone (q.step bufsiz (.ret op)) := hcurrent.ret hop
  rw [List.foldl_append, always_append, hq, always_cons, always_nil]
  exact ⟨⟨hall, hcurrent.durable, hret.durable⟩, hret⟩

/-- The next commit, at a checkpoint that is not earlier. -/
theorem Current.commit (hbuf : 152 ≤ bufsiz) (hname : bufsiz < 152 + param.jobname.length)
    (hp : Current module param checkpoint isDone p) {checkpoint' : Checkpoint} {isDone' : Bool}
    (hlater : ∀ op, Covers checkpoint isDone op → Covers checkpoint' isDone' op) {op : WalOp}
    (hop : Covers checkpoint' isDone' op) (time : ℕ) :
    Always (Process.step bufsiz) Durable p
        (commitSteps module param checkpoint' isDone' time ++ [Micro.ret op]) ∧
      Current module param checkpoint' isDone'
        ((commitSteps module param checkpoint' isDone' time ++ [Micro.ret op]).foldl
          (Process.step bufsiz) p) := by
  obtain ⟨t, hs⟩ := hp.settled
  exact commit_current hbuf hname hs (fun op hop => (hp.covers op hop).announces)
    (fun op hop => hlater op (hp.covers op hop)) hop time

/-- The end of a run: the log is left open, or marked done and closed. -/
theorem tail_durable (hbuf : 152 ≤ bufsiz) (hname : bufsiz < 152 + param.jobname.length)
    (hp : Current module param checkpoint false p) {tail : List WalOp}
    (htail : tail = [] ∨ tail = [.markDone, .destroy]) (n : ℕ) :
    Always (Process.step bufsiz) Durable p
      (microSteps module param clock checkpoint n (tail.map .wal)) := by
  rcases htail with rfl | rfl
  · exact always_nil.mpr hp.durable
  · have hlater : ∀ op, Covers checkpoint false op → Covers checkpoint true op := by
      intro op hop
      cases op with
      | construct => trivial
      | setCheckpoint c => exact hop
      | markDone => rfl
      | destroy => trivial
    have hmark : Covers checkpoint true .markDone := rfl
    obtain ⟨hall, hdone⟩ := hp.commit hbuf hname hlater hmark (clock n)
    refine always_append.mpr ⟨hall, ?_⟩
    set q := (WalOp.markDone.steps module param checkpoint (clock n)).foldl (Process.step bufsiz) p
    have hclosed : Current module param checkpoint true (q.step bufsiz .fclose) := by
      obtain ⟨t, hsettled⟩ := hdone.settled
      exact ⟨⟨t, hsettled.flush⟩, hdone.covers⟩
    have hret : Current module param checkpoint true ((q.step bufsiz .fclose).step bufsiz (.ret .destroy)) :=
      hclosed.ret trivial
    exact always_cons.mpr ⟨hdone.durable, always_cons.mpr ⟨hclosed.durable, always_nil.mpr hret.durable⟩⟩

/-- The checkpoints of a run and its end. -/
theorem checkpoints_durable (hbuf : 152 ≤ bufsiz) (hname : bufsiz < 152 + param.jobname.length)
    {cs : List Checkpoint} (hp : Current module param checkpoint false p)
    (hcs : (checkpoint :: cs).Pairwise (fun c d => c.code ≤ d.code)) {tail : List WalOp}
    (htail : tail = [] ∨ tail = [.markDone, .destroy]) (n : ℕ) :
    Always (Process.step bufsiz) Durable p
      (microSteps module param clock checkpoint n
        ((cs.map WalOp.setCheckpoint ++ tail).map .wal)) := by
  induction cs generalizing checkpoint p n with
  | nil => exact tail_durable hbuf hname hp htail n
  | cons c cs ih =>
    obtain ⟨hle, hcs⟩ := List.pairwise_cons.mp hcs
    have hstep : checkpoint.code ≤ c.code := hle c List.mem_cons_self
    have hlater : ∀ op, Covers checkpoint false op → Covers c false op := by
      intro op hop
      cases op with
      | construct => trivial
      | setCheckpoint d => exact Nat.le_trans hop hstep
      | markDone => exact hop
      | destroy => trivial
    have hself : Covers c false (.setCheckpoint c) := Nat.le_refl _
    obtain ⟨hall, hnext⟩ := hp.commit hbuf hname hlater hself (clock n)
    exact always_append.mpr ⟨hall, ih hnext hcs (n + 1)⟩

/-- The acts of a run do not touch the log. -/
theorem always_microSteps_iff (bufsiz : ℕ) (module : Bytes) (param : Parameter) (clock : ℕ → ℕ)
    (P : Process → Prop) (es : List Event) (checkpoint : Checkpoint) (n : ℕ) (p : Process) :
    Always (Process.step bufsiz) P p (microSteps module param clock checkpoint n es) ↔
      Always (Process.step bufsiz) P p
        (microSteps module param clock checkpoint n ((Execute.walOps es).map .wal)) := by
  induction es generalizing checkpoint n p with
  | nil => exact Iff.rfl
  | cons e es ih =>
    cases e with
    | act a =>
      rw [Execute.walOps_cons_act, ← ih, microSteps, always_cons]
      exact and_iff_right_of_imp fun h => h 0
    | wal op =>
      rw [Execute.walOps_cons_wal, List.map_cons, microSteps, microSteps]
      split_ifs
      · exact Iff.rfl
      · rw [always_append, always_append, ih]

/-- A log that fits into the buffer is not on disk when the constructor returns. -/
theorem not_durable_construct (hbuf : 152 ≤ bufsiz) (hname : 152 + param.jobname.length ≤ bufsiz)
    (time : ℕ) :
    ¬ Durable ((WalOp.construct.steps module param .nil time).foldl (Process.step bufsiz)
      Process.start) := by
  intro hdurable
  set v := (Wal.header module param .nil false time).encode ++ param.jobname with hv
  have hfill : Stdio.Filling bufsiz 152 ByteFile.empty v
      (v.foldl (Stdio.putc bufsiz) (Stdio.ofFile ByteFile.empty)) :=
    (Stdio.Filling.start bufsiz 152 _).foldl_putc hbuf v
  have hlog := hfill.short (by simpa [hv] using hname)
  have hrewind : Process.start.step bufsiz .rewind = Process.start := by
    simp [Process.start, Process.step, Stdio.rewind, Stdio.flush, Stdio.ofFile]
  have hstate : (WalOp.construct.steps module param .nil time).foldl (Process.step bufsiz)
      Process.start = ⟨⟨ByteFile.empty, 0, v⟩, [.construct]⟩ := by
    rw [WalOp.steps, commitSteps, List.cons_append, List.foldl_cons, hrewind, List.foldl_append,
      foldl_putc]
    simp only [Process.start, List.foldl_cons, List.foldl_nil, Process.step, ← hv, hlog,
      List.nil_append]
  rw [hstate] at hdurable
  obtain ⟨hmagic, -⟩ := hdurable .construct List.mem_cons_self
  have hempty : (onDisk ByteFile.empty).magic ≠ logMagic := by decide
  exact hempty hmagic

/-- A run whose constructor commits into the buffer is not written ahead. -/
theorem not_writeAhead {o : Outcome} (hforked : o.forked = false) (hmodule : module.length = 40)
    (hquid : param.jobquid.length = 36) (hbuf : 152 ≤ bufsiz)
    (hname : 152 + param.jobname.length ≤ bufsiz) : ¬ WriteAhead bufsiz module param clock o := by
  intro hahead
  rw [WriteAhead, Execute.run, hforked, if_neg Bool.false_ne_true, microSteps,
    if_neg (by simp [WalOp.aborts, hmodule, hquid]), always_append] at hahead
  exact not_durable_construct hbuf hname _ hahead.1.last

/-- A run whose commits overflow the buffer is written ahead. -/
theorem writeAhead_of_overflow {o : Outcome} (hforked : o.forked = false) (hmodule : module.length = 40)
    (hquid : param.jobquid.length = 36) (hbuf : 152 ≤ bufsiz)
    (hname : bufsiz < 152 + param.jobname.length) : WriteAhead bufsiz module param clock o := by
  obtain ⟨cs, tail, hops, hcs, htail⟩ := Execute.walOps_run param.jobstate hforked
  rw [WriteAhead, always_microSteps_iff, hops, List.map_cons, microSteps,
    if_neg (by simp [WalOp.aborts, hmodule, hquid]), always_append]
  have hsettled : Settled (ByteFile.empty.slice 0 152) Process.start.log := ⟨rfl, rfl⟩
  have hcovers : Covers .nil false .construct := trivial
  obtain ⟨hall, hcurrent⟩ := commit_current hbuf hname hsettled
    (fun op hop => absurd hop List.not_mem_nil) (fun op hop => absurd hop List.not_mem_nil) hcovers
    (clock 0)
  refine ⟨hall, checkpoints_durable hbuf hname hcurrent ?_ htail 1⟩
  exact List.pairwise_cons.mpr ⟨fun _ _ => Nat.zero_le _, hcs⟩

/-- A run that ends before the first commit. -/
theorem writeAhead_of_no_log {o : Outcome}
    (h : o.forked = true ∨ module.length ≠ 40 ∨ param.jobquid.length ≠ 36) :
    WriteAhead bufsiz module param clock o := by
  have hstart : Durable Process.start := fun op hop => absurd hop List.not_mem_nil
  have hnone : microSteps module param clock .nil 0 (Execute.run param.jobstate o) = [] := by
    rcases Bool.eq_false_or_eq_true o.forked with hforked | hforked
    · rw [Execute.run, if_pos hforked, microSteps]
    · have hassert : module.length ≠ 40 ∨ param.jobquid.length ≠ 36 :=
        h.resolve_left (by simp [hforked])
      rw [Execute.run, hforked, if_neg Bool.false_ne_true, microSteps,
        if_pos (by simpa [WalOp.aborts] using hassert)]
  rw [WriteAhead, hnone]
  exact always_nil.mpr hstart

end Run

/-- **When the log is written ahead of the step it announces.** On a stream with a buffer of at least
256 bytes, the least that the C standard allows, every point of a run of `Execute::run` leaves a log
on disk that announces each log operation that has returned if and only if the header and the name of
the job overflow the buffer, or nothing is logged at all: the process is the parent of a fork, or
module or quid fail the assertions of the constructor. -/
theorem writeAhead_iff {bufsiz : ℕ} (hbuf : 256 ≤ bufsiz) (module : Bytes) (param : Parameter)
    (clock : ℕ → ℕ) (o : Outcome) :
    WriteAhead bufsiz module param clock o ↔
      o.forked = true ∨ module.length ≠ 40 ∨ param.jobquid.length ≠ 36 ∨
        bufsiz < sizeofWalHeader + param.jobname.length := by
  rw [sizeofWalHeader]
  constructor
  · intro hahead
    by_contra hnot
    obtain ⟨hforked, hmodule, hquid, hname⟩ : o.forked = false ∧ module.length = 40 ∧
        param.jobquid.length = 36 ∧ 152 + param.jobname.length ≤ bufsiz := by
      simpa using hnot
    exact not_writeAhead hforked hmodule hquid (by omega) hname hahead
  · intro hcond
    by_cases hlogs : o.forked = true ∨ module.length ≠ 40 ∨ param.jobquid.length ≠ 36
    · exact writeAhead_of_no_log hlogs
    · obtain ⟨hforked, hmodule, hquid⟩ : o.forked = false ∧ module.length = 40 ∧
          param.jobquid.length = 36 := by
        simpa using hlogs
      have hname : bufsiz < 152 + param.jobname.length := by simpa [hforked, hmodule, hquid] using hcond
      exact writeAhead_of_overflow hforked hmodule hquid (by omega) hname

/-- A run in which every step succeeds. -/
def sampleOutcome : Outcome where
  forked := false
  packageExists := true
  waits := 0
  hasHome := true
  setupHome := true
  setupEnv := true
  packageMain := true
  packageInvoke := true
  decodeLocale := true
  importModule := true
  instanceConfig := true
  instanceCallback := true
  instanceDB := true
  funcJobInit := true
  instanceJobInit := true
  funcJobInvoke := true
  instanceJob := true
  injectCfg := true
  injectIpc := true
  injectDb := true
  inject := true
  updateStatus := true
  setupOnce := true
  setup := true
  run := true
  teardown := true
  memberChains := true
  chainsIsList := true
  chainsSize := 0
  teardownOnce := true

/-- A job name of 200 bytes overflows a buffer of 256. -/
theorem writeAhead_long_name :
    WriteAhead 256 sampleModule { sampleParameter [] with jobname := List.replicate 200 0x61 }
      (fun _ => 1) sampleOutcome := by
  have hlong : ∀ name : Bytes, name.length = 200 →
      WriteAhead 256 sampleModule { sampleParameter [] with jobname := name } (fun _ => 1)
        sampleOutcome := by
    intro name hname
    refine (writeAhead_iff (by decide) _ _ _ _).mpr (.inr (.inr (.inr ?_)))
    simp only [sizeofWalHeader, hname]
    decide
  exact hlong _ List.length_replicate

/-- With a buffer of a page, a crash after the constructor has returned leaves an empty log. -/
theorem not_writeAhead_sample :
    ¬ WriteAhead 4096 sampleModule (sampleParameter []) (fun _ => 1) sampleOutcome :=
  not_writeAhead rfl (by decide) (by decide) (by decide) (by decide)

end Mavicona.Chella
