import Mavicona.Chella.Master
import Mavicona.Chella.WriteAhead
import Mavicona.Extract.Actions
import Mavicona.Pitch.Provision

/-!
# From a scraped item to a worker

Reference: `chella/chella.cpp` (`prepareJob`), `chella/sha1.cpp` (`SHA1::final`), `chella/wal.h`.

An item goes from the scraper to the extractor as a `ScrapeData`, from there to the pitcher as a `Task`
if the rules queue it, and through the master to a worker as a `ProcessJob`. The worker writes a log
under the quid that the scraper chose, and the constructor of the log asserts its size.
-/

namespace Mavicona

open Quid Scrape Extract Pitch Chella

/-! ## The worker -/

/-- `SHA1::final` prints the five words of the digest. -/
def sha1Text (digest : Vector UInt64 5) : Bytes :=
  digest.toList.flatMap fun word => hexPrec 8 (word.toNat % 2 ^ 32)

theorem length_sha1Text (digest : Vector UInt64 5) : (sha1Text digest).length = 40 := by
  have hword : ∀ word : UInt64, word.toNat % 2 ^ 32 < 16 ^ 8 := fun _ => Nat.mod_lt _ (by decide)
  rw [sha1Text, length_flatMap_hexPrec (by decide) hword, Vector.length_toList]

/-- The name of the package and the parameters that `prepareJob` passes to `Execute::run`, where `sha1`
computes the words of a digest. -/
def prepareJob (sha1 : Bytes → Vector UInt64 5) (job : ProcessJob) : Bytes × Parameter :=
  (sha1Text (sha1 job.getContent), job.toParameter)

/-- `Wal::Wal` fails on the parameters exactly if the quid has not 36 bytes. -/
theorem aborts_prepareJob_iff (sha1 : Bytes → Vector UInt64 5) (job : ProcessJob) :
    WalOp.construct.aborts (prepareJob sha1 job).1 (prepareJob sha1 job).2 = true ↔
      job.getQuid.length ≠ 36 := by
  rw [WalOp.aborts, decide_eq_true_iff, prepareJob, length_sha1Text]
  simp [ProcessJob.toParameter]

/-- The compact text of a quid, which `Execute::prospect` gives to a subjob, passes. -/
theorem not_aborts_of_compact (sha1 : Bytes → Vector UInt64 5) {job : ProcessJob} {u : QuidT}
    (hquid : job.quid = some (u.toString true)) :
    WalOp.construct.aborts (prepareJob sha1 job).1 (prepareJob sha1 job).2 = false := by
  rw [← Bool.not_eq_true, aborts_prepareJob_iff, not_not, ProcessJob.getQuid, hquid, Option.getD_some,
    u.length_toString_true]

/-! ## The way of an item -/

/-- The libraries of the four programs. -/
structure Libraries where
  scrape : ScrapeFormat
  task : TaskFormat
  job : Protobuf
  sha1 : Bytes → Vector UInt64 5

/-- What the programs on the way find: what the extractor makes of a message, the content of
`libdso_counter.so` when the pitcher sends a task, and the master when it gets a job. -/
structure Surroundings where
  extraction : ScrapeData → Extraction
  library : Task → Bytes
  master : Bytes → Master

section Way

variable (lib : Libraries) (env : Surroundings)

/-- The tasks that the extractor sends for a message. -/
def extractorTasks (message : Bytes) : List Bytes :=
  let data := lib.scrape.parse message
  (runRuleActions (env.extraction data).actions (parseData (env.extraction data) data)).map
    lib.task.serialize

/-- The job that the pitcher sends for a task. -/
def pitcherJob (message : Bytes) : Bytes :=
  let task := lib.task.parse message
  lib.job.serializeJob (processJob (env.library task) task)

/-- The reply of the master to the worker that gets the job, once it is at the head of the queue. -/
def masterJob (message : Bytes) : Bytes :=
  match ((env.master message).handleIncommingJob lib.job message).1.jobqueue.getLast? with
  | some job => (Reply.job job).bytes lib.job
  | none => Reply.noJob.bytes lib.job

/-- The calls of `Execute::run` that originate from a message of a scraper. -/
def executions (data : ScrapeData) : List (Bytes × Parameter) :=
  (extractorTasks lib env (lib.scrape.serialize data)).map fun task =>
    prepareJob lib.sha1 (lib.job.parseJob (masterJob lib env (pitcherJob lib env task)))

/-- No assertion of `Wal::Wal` fails on a job that originates from the commit. -/
def Processable (messages : List ScrapeData) : Prop :=
  ∀ data ∈ messages, ∀ e ∈ executions lib env data, WalOp.construct.aborts e.1 e.2 = false

end Way

section Facts

variable (lib : Libraries) (env : Surroundings) {data : ScrapeData} {e : Bytes × Parameter}

/-- The master changes nothing but the id. -/
theorem parseJob_masterJob (message : Bytes) :
    lib.job.parseJob (masterJob lib env message)
      = (lib.job.parseJob message).setId (env.master message).db.jobCounter.1 := by
  rw [masterJob, Master.handleIncommingJob, List.getLast?_concat]
  exact lib.job.parse_serialize _

/-- Every job that originates from a message carries its quid. -/
theorem exists_job_of_mem_executions (he : e ∈ executions lib env data) :
    ∃ job : ProcessJob, e = prepareJob lib.sha1 job ∧ job.getQuid = data.getQuid := by
  obtain ⟨message, hmessage, rfl⟩ := List.mem_map.mp he
  obtain ⟨task, htask, rfl⟩ := List.mem_map.mp hmessage
  obtain ⟨action, -, rfl⟩ := List.mem_map.mp htask
  refine ⟨_, rfl, ?_⟩
  -- Three round trips, and the accessors of four messages.
  simp only [parseJob_masterJob, pitcherJob, lib.job.parse_serialize, lib.task.parse_serialize,
    lib.scrape.parse_serialize]
  rfl

/-- A message reaches a worker exactly if it is queued. -/
theorem executions_eq_nil_iff :
    executions lib env data = [] ↔ RuleAction.queue ∉ (env.extraction data).actions := by
  rw [executions, List.map_eq_nil_iff, extractorTasks, lib.scrape.parse_serialize, List.map_eq_nil_iff,
    runRuleActions, List.map_eq_nil_iff, List.filter_eq_nil_iff]
  constructor
  · intro hnone hqueue
    exact hnone _ hqueue (by decide)
  · intro hnot action haction heq
    rw [decide_eq_true_iff] at heq
    exact hnot (heq ▸ haction)

/-- The text of a quid in braces does not pass. -/
theorem aborts_of_mem_executions {u : QuidT} (hquid : data.quid = some (u.toString false))
    (he : e ∈ executions lib env data) : WalOp.construct.aborts e.1 e.2 = true := by
  obtain ⟨job, rfl, hjob⟩ := exists_job_of_mem_executions lib env he
  rw [aborts_prepareJob_iff, hjob, ScrapeData.getQuid, hquid, Option.getD_some, u.length_toString_false]
  decide

/-- One message of a commit. -/
theorem passes_iff {u : QuidT} (hquid : data.quid = some (u.toString false)) :
    (∀ e ∈ executions lib env data, WalOp.construct.aborts e.1 e.2 = false) ↔
      RuleAction.queue ∉ (env.extraction data).actions := by
  rw [← executions_eq_nil_iff lib env, List.eq_nil_iff_forall_not_mem]
  refine forall_congr' fun e => ⟨?_, ?_⟩
  · intro hpasses he
    have haborts := aborts_of_mem_executions lib env hquid he
    rw [hpasses he] at haborts
    exact Bool.false_ne_true haborts
  · intro hnot he
    exact absurd he hnot

end Facts

/-- **When scraped data can be processed.** For every stack of a scraper, every quid generated for its
items and every answer of the extractor: no assertion of `Wal::Wal` fails on a job that originates from
the commit if and only if the rules queue none of its items. -/
theorem processable_iff (lib : Libraries) (env : Surroundings) (quids : ℕ → QuidT × Answer)
    (s : Scraper) :
    Processable lib env (s.commit quids).messages ↔
      ∀ data ∈ (s.commit quids).messages, RuleAction.queue ∉ (env.extraction data).actions := by
  refine forall₂_congr fun data hdata => ?_
  obtain ⟨u, hquid⟩ := Scraper.quid_of_mem_commit hdata
  exact passes_iff lib env hquid

/-- The libraries as such, with a digest that is always zero. -/
def sampleLibraries : Libraries := ⟨scrapeFormat, taskFormat, protobuf, fun _ => .replicate 5 0⟩

/-- A rule that queues everything. -/
def sampleSurroundings : Surroundings :=
  ⟨fun _ => ⟨1001, [], [.queue]⟩, fun _ => [], fun _ => .start none⟩

/-- One item that is queued. -/
theorem not_processable_sample :
    ¬ Processable sampleLibraries sampleSurroundings
      (Scraper.commit (fun _ => (⟨0, 0, 0, 0, 0, .replicate 6 0⟩, .done))
        ⟨[([97], [98])], 0⟩).messages := by
  intro hpasses
  have hone := hpasses _ List.mem_cons_self
  exact absurd ((passes_iff _ _ rfl).mp hone) (not_not.mpr List.mem_cons_self)

end Mavicona
