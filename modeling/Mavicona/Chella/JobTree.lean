import Mathlib.Data.List.Forall2
import Mavicona.Chella.WriteAhead
import Mavicona.Chella.Subjobs

/-!
# The tree of executed jobs

Reference: `packer/mock.py` (`jobrunner`), `packer/ace/job.py` (`Chain`), `chella/exec.cpp`
(`Execute::run`, `Execute::prospect`), `chella/chella.cpp` (`prepareJob`).

A job is a function from its status and its data to what it does with its chains. The mocker runs the
subjobs of every pushed chain right away, one after the other and all in one process; the cluster submits
them to the master and runs every job it is handed in a process of its own. Either way a tree of jobs is
executed.

They agree on the lifecycle of a single job. But all chains of a process share one list. In the mocker
this is the list of the whole tree: every pushed chain runs all that was added so far, with numbers of
its own, and a subjob that adds to the list makes the loop above it longer. In the cluster every job
starts with an empty list, whose members are numbered over all pushed chains. Further, the mocker moves
from spawn to partition to funnel and the cluster always submits partitions, and the mocker stops with a
`TypeError` at a subjob without data.
-/

namespace Mavicona.Chella

/-! ## Jobs -/

/-- A job: what it does with its chains. -/
abbrev JobFun := JobState → Bytes → List ChainOp

/-- The methods of a job that a runner calls. -/
inductive Lifecycle
  | setupOnce
  | setup
  | run
  | teardown
  | teardownOnce
deriving DecidableEq, Repr

/-- A job as a runner is given it. -/
structure JobInstance where
  status : JobState
  data : Bytes
  partition : ℤ
  count : ℤ

/-- What is observed of an executed job. -/
structure JobLabel where
  status : JobState
  partition : ℤ
  count : ℤ
  calls : List Lifecycle
deriving DecidableEq

/-- A tree of executed jobs. -/
inductive JobTree
  | node (label : JobLabel) (children : List JobTree)

namespace JobTree

def label : JobTree → JobLabel
  | node label _ => label

def children : JobTree → List JobTree
  | node _ children => children

/-- The same tree, up to the order of siblings. -/
inductive Same : JobTree → JobTree → Prop
  | node {label : JobLabel} {ts ts' us : List JobTree} (hperm : ts.Perm ts')
      (hchildren : List.Forall₂ Same ts' us) : Same (.node label ts) (.node label us)

end JobTree

/-! ## The mocker -/

/-- The status of the subjobs. -/
def mockStatus : JobState → JobState
  | .spawn => .partition
  | .partition => .funnel
  | .funnel => .funnel

/-- The calls of `jobrunner`, for a job that pushes `chains` chains. -/
def mockCalls (status : JobState) (chains : ℕ) : List Lifecycle :=
  (if status = .spawn then [.setupOnce] else []) ++ [.setup, .run, .teardown] ++
    (if status = .spawn ∧ chains = 0 then [.teardownOnce] else []) ++
    (if status = .funnel then [.teardownOnce] else [])

/-- `job['data']`, if `len` does not raise on it. -/
def PyData.given : PyData → Option Bytes
  | .absent => none
  | .bytes b => some b
  | .bytearray b => some b
  | .str s _ => some (asciiBytes s)

section Mocker

variable (run : List PySubjob → JobInstance → Option (JobTree × List PySubjob)) (status : JobState)

/-- The loop over the subjobs of a chain, from the `k`-th one on. A subjob that is run may add to the
list. -/
def subjobLoop : ℕ → ℕ → List PySubjob → Option (List JobTree × List PySubjob)
  | 0, _, _ => none
  | n + 1, k, subjobs =>
    match subjobs[k]? with
    | none => some ([], subjobs)
    | some job =>
      job.data.given.bind fun data =>
        (run subjobs ⟨mockStatus status, data, k, subjobs.length⟩).bind fun (t, subjobs) =>
          (subjobLoop n (k + 1) subjobs).map fun (ts, subjobs) => (t :: ts, subjobs)

/-- The loop over the chains of a job, which all have the one list. -/
def chainLoop (n : ℕ) : ℕ → List PySubjob → Option (List JobTree × List PySubjob)
  | 0, subjobs => some ([], subjobs)
  | chains + 1, subjobs =>
    (subjobLoop run status n 0 subjobs).bind fun (ts, subjobs) =>
      (chainLoop n chains subjobs).map fun (us, subjobs) => (ts ++ us, subjobs)

end Mocker

/-- `jobrunner`, down to a depth of `n`: the tree that it has executed, and the list of the class. -/
def jobrunner (job : JobFun) : ℕ → List PySubjob → JobInstance → Option (JobTree × List PySubjob)
  | 0, _, _ => none
  | n + 1, subjobs, i =>
    let s := (job i.status i.data).foldl JobChains.step ⟨subjobs, []⟩
    (chainLoop (jobrunner job n) i.status n s.chains.length s.subjobs).map fun (ts, subjobs) =>
      (.node ⟨i.status, i.partition, i.count, mockCalls i.status s.chains.length⟩ ts, subjobs)

/-! ## The cluster -/

/-- The call behind a checkpoint. -/
def Checkpoint.call : Checkpoint → Option Lifecycle
  | .setupOnce => some .setupOnce
  | .setup => some .setup
  | .run => some .run
  | .teardown => some .teardown
  | .teardownOnce => some .teardownOnce
  | _ => none

/-- The calls of `Execute::run` in a run that succeeds, each of which is logged. -/
def clusterCalls (status : JobState) (chains : ℕ) : List Lifecycle :=
  (Execute.walOps (Execute.run status { sampleOutcome with chainsSize := chains })).filterMap fun
    | .setCheckpoint c => c.call
    | _ => none

/-- What `Execute::run` hands to the job. -/
def Parameter.toInstance (p : Parameter) : JobInstance :=
  ⟨p.jobstate, p.jobdata, p.jobpartition.toInt32.toInt, p.jobpartitionCount.toInt32.toInt⟩

/-- The subjobs of a job, as they are run. -/
def clusterKids (quids : ℕ → Bytes) (package jobquid : Bytes) (ops : List ChainOp) : List JobInstance :=
  (submitted true quids (some package) jobquid ops).map fun j => j.toParameter.toInstance

/-- A job in the queue of the master. The quids of the subjobs of a job are new, here its own quid and
their position. -/
structure PendingJob where
  quid : List ℕ
  parent : Option (List ℕ)
  inst : JobInstance

/-- A job that was executed. -/
structure ExecutedJob where
  quid : List ℕ
  parent : Option (List ℕ)
  label : JobLabel

namespace PendingJob

variable (job : JobFun)

/-- The job once it is executed. -/
def executed (p : PendingJob) : ExecutedJob :=
  ⟨p.quid, p.parent, p.inst.status, p.inst.partition, p.inst.count,
    clusterCalls p.inst.status (runChains (job p.inst.status p.inst.data)).chains.length⟩

/-- The jobs it submits. -/
def kids (p : PendingJob) : List PendingJob :=
  (clusterKids (fun _ => []) [] [] (job p.inst.status p.inst.data)).mapIdx fun i inst =>
    ⟨p.quid ++ [i], some p.quid, inst⟩

end PendingJob

/-- The jobs in the queue are executed, in any order, and with them the jobs they submit. -/
inductive Executes (job : JobFun) : List PendingJob → List ExecutedJob → Prop
  | nil : Executes job [] []
  | cons {front back : List PendingJob} {p : PendingJob} {es : List ExecutedJob}
      (hrest : Executes job (front ++ back ++ p.kids job) es) :
      Executes job (front ++ p :: back) (p.executed job :: es)

/-- The tree below an executed job: its children are the jobs that name it as their parent. -/
inductive Linked (es : List ExecutedJob) : ExecutedJob → JobTree → Prop
  | node {e : ExecutedJob} {kids : List ExecutedJob} {ts : List JobTree}
      (hkids : kids.Perm (es.filter (·.parent = some e.quid)))
      (hts : List.Forall₂ (Linked es) kids ts) : Linked es e (.node e.label ts)

/-- The first job, which no job submitted, and the tree below it. -/
def TreeOf (es : List ExecutedJob) (t : JobTree) : Prop := ∃ e ∈ es, e.parent = none ∧ Linked es e t

/-! ## Agreement -/

/-- The job that is submitted from outside. -/
def rootInstance (data : Bytes) : JobInstance := ⟨.spawn, data, 0, 0⟩

def rootJob (data : Bytes) : PendingJob := ⟨[], none, rootInstance data⟩

/-- Mocker and cluster both come to an end, and execute the same tree. -/
def SameTree (job : JobFun) (data : Bytes) : Prop :=
  ∃ n tm subjobs, jobrunner job n [] (rootInstance data) = some (tm, subjobs) ∧
    (∃ es, Executes job [rootJob data] es) ∧
    ∀ es, Executes job [rootJob data] es → ∃ tc, TreeOf es tc ∧ tm.Same tc

/-- One chain was pushed; all that was added, to whichever chain, is fewer than `2 ^ 31` subjobs with
ASCII names and data; and run as partitions these do nothing with chains in the mocker, and submit nothing
in the cluster, which hands them their data as it was extracted. -/
structure OneChain (job : JobFun) (ops : List ChainOp) : Prop where
  pushed : (pushes ops).length = 1
  few : (adds ops).length < 2 ^ 31
  kept : ∀ a ∈ adds ops, ¬ a.2.Skipped
  present : ∀ a ∈ adds ops, a.2.data ≠ .absent
  leaf : ∀ a ∈ adds ops, adds (job .partition a.2.data.toBytes) = [] ∧
    pushes (job .partition a.2.data.toBytes) = []
  clusterLeaf : ∀ a ∈ adds ops, pushes (job .partition a.2.data.extract) = [] ∨
    ∀ b ∈ adds (job .partition a.2.data.extract), b.2.Skipped

/-- The condition on the job: its first run pushes no chain, or adds no subjob, or all it adds belongs to
one pushed chain and submits nothing further. -/
def FlatJob (job : JobFun) (data : Bytes) : Prop :=
  pushes (job .spawn data) = [] ∨ adds (job .spawn data) = [] ∨ OneChain job (job .spawn data)

/-! ## One job -/

section OneJob

/-- Mocker and cluster call the same methods. -/
theorem clusterCalls_eq (status : JobState) (chains : ℕ) :
    clusterCalls status chains = mockCalls status chains := by
  by_cases hchains : chains = 0
  · subst hchains
    cases status <;> rfl
  -- Only whether there are chains matters, so one chain stands for all.
  · have hrun : Execute.jobStages status { sampleOutcome with chainsSize := chains }
        = Execute.jobStages status { sampleOutcome with chainsSize := 1 } := by
      simp [Execute.jobStages, hchains]
    have hone : clusterCalls status chains = clusterCalls status 1 := by
      unfold clusterCalls
      simp only [Execute.run, hrun]
      rfl
    have hmock : mockCalls status chains = mockCalls status 1 := by simp [mockCalls, hchains]
    rw [hone, hmock]
    cases status <;> rfl

/-- The subjobs that are not skipped, once for every pushed chain. -/
def keptSubjobs (ops : List ChainOp) : List Ace.Subjob :=
  (pushes ops).zipIdx.flatMap fun c => (adds ops).filterMap fun a => a.2.extract c.2

theorem length_keptSubjobs (ops : List ChainOp) : (keptSubjobs ops).length =
    (pushes ops).length * (adds ops).countP fun a => (encodeAscii a.2.name).isSome := by
  have hread : ∀ n : ℕ, ((adds ops).filterMap fun a => a.2.extract n).length =
      (adds ops).countP fun a => (encodeAscii a.2.name).isSome := by
    intro n
    rw [List.length_filterMap_eq_countP]
    simp only [PySubjob.extract, Option.isSome_map]
  rw [keptSubjobs, List.length_flatMap]
  simp [hread]

/-- The subjobs as the cluster runs them: partitions, numbered over all chains. -/
theorem clusterKids_eq (quids : ℕ → Bytes) (package jobquid : Bytes) (ops : List ChainOp) :
    clusterKids quids package jobquid ops = (keptSubjobs ops).mapIdx fun i t =>
      ⟨.partition, t.data, (Int32.ofNat i).toInt, (Int32.ofNat (keptSubjobs ops).length).toInt⟩ := by
  have hchain : ∀ (quid : Bytes) (chains : List (List PySubjob)), extractChains quid chains =
      if chains.length > 0 then
        some ⟨quid, chains.zipIdx.flatMap fun c => c.1.filterMap (PySubjob.extract c.2)⟩
      else none := fun _ _ => rfl
  have hkept : ((pushes ops).map
      (JobChains.subjobsOf ⟨(adds ops).map Prod.snd, pushes ops⟩)).zipIdx.flatMap
        (fun c => c.1.filterMap (PySubjob.extract c.2)) = keptSubjobs ops := by
    rw [keptSubjobs, List.zipIdx_map, List.flatMap_map]
    simp only [Prod.map_fst, Prod.map_snd, id_eq, JobChains.subjobsOf, List.filterMap_map]
    rfl
  rw [clusterKids, submitted, if_pos rfl, runChains_eq, hchain, hkept]
  split_ifs with hchains
  · refine List.ext_getElem (by simp [prospect]) fun i hi hi' => ?_
    simp only [prospect, List.getElem_map, List.getElem_mapIdx]
    rfl
  · have hnil : pushes ops = [] := by simpa using hchains
    simp [prospect, hnil, keptSubjobs]

variable {job : JobFun} {p k : PendingJob}

theorem PendingJob.length_kids (p : PendingJob) :
    (p.kids job).length = (keptSubjobs (job p.inst.status p.inst.data)).length := by
  simp [kids, clusterKids_eq]

theorem PendingJob.kids_eq_nil_iff (p : PendingJob) :
    p.kids job = [] ↔ pushes (job p.inst.status p.inst.data) = [] ∨
      ∀ a ∈ adds (job p.inst.status p.inst.data), a.2.Skipped := by
  rw [← List.length_eq_zero_iff, length_kids, length_keptSubjobs, mul_eq_zero,
    List.length_eq_zero_iff, List.countP_eq_zero]
  refine or_congr_right (forall₂_congr fun a _ => ?_)
  rw [← a.2.extract_eq_none_iff 0, PySubjob.extract, Option.map_eq_none_iff, Option.not_isSome_iff_eq_none]

/-- The jobs that are submitted. -/
theorem PendingJob.kids_eq (p : PendingJob) :
    p.kids job = (keptSubjobs (job p.inst.status p.inst.data)).mapIdx fun i t =>
      ⟨p.quid ++ [i], some p.quid, .partition, t.data, (Int32.ofNat i).toInt,
        (Int32.ofNat (keptSubjobs (job p.inst.status p.inst.data)).length).toInt⟩ := by
  rw [kids, clusterKids_eq, List.mapIdx_mapIdx]
  rfl

/-- Every subjob that is not skipped is submitted. -/
theorem PendingJob.exists_kid (p : PendingJob) {i : ℕ}
    (hi : i < (keptSubjobs (job p.inst.status p.inst.data)).length) :
    ∃ k ∈ p.kids job, k.inst =
      ⟨.partition, (keptSubjobs (job p.inst.status p.inst.data))[i].data, (Int32.ofNat i).toInt,
        (Int32.ofNat (keptSubjobs (job p.inst.status p.inst.data)).length).toInt⟩ := by
  rw [kids_eq]
  exact ⟨_, List.mem_mapIdx.mpr ⟨i, hi, rfl⟩, rfl⟩

/-- A job that is submitted names its parent, and is a partition. -/
theorem PendingJob.of_mem_kids (hk : k ∈ p.kids job) :
    k.parent = some p.quid ∧ k.inst.status = .partition ∧ ∃ i, k.quid = p.quid ++ [i] := by
  rw [kids_eq] at hk
  obtain ⟨i, hi, rfl⟩ := List.mem_mapIdx.mp hk
  exact ⟨rfl, rfl, i, rfl⟩

end OneJob

/-! ## The queue -/

section Queue

variable {job : JobFun} {ps : List PendingJob} {es : List ExecutedJob}

/-- What holds of the jobs in the queue and passes to the jobs they submit holds of all that is
executed. -/
theorem Executes.forall {P : PendingJob → Prop} (h : Executes job ps es)
    (hkids : ∀ p, P p → ∀ k ∈ p.kids job, P k) (hps : ∀ p ∈ ps, P p) :
    ∀ e ∈ es, ∃ p, P p ∧ e = p.executed job := by
  induction h with
  | nil => exact fun _ he => absurd he List.not_mem_nil
  | @cons front back p es _ ih =>
    have hp : P p := hps p (List.mem_append_right _ List.mem_cons_self)
    have hrest : ∀ q ∈ front ++ back ++ p.kids job, P q := by
      intro q hq
      rcases List.mem_append.mp hq with hq | hq
      · apply hps
        rcases List.mem_append.mp hq with hq | hq
        · exact List.mem_append_left _ hq
        · exact List.mem_append_right _ (List.mem_cons_of_mem _ hq)
      · exact hkids p hp q hq
    intro e he
    rcases List.mem_cons.mp he with rfl | he
    · exact ⟨p, hp, rfl⟩
    · exact ih hrest e he

/-- Every job in the queue is executed. -/
theorem Executes.executed_mem (h : Executes job ps es) {p : PendingJob} (hp : p ∈ ps) :
    p.executed job ∈ es := by
  induction h with
  | nil => exact absurd hp List.not_mem_nil
  | @cons front back q es _ ih =>
    by_cases hpq : p = q
    · rw [hpq]
      exact List.mem_cons_self
    · apply List.mem_cons_of_mem
      apply ih
      simp only [List.mem_append, List.mem_cons] at hp ⊢
      tauto

/-- And so are the jobs it submits. -/
theorem Executes.kids_mem (h : Executes job ps es) {p k : PendingJob} (hp : p ∈ ps)
    (hk : k ∈ p.kids job) : k.executed job ∈ es := by
  induction h with
  | nil => exact absurd hp List.not_mem_nil
  | @cons front back q es hrest ih =>
    apply List.mem_cons_of_mem
    by_cases hpq : p = q
    · subst hpq
      exact hrest.executed_mem (List.mem_append_right _ hk)
    · apply ih
      simp only [List.mem_append, List.mem_cons] at hp ⊢
      tauto

/-- The jobs with a given parent, when that parent does not come from the queue: those in the queue. -/
theorem Executes.filter_parent (h : Executes job ps es) {q : List ℕ}
    (hq : ∀ p ∈ ps, ¬ p.quid <+: q) :
    (es.filter (·.parent = some q)).Perm
      ((ps.filter (·.parent = some q)).map (PendingJob.executed job)) := by
  induction h with
  | nil => exact List.Perm.refl _
  | @cons front back p es _ ih =>
    have hp : ¬ p.quid <+: q := hq p (List.mem_append_right _ List.mem_cons_self)
    -- The quid of a subjob extends that of its parent, so it is no prefix of `q` either.
    have hkids : ∀ k ∈ p.kids job, ¬ k.quid <+: q ∧ k.parent ≠ some q := by
      intro k hk
      obtain ⟨hparent, -, i, hquid⟩ := PendingJob.of_mem_kids hk
      constructor
      · intro hpre
        rw [hquid] at hpre
        exact hp ((List.prefix_append _ _).trans hpre)
      · rw [hparent]
        rintro heq
        rw [Option.some.inj heq] at hp
        exact hp (List.prefix_refl q)
    have hnone : (p.kids job).filter (·.parent = some q) = [] := by
      rw [List.filter_eq_nil_iff]
      intro k hk
      simpa using (hkids k hk).2
    have hrest : ∀ r ∈ front ++ back ++ p.kids job, ¬ r.quid <+: q := by
      intro r hr
      rcases List.mem_append.mp hr with hr | hr
      · apply hq
        simp only [List.mem_append, List.mem_cons] at hr ⊢
        tauto
      · exact (hkids r hr).1
    have hperm := ih hrest
    rw [List.filter_append, hnone, List.append_nil] at hperm
    have hmove : (front ++ p :: back).Perm (p :: (front ++ back)) := List.perm_middle
    -- The job that is executed here has left the middle of the queue.
    refine List.Perm.trans ?_ ((hmove.filter _).map _).symm
    have hexecuted : (p.executed job).parent = p.parent := rfl
    rw [List.filter_cons, List.filter_cons, hexecuted]
    split_ifs
    · exact hperm.cons _
    · exact hperm

/-- The first job is executed first. -/
theorem Executes.of_singleton {p : PendingJob} (h : Executes job [p] es) :
    ∃ es', es = p.executed job :: es' ∧ Executes job (p.kids job) es' := by
  generalize hps : [p] = ps at h
  cases h with
  | nil => exact absurd hps (by simp)
  | @cons front back q es' hrest =>
    rcases List.singleton_eq_append_iff.mp hps with ⟨rfl, hcons⟩ | ⟨-, hcons⟩
    · obtain ⟨rfl, rfl⟩ := List.cons.inj hcons
      exact ⟨es', rfl, by simpa using hrest⟩
    · exact absurd hcons (by simp)

/-- Jobs that submit nothing are executed, and nothing else is. -/
theorem Executes.perm_of_leaves (h : Executes job ps es) (hleaf : ∀ p ∈ ps, p.kids job = []) :
    es.Perm (ps.map (PendingJob.executed job)) := by
  induction h with
  | nil => exact List.Perm.refl _
  | @cons front back p es _ ih =>
    have hp := hleaf p (List.mem_append_right _ List.mem_cons_self)
    have hperm := ih (by
      intro q hq
      rw [hp, List.append_nil] at hq
      apply hleaf
      simp only [List.mem_append, List.mem_cons] at hq ⊢
      tauto)
    rw [hp, List.append_nil] at hperm
    have hmove : (front ++ p :: back).Perm (p :: (front ++ back)) := List.perm_middle
    exact (hperm.cons _).trans (hmove.map _).symm

theorem executes_leaves (hleaf : ∀ p ∈ ps, p.kids job = []) :
    Executes job ps (ps.map (PendingJob.executed job)) := by
  induction ps with
  | nil => exact .nil
  | cons p ps ih =>
    have hrest := ih fun q hq => hleaf q (List.mem_cons_of_mem _ hq)
    have hcons : Executes job ([] ++ p :: ps) (p.executed job :: ps.map (PendingJob.executed job)) := by
      apply Executes.cons
      rw [hleaf p List.mem_cons_self]
      simpa using hrest
    exact hcons

end Queue

/-! ## The runs of the mocker -/

section MockRuns

variable {run : List PySubjob → JobInstance → Option (JobTree × List PySubjob)} {status : JobState}
  {n k chains : ℕ} {s s' : List PySubjob} {ts : List JobTree} {i : JobInstance} {t : JobTree}
  {job : JobFun}

/-- A run only adds to the list, and its tree is labelled with what it was given. -/
structure IsRunner (run : List PySubjob → JobInstance → Option (JobTree × List PySubjob)) : Prop where
  grows : ∀ {s i t s'}, run s i = some (t, s') → s <+: s'
  label : ∀ {s i t s'}, run s i = some (t, s') →
    t.label.status = i.status ∧ t.label.partition = i.partition ∧ t.label.count = i.count

/-- A turn of the loop over the subjobs. -/
theorem subjobLoop_succ (h : subjobLoop run status (n + 1) k s = some (ts, s')) :
    (s.length ≤ k ∧ ts = [] ∧ s' = s) ∨
    ∃ (hk : k < s.length) (data : Bytes) (t : JobTree) (s₁ : List PySubjob) (us : List JobTree),
      s[k].data.given = some data ∧ run s ⟨mockStatus status, data, k, s.length⟩ = some (t, s₁) ∧
      subjobLoop run status n (k + 1) s₁ = some (us, s') ∧ ts = t :: us := by
  rw [subjobLoop] at h
  by_cases hk : k < s.length
  · rw [List.getElem?_eq_getElem hk] at h
    obtain ⟨data, hdata, h⟩ := Option.bind_eq_some_iff.mp h
    obtain ⟨⟨t, s₁⟩, hrun, h⟩ := Option.bind_eq_some_iff.mp h
    obtain ⟨⟨us, s₂⟩, hrest, h⟩ := Option.map_eq_some_iff.mp h
    obtain ⟨rfl, rfl⟩ := Prod.mk.inj h
    exact .inr ⟨hk, data, t, s₁, us, hdata, hrun, hrest, rfl⟩
  · rw [List.getElem?_eq_none (not_lt.mp hk)] at h
    obtain ⟨rfl, rfl⟩ := Prod.mk.inj (Option.some.inj h)
    exact .inl ⟨not_lt.mp hk, rfl, rfl⟩

theorem chainLoop_succ (h : chainLoop run status n (chains + 1) s = some (ts, s')) :
    ∃ us s₁ vs, subjobLoop run status n 0 s = some (us, s₁) ∧
      chainLoop run status n chains s₁ = some (vs, s') ∧ ts = us ++ vs := by
  obtain ⟨⟨us, s₁⟩, hloop, h⟩ := Option.bind_eq_some_iff.mp h
  obtain ⟨⟨vs, s₂⟩, hrest, h⟩ := Option.map_eq_some_iff.mp h
  obtain ⟨rfl, rfl⟩ := Prod.mk.inj h
  exact ⟨us, s₁, vs, hloop, hrest, rfl⟩

theorem IsRunner.subjobLoop_grows (hrun : IsRunner run)
    (h : subjobLoop run status n k s = some (ts, s')) : s <+: s' := by
  induction n generalizing k s ts with
  | zero => cases h
  | succ n ih =>
    rcases subjobLoop_succ h with ⟨-, -, rfl⟩ | ⟨-, data, t, s₁, us, -, ht, hrest, -⟩
    · exact List.prefix_refl _
    · exact (hrun.grows ht).trans (ih hrest)

theorem IsRunner.chainLoop_grows (hrun : IsRunner run)
    (h : chainLoop run status n chains s = some (ts, s')) : s <+: s' := by
  induction chains generalizing s ts with
  | zero =>
    obtain ⟨-, rfl⟩ := Prod.mk.inj (Option.some.inj h)
    exact List.prefix_refl _
  | succ chains ih =>
    obtain ⟨us, s₁, vs, hloop, hrest, -⟩ := chainLoop_succ h
    exact (hrun.subjobLoop_grows hloop).trans (ih hrest)

/-- What a call of `jobrunner` does. -/
theorem jobrunner_eq_some (h : jobrunner job n s i = some (t, s')) :
    ∃ m ts, n = m + 1 ∧ chainLoop (jobrunner job m) i.status m (pushes (job i.status i.data)).length
        (s ++ (adds (job i.status i.data)).map Prod.snd) = some (ts, s') ∧
      t = .node ⟨i.status, i.partition, i.count,
        mockCalls i.status (pushes (job i.status i.data)).length⟩ ts := by
  cases n with
  | zero => cases h
  | succ m =>
    rw [jobrunner, foldl_step] at h
    obtain ⟨⟨ts, s₁⟩, hloop, h⟩ := Option.map_eq_some_iff.mp h
    obtain ⟨rfl, rfl⟩ := Prod.mk.inj h
    exact ⟨m, ts, rfl, hloop, rfl⟩

theorem isRunner_jobrunner (job : JobFun) (n : ℕ) : IsRunner (jobrunner job n) := by
  induction n with
  | zero =>
    constructor
    · intro s i t s' h
      cases h
    · intro s i t s' h
      cases h
  | succ n ih =>
    constructor
    · intro s i t s' h
      obtain ⟨m, ts, hm, hloop, -⟩ := jobrunner_eq_some h
      obtain rfl := Nat.succ.inj hm
      exact (List.prefix_append _ _).trans (ih.chainLoop_grows hloop)
    · intro s i t s' h
      obtain ⟨m, ts, -, -, rfl⟩ := jobrunner_eq_some h
      exact ⟨rfl, rfl, rfl⟩

/-- Subjobs that all count as many as there are have added nothing: the loop has run each of them once. -/
theorem IsRunner.subjobLoop_spec (hrun : IsRunner run)
    (h : subjobLoop run status n k s = some (ts, s')) (hk : k ≤ s.length)
    (hcount : ∀ t ∈ ts, t.label.count = s.length) :
    s' = s ∧ ts.length = s.length - k ∧
      ∀ j (hj : j < ts.length), ∃ (hs : k + j < s.length) (data : Bytes), s[k + j].data.given = some data ∧
        run s ⟨mockStatus status, data, (k + j : ℕ), s.length⟩ = some (ts[j], s) := by
  induction n generalizing k s ts with
  | zero => cases h
  | succ n ih =>
    rcases subjobLoop_succ h with ⟨hend, rfl, rfl⟩ | ⟨hlt, data, t, s₁, us, hdata, ht, hrest, rfl⟩
    · exact ⟨rfl, by simp [hend], fun j hj => absurd hj (by simp)⟩
    · -- A list that has grown has a next subjob, which counts it.
      have hsame : s₁ = s := by
        refine ((hrun.grows ht).eq_of_length ?_).symm
        by_contra hne
        have hlong : s.length < s₁.length := lt_of_le_of_ne (hrun.grows ht).length_le hne
        cases n with
        | zero => cases hrest
        | succ n =>
          rcases subjobLoop_succ hrest with ⟨hend, -, -⟩ | ⟨-, data', t', s₂, us', -, ht', -, rfl⟩
          · omega
          · have hlabel := (hrun.label ht').2.2
            rw [hcount t' (by simp)] at hlabel
            exact hne (Int.ofNat_inj.mp hlabel)
      subst hsame
      obtain ⟨hs', hlen, hall⟩ := ih hrest hlt fun t' ht' => hcount t' (List.mem_cons_of_mem _ ht')
      refine ⟨hs', by rw [List.length_cons, hlen]; omega, fun j hj => ?_⟩
      cases j with
      | zero => exact ⟨hlt, data, hdata, ht⟩
      | succ j =>
        obtain ⟨hs, data', hdata', ht'⟩ := hall j (by simpa using hj)
        have hindex : k + 1 + j = k + (j + 1) := by omega
        simp only [hindex] at hs hdata' ht'
        exact ⟨hs, data', hdata', ht'⟩

/-- The same for all chains. -/
theorem IsRunner.chainLoop_spec (hrun : IsRunner run)
    (h : chainLoop run status n chains s = some (ts, s'))
    (hcount : ∀ t ∈ ts, t.label.count = s.length) :
    s' = s ∧ ts.length = chains * s.length ∧
      (∀ t ∈ ts, ∃ (j : ℕ) (hj : j < s.length) (data : Bytes), s[j].data.given = some data ∧
        run s ⟨mockStatus status, data, j, s.length⟩ = some (t, s)) ∧
      (chains ≠ 0 → ∀ j (hj : j < s.length), ∃ t ∈ ts, ∃ data, s[j].data.given = some data ∧
        run s ⟨mockStatus status, data, j, s.length⟩ = some (t, s)) := by
  induction chains generalizing s ts with
  | zero =>
    obtain ⟨rfl, rfl⟩ := Prod.mk.inj (Option.some.inj h)
    exact ⟨rfl, by simp, fun t ht => absurd ht List.not_mem_nil, fun hne => absurd rfl hne⟩
  | succ chains ih =>
    obtain ⟨us, s₁, vs, hloop, hrest, rfl⟩ := chainLoop_succ h
    obtain ⟨rfl, hlen, hall⟩ := hrun.subjobLoop_spec hloop (Nat.zero_le _) fun t ht =>
      hcount t (List.mem_append_left _ ht)
    obtain ⟨hs', hlen', hmem, -⟩ := ih hrest fun t ht => hcount t (List.mem_append_right _ ht)
    simp only [Nat.zero_add, Nat.sub_zero] at hlen hall
    refine ⟨hs', by rw [List.length_append, hlen, hlen']; ring, fun t ht => ?_, fun _ j hj => ?_⟩
    · rcases List.mem_append.mp ht with ht | ht
      · obtain ⟨j, hj, rfl⟩ := List.mem_iff_getElem.mp ht
        obtain ⟨hs, data, hdata, hran⟩ := hall j hj
        exact ⟨j, hs, data, hdata, hran⟩
      · exact hmem t ht
    · obtain ⟨hs, data, hdata, hran⟩ := hall j (by omega)
      exact ⟨us[j], List.mem_append_left _ (List.getElem_mem _), data, hdata, hran⟩

/-- The first subjob counts those that were there at the start. -/
theorem IsRunner.exists_first (hrun : IsRunner run)
    (h : chainLoop run status n chains s = some (ts, s')) (hchains : chains ≠ 0) (hs : s ≠ []) :
    ∃ t ∈ ts, t.label.count = s.length ∧ t.label.status = mockStatus status := by
  obtain ⟨chains, rfl⟩ := Nat.exists_eq_succ_of_ne_zero hchains
  obtain ⟨us, s₁, vs, hloop, -, rfl⟩ := chainLoop_succ h
  have hpos := List.length_pos_iff.mpr hs
  cases n with
  | zero => cases hloop
  | succ n =>
    rcases subjobLoop_succ hloop with ⟨hend, -, -⟩ | ⟨-, data, t, s₁', us', -, ht, -, rfl⟩
    · omega
    · exact ⟨t, by simp, (hrun.label ht).2.2, (hrun.label ht).1⟩

end MockRuns

/-! ## Two trees that are the same -/

section Match

/-- Every element on the left has one on the right. -/
theorem exists_of_forall₂_left {α β : Type*} {R : α → β → Prop} {l : List α} {m : List β}
    (h : List.Forall₂ R l m) {a : α} (ha : a ∈ l) : ∃ b ∈ m, R a b := by
  induction h with
  | nil => exact absurd ha List.not_mem_nil
  | cons hab _ ih =>
    rcases List.mem_cons.mp ha with rfl | ha
    · exact ⟨_, List.mem_cons_self, hab⟩
    · obtain ⟨b, hb, hR⟩ := ih ha
      exact ⟨b, List.mem_cons_of_mem _ hb, hR⟩

theorem exists_of_forall₂_right {α β : Type*} {R : α → β → Prop} {l : List α} {m : List β}
    (h : List.Forall₂ R l m) {b : β} (hb : b ∈ m) : ∃ a ∈ l, R a b :=
  exists_of_forall₂_left h.flip hb

/-- A tree of the mocker and the tree below a job of the cluster that are the same. -/
def Matches (es : List ExecutedJob) (t : JobTree) (e : ExecutedJob) : Prop :=
  ∃ u, t.Same u ∧ Linked es e u

variable {es : List ExecutedJob} {t : JobTree} {e : ExecutedJob}

theorem Matches.label (h : Matches es t e) : t.label = e.label := by
  obtain ⟨u, hsame, hlinked⟩ := h
  cases hsame
  generalize hu : JobTree.node _ _ = u at hlinked
  cases hlinked
  exact (JobTree.node.inj hu).1

/-- The children match: every one on either side has one on the other. -/
theorem Matches.children (h : Matches es t e) :
    t.children.length = (es.filter (·.parent = some e.quid)).length ∧
      (∀ v ∈ t.children, ∃ f ∈ es.filter (·.parent = some e.quid), Matches es v f) ∧
      ∀ f ∈ es.filter (·.parent = some e.quid), ∃ v ∈ t.children, Matches es v f := by
  obtain ⟨u, hsame, hlinked⟩ := h
  cases hsame with
  | @node _ ts ts' us hperm hchildren =>
    generalize hu : JobTree.node _ _ = u at hlinked
    cases hlinked with
    | @node _ fs vs hfs hvs =>
      obtain rfl := (JobTree.node.inj hu).2
      refine ⟨?_, ?_, ?_⟩
      · rw [JobTree.children, hperm.length_eq, hchildren.length_eq, ← hvs.length_eq, hfs.length_eq]
      -- From a tree of the mocker through the permuted ones to a job of the cluster.
      · intro v hv
        obtain ⟨w, hw, hsame⟩ := exists_of_forall₂_left hchildren (hperm.mem_iff.mp hv)
        obtain ⟨f, hf, hlinked⟩ := exists_of_forall₂_right hvs hw
        exact ⟨f, hfs.mem_iff.mp hf, w, hsame, hlinked⟩
      -- And back.
      · intro f hf
        obtain ⟨w, hw, hlinked⟩ := exists_of_forall₂_left hvs (hfs.mem_iff.mpr hf)
        obtain ⟨v, hv, hsame⟩ := exists_of_forall₂_right hchildren hw
        exact ⟨v, hperm.mem_iff.mpr hv, w, hsame, hlinked⟩

end Match

/-! ## What the same tree asks of the job -/

section Necessary

variable {job : JobFun} {data : Bytes}

/-- The jobs that name the first one as their parent are those it has submitted. -/
theorem filter_parent_root {es : List ExecutedJob}
    (hes : Executes job ((rootJob data).kids job) es) :
    (((rootJob data).executed job :: es).filter (·.parent = some [])).Perm
      (((rootJob data).kids job).map (PendingJob.executed job)) := by
  have hroot : ((rootJob data).executed job).parent = none := rfl
  have hquids : ∀ k ∈ (rootJob data).kids job, ¬ k.quid <+: [] := by
    intro k hk hpre
    obtain ⟨-, -, i, hquid⟩ := PendingJob.of_mem_kids hk
    rw [hquid, List.prefix_nil] at hpre
    exact absurd hpre (by simp)
  have hall : ((rootJob data).kids job).filter (·.parent = some []) = (rootJob data).kids job := by
    rw [List.filter_eq_self]
    intro k hk
    have hparent : k.parent = some [] := (PendingJob.of_mem_kids hk).1
    simpa using hparent
  have hperm := hes.filter_parent hquids
  rw [hall] at hperm
  rw [List.filter_cons, hroot, if_neg (by simp)]
  exact hperm

/-- The children of the first run, as both sides have run them. -/
structure RootMatch (job : JobFun) (data : Bytes) (n : ℕ) (ts : List JobTree)
    (subjobs : List PySubjob) (es : List ExecutedJob) : Prop where
  executes : Executes job ((rootJob data).kids job) es
  runs : chainLoop (jobrunner job n) .spawn n (pushes (job .spawn data)).length
    ((adds (job .spawn data)).map Prod.snd) = some (ts, subjobs)
  length : ts.length = (keptSubjobs (job .spawn data)).length
  left : ∀ t ∈ ts, ∃ k ∈ (rootJob data).kids job,
    Matches ((rootJob data).executed job :: es) t (k.executed job)
  right : ∀ k ∈ (rootJob data).kids job, ∃ t ∈ ts,
    Matches ((rootJob data).executed job :: es) t (k.executed job)

theorem SameTree.rootMatch (h : SameTree job data) :
    ∃ n ts subjobs es, RootMatch job data n ts subjobs es := by
  obtain ⟨n, tm, subjobs, hmock, ⟨es, hes⟩, hall⟩ := h
  obtain ⟨tc, ⟨e, he, hroot, hlinked⟩, hsame⟩ := hall es hes
  obtain ⟨es', rfl, hes'⟩ := hes.of_singleton
  -- Every other job was submitted by one.
  have hparents : ∀ f ∈ es', f.parent ≠ none := by
    intro f hf
    obtain ⟨p, hp, rfl⟩ := hes'.forall (P := fun p => p.parent ≠ none)
      (fun p _ k hk => by rw [(PendingJob.of_mem_kids hk).1]; simp)
      (fun k hk => by rw [(PendingJob.of_mem_kids hk).1]; simp) f hf
    exact hp
  have hfirst : e = (rootJob data).executed job := by
    rcases List.mem_cons.mp he with rfl | he
    · rfl
    · exact absurd hroot (hparents e he)
  obtain ⟨m, ts, -, hloop, rfl⟩ := jobrunner_eq_some hmock
  have hmatch : Matches ((rootJob data).executed job :: es') (.node _ ts) ((rootJob data).executed job) :=
    ⟨tc, hsame, hfirst ▸ hlinked⟩
  obtain ⟨hlength, hleft, hright⟩ := hmatch.children
  have hperm := filter_parent_root hes'
  refine ⟨m, ts, subjobs, es', hes', hloop, ?_, ?_,
    fun k hk => hright _ (hperm.mem_iff.mpr (List.mem_map_of_mem hk))⟩
  · refine hlength.trans (hperm.length_eq.trans ?_)
    rw [List.length_map, PendingJob.length_kids]
    rfl
  · intro t ht
    obtain ⟨f, hf, hm⟩ := hleft t ht
    obtain ⟨k, hk, rfl⟩ := List.mem_map.mp (hperm.mem_iff.mp hf)
    exact ⟨k, hk, hm⟩

namespace RootMatch

variable {n : ℕ} {ts : List JobTree} {subjobs : List PySubjob} {es : List ExecutedJob}

/-- The count that the cluster gives to all of them. -/
theorem count (h : RootMatch job data n ts subjobs es) {t : JobTree} (ht : t ∈ ts) :
    t.label.count = (Int32.ofNat (keptSubjobs (job .spawn data)).length).toInt := by
  obtain ⟨k, hk, hm⟩ := h.left t ht
  rw [PendingJob.kids_eq] at hk
  obtain ⟨i, hi, rfl⟩ := List.mem_mapIdx.mp hk
  rw [hm.label]
  rfl

section Nonempty

variable (hpushes : pushes (job .spawn data) ≠ []) (hadds : adds (job .spawn data) ≠ [])
include hpushes hadds

/-- It is the number of subjobs that were added. -/
theorem length_adds (h : RootMatch job data n ts subjobs es) :
    ((adds (job .spawn data)).length : ℤ) =
      (Int32.ofNat (keptSubjobs (job .spawn data)).length).toInt := by
  obtain ⟨t, ht, hcount, -⟩ := (isRunner_jobrunner job n).exists_first h.runs
    (mt List.length_eq_zero_iff.mp hpushes) (mt List.map_eq_nil_iff.mp hadds)
  rw [h.count ht, List.length_map] at hcount
  exact hcount.symm

theorem few (h : RootMatch job data n ts subjobs es) : (adds (job .spawn data)).length < 2 ^ 31 := by
  have hlt : (Int32.ofNat (keptSubjobs (job .spawn data)).length).toInt < 2 ^ 31 := Int32.toInt_lt _
  rw [← h.length_adds hpushes hadds] at hlt
  exact_mod_cast hlt

/-- The subjobs of the first run, each of them run, and none of them adding any. -/
theorem spec (h : RootMatch job data n ts subjobs es) :
    ts.length = (pushes (job .spawn data)).length * (adds (job .spawn data)).length ∧
      (∀ t ∈ ts, ∃ (j : ℕ) (hj : j < (adds (job .spawn data)).length) (d : Bytes),
        (adds (job .spawn data))[j].2.data.given = some d ∧
        jobrunner job n ((adds (job .spawn data)).map Prod.snd)
          ⟨.partition, d, j, (adds (job .spawn data)).length⟩
            = some (t, (adds (job .spawn data)).map Prod.snd)) ∧
      ∀ j (hj : j < (adds (job .spawn data)).length), ∃ t ∈ ts, ∃ d,
        (adds (job .spawn data))[j].2.data.given = some d ∧
        jobrunner job n ((adds (job .spawn data)).map Prod.snd)
          ⟨.partition, d, j, (adds (job .spawn data)).length⟩
            = some (t, (adds (job .spawn data)).map Prod.snd) := by
  have hcount : ∀ t ∈ ts, t.label.count = ((adds (job .spawn data)).map Prod.snd).length := by
    intro t ht
    rw [h.count ht, ← h.length_adds hpushes hadds, List.length_map]
  obtain ⟨-, hlen, hmem, hall⟩ := (isRunner_jobrunner job n).chainLoop_spec h.runs hcount
  simp only [List.length_map, List.getElem_map] at hlen hmem hall
  exact ⟨hlen, hmem, hall (mt List.length_eq_zero_iff.mp hpushes)⟩

/-- No subjob was skipped. -/
theorem kept (h : RootMatch job data n ts subjobs es) :
    ∀ a ∈ adds (job .spawn data), ¬ a.2.Skipped := by
  have hlen := (h.spec hpushes hadds).1
  rw [h.length, length_keptSubjobs] at hlen
  have hall := List.countP_eq_length.mp
    (Nat.eq_of_mul_eq_mul_left (List.length_pos_iff.mpr hpushes) hlen)
  intro a ha hskipped
  have hsome := hall a ha
  rw [← a.2.extract_eq_none_iff 0, PySubjob.extract, Option.map_eq_none_iff] at hskipped
  rw [hskipped] at hsome
  exact Bool.false_ne_true hsome

/-- One chain was pushed: with two of them the cluster gives out a number that no subjob has. -/
theorem pushed (h : RootMatch job data n ts subjobs es) : (pushes (job .spawn data)).length = 1 := by
  obtain ⟨hlen, hmem, -⟩ := h.spec hpushes hadds
  have hpos := List.length_pos_iff.mpr hadds
  have hchains := List.length_pos_iff.mpr hpushes
  by_contra hne
  have htwo : 2 * (adds (job .spawn data)).length ≤ ts.length :=
    hlen ▸ Nat.mul_le_mul_right _ (by omega)
  rw [h.length] at htwo
  obtain ⟨k, hk, hinst⟩ := (rootJob data).exists_kid
    (by simp only [rootJob, rootInstance]; omega :
      (adds (job .spawn data)).length < (keptSubjobs (job _ _)).length)
  obtain ⟨t, ht, hm⟩ := h.right k hk
  obtain ⟨j, hj, d, -, hrun⟩ := hmem t ht
  have hpartition := ((isRunner_jobrunner job n).label hrun).2.1
  rw [hm.label] at hpartition
  have hnumber : (k.executed job).label.partition
      = (Int32.ofNat (adds (job .spawn data)).length).toInt := by
    rw [PendingJob.executed, hinst]
  rw [hnumber, Int32.toInt_ofNat_of_lt (h.few hpushes hadds)] at hpartition
  exact absurd (Int.ofNat_inj.mp hpartition) hj.ne'

end Nonempty

/-- All that is executed behind the first job are partitions. -/
theorem status (h : RootMatch job data n ts subjobs es) : ∀ e ∈ es, e.label.status = .partition := by
  intro e he
  obtain ⟨p, hp, rfl⟩ := h.executes.forall (P := fun p => p.inst.status = .partition)
    (fun p _ k hk => (PendingJob.of_mem_kids hk).2.1) (fun k hk => (PendingJob.of_mem_kids hk).2.1) e he
  exact hp

/-- A subjob of the first run does nothing with chains in the mocker: what it added would be run as well,
and what it pushed would run all there is as funnels. -/
theorem kid_leaf (h : RootMatch job data n ts subjobs es) (hadds : adds (job .spawn data) ≠ [])
    {i : JobInstance} (hi : i.status = .partition) {t : JobTree} (ht : t ∈ ts)
    (hrun : jobrunner job n ((adds (job .spawn data)).map Prod.snd) i
      = some (t, (adds (job .spawn data)).map Prod.snd)) :
    adds (job .partition i.data) = [] ∧ pushes (job .partition i.data) = [] ∧ t.children = [] := by
  obtain ⟨m, us, -, hloop, rfl⟩ := jobrunner_eq_some hrun
  rw [hi] at hloop ht
  have hgrows := ((isRunner_jobrunner job m).chainLoop_grows hloop).length_le
  have hnone : adds (job .partition i.data) = [] := by
    rw [List.length_append, List.length_map, List.length_map] at hgrows
    exact List.length_eq_zero_iff.mp (by omega)
  rw [hnone, List.map_nil, List.append_nil] at hloop
  -- The mocker would run the members of the list as funnels, and the cluster has no funnels.
  have hpushes : pushes (job .partition i.data) = [] := by
    by_contra hne
    obtain ⟨v, hv, -, hfunnel⟩ := (isRunner_jobrunner job m).exists_first hloop
      (mt List.length_eq_zero_iff.mp hne) (mt List.map_eq_nil_iff.mp hadds)
    obtain ⟨k, hk, hm⟩ := h.left _ ht
    obtain ⟨f, hf, hm'⟩ := hm.children.2.1 v hv
    obtain ⟨hmem, hparent⟩ := List.mem_filter.mp hf
    have hpartition : f.label.status = .partition := by
      rcases List.mem_cons.mp hmem with rfl | hmem
      · exact absurd hparent (by simp [PendingJob.executed, rootJob])
      · exact h.status f hmem
    rw [hm'.label, hpartition] at hfunnel
    exact absurd hfunnel (by decide)
  rw [hpushes, List.length_nil] at hloop
  obtain ⟨rfl, -⟩ := Prod.mk.inj (Option.some.inj hloop)
  exact ⟨hnone, hpushes, rfl⟩

theorem given_eq_some {d : PyData} {b : Bytes} (h : d.given = some b) : d ≠ .absent ∧ d.toBytes = b := by
  cases d with
  | absent => cases h
  | bytes | bytearray | str => exact ⟨by simp, Option.some.inj h⟩

theorem oneChain (h : RootMatch job data n ts subjobs es) (hpushes : pushes (job .spawn data) ≠ [])
    (hadds : adds (job .spawn data) ≠ []) : OneChain job (job .spawn data) := by
  obtain ⟨-, hmem, hall⟩ := h.spec hpushes hadds
  have hpushed := h.pushed hpushes hadds
  have hkid : ∀ a ∈ adds (job .spawn data), a.2.data ≠ .absent ∧
      adds (job .partition a.2.data.toBytes) = [] ∧ pushes (job .partition a.2.data.toBytes) = [] := by
    intro a ha
    obtain ⟨j, hj, rfl⟩ := List.mem_iff_getElem.mp ha
    obtain ⟨t, ht, d, hgiven, hrun⟩ := hall j hj
    obtain ⟨hpresent, rfl⟩ := given_eq_some hgiven
    obtain ⟨hnone, hnone', -⟩ := h.kid_leaf hadds rfl ht hrun
    exact ⟨hpresent, hnone, hnone'⟩
  refine ⟨hpushed, h.few hpushes hadds, h.kept hpushes hadds, fun a ha => (hkid a ha).1,
    fun a ha => (hkid a ha).2, fun a ha => ?_⟩
  -- The job of the cluster has no children, as the tree that it matches has none.
  obtain ⟨c, hc⟩ := List.length_eq_one_iff.mp hpushed
  have hkept : keptSubjobs (job .spawn data) = (adds (job .spawn data)).filterMap (·.2.extract 0) := by
    rw [keptSubjobs, hc]
    simp
  obtain ⟨u, hu⟩ := Option.ne_none_iff_exists'.mp
    (mt (a.2.extract_eq_none_iff 0).mp (h.kept hpushes hadds a ha))
  have hin : u ∈ keptSubjobs (job .spawn data) := hkept ▸ List.mem_filterMap.mpr ⟨a, ha, hu⟩
  obtain ⟨i, hi, rfl⟩ := List.mem_iff_getElem.mp hin
  have hdata : (keptSubjobs (job .spawn data))[i].data = a.2.data.extract := by
    obtain ⟨name, -, heq⟩ := Option.map_eq_some_iff.mp hu
    rw [← heq]
  obtain ⟨k, hk, hinst⟩ := (rootJob data).exists_kid hi
  obtain ⟨t, ht, hm⟩ := h.right k hk
  obtain ⟨j, hj, d, -, hrun⟩ := hmem t ht
  have hleaf := (h.kid_leaf hadds rfl ht hrun).2.2
  have hkids : k.kids job = [] := by
    by_contra hne
    obtain ⟨k', hk'⟩ := List.exists_mem_of_ne_nil _ hne
    have hparent : (k'.executed job).parent = some k.quid := (PendingJob.of_mem_kids hk').1
    obtain ⟨v, hv, -⟩ := hm.children.2.2 (k'.executed job) (List.mem_filter.mpr
      ⟨List.mem_cons_of_mem _ (h.executes.kids_mem hk hk'), decide_eq_true hparent⟩)
    rw [hleaf] at hv
    exact absurd hv List.not_mem_nil
  have hsubmits := k.kids_eq_nil_iff.mp hkids
  rw [hinst] at hsubmits
  rw [← hdata]
  exact hsubmits

end RootMatch

theorem SameTree.flatJob (h : SameTree job data) : FlatJob job data := by
  obtain ⟨n, ts, subjobs, es, hroot⟩ := h.rootMatch
  rw [FlatJob, or_iff_not_imp_left, or_iff_not_imp_left]
  exact hroot.oneChain

end Necessary

/-! ## Jobs that both execute alike -/

section Sufficient

variable {job : JobFun} {data : Bytes}

/-- A partition as it is observed. -/
def leafLabel (i n : ℕ) : JobLabel := ⟨.partition, i, n, [.setup, .run, .teardown]⟩

/-- The number of jobs that the first one submits, if it is flat. -/
def flatCount (ops : List ChainOp) : ℕ := if pushes ops = [] then 0 else (adds ops).length

/-- The tree of a job whose subjobs submit nothing. -/
def flatTree (job : JobFun) (data : Bytes) : JobTree :=
  .node ⟨.spawn, 0, 0, mockCalls .spawn (pushes (job .spawn data)).length⟩
    ((List.range (flatCount (job .spawn data))).map fun i =>
      .node (leafLabel i (flatCount (job .spawn data))) [])

/-- A list of which every member is a leaf. -/
theorem subjobLoop_leaves {run : List PySubjob → JobInstance → Option (JobTree × List PySubjob)}
    {status : JobState} {s : List PySubjob} {leaf : ℕ → JobTree}
    (hrun : ∀ j (hj : j < s.length), ∃ d, s[j].data.given = some d ∧
      run s ⟨mockStatus status, d, j, s.length⟩ = some (leaf j, s)) :
    ∀ n k m, s.length = k + m → m < n →
      subjobLoop run status n k s = some ((List.range' k m).map leaf, s) := by
  intro n
  induction n with
  | zero => exact fun k m _ hm => absurd hm (Nat.not_lt_zero m)
  | succ n ih =>
    intro k m hlen hm
    rw [subjobLoop]
    cases m with
    | zero =>
      rw [List.getElem?_eq_none (by omega)]
      rfl
    | succ m =>
      have hk : k < s.length := by omega
      obtain ⟨d, hgiven, hleaf⟩ := hrun k hk
      rw [List.getElem?_eq_getElem hk]
      dsimp only
      rw [hgiven, Option.bind_some, hleaf, Option.bind_some]
      dsimp only
      rw [ih (k + 1) m (by omega) (by omega)]
      rfl

/-- A list without members has nothing to run, however many chains have it. -/
theorem chainLoop_nil {run : List PySubjob → JobInstance → Option (JobTree × List PySubjob)}
    {status : JobState} (n chains : ℕ) : chainLoop run status (n + 1) chains [] = some ([], []) := by
  induction chains with
  | zero => rfl
  | succ chains ih =>
    have hloop : subjobLoop run status (n + 1) 0 [] = some ([], []) := rfl
    rw [chainLoop, hloop, Option.bind_some]
    dsimp only
    rw [ih]
    rfl

theorem FlatJob.mock (h : FlatJob job data) :
    ∃ n subjobs, jobrunner job n [] (rootInstance data) = some (flatTree job data, subjobs) := by
  -- The loop over the chains, for whatever comes of it.
  have hroot : ∀ n ts subjobs, chainLoop (jobrunner job n) .spawn n (pushes (job .spawn data)).length
      ((adds (job .spawn data)).map Prod.snd) = some (ts, subjobs) →
      ts = (List.range (flatCount (job .spawn data))).map (fun i =>
        .node (leafLabel i (flatCount (job .spawn data))) []) →
      ∃ n subjobs, jobrunner job n [] (rootInstance data) = some (flatTree job data, subjobs) := by
    rintro n ts subjobs hloop rfl
    refine ⟨n + 1, subjobs, ?_⟩
    rw [jobrunner, foldl_step]
    dsimp only [rootInstance]
    rw [List.nil_append, List.nil_append, hloop]
    rfl
  rcases h with hpushes | hadds | hone
  · refine hroot 1 [] ((adds (job .spawn data)).map Prod.snd) ?_ ?_
    · rw [hpushes]
      rfl
    · rw [flatCount, if_pos hpushes]
      rfl
  · refine hroot 1 [] [] ?_ ?_
    · rw [hadds, List.map_nil]
      exact chainLoop_nil 0 _
    · rw [flatCount, hadds]
      simp
  · have hcount : flatCount (job .spawn data) = ((adds (job .spawn data)).map Prod.snd).length := by
      have hne : pushes (job .spawn data) ≠ [] :=
        List.ne_nil_of_length_pos (by rw [hone.pushed]; exact Nat.one_pos)
      rw [flatCount, if_neg hne, List.length_map]
    have hloop := @subjobLoop_leaves
      (jobrunner job ((adds (job .spawn data)).length + 1)) .spawn ((adds (job .spawn data)).map Prod.snd)
      (fun i => .node (leafLabel i (flatCount (job .spawn data))) []) (by
        intro j hj
        rw [List.length_map] at hj
        have ha : (adds (job .spawn data))[j] ∈ adds (job .spawn data) := List.getElem_mem hj
        obtain ⟨hnone, hnone'⟩ := hone.leaf _ ha
        have hgiven : (adds (job .spawn data))[j].2.data.given
            = some (adds (job .spawn data))[j].2.data.toBytes := by
          cases hdata : (adds (job .spawn data))[j].2.data with
          | absent => exact absurd hdata (hone.present _ ha)
          | bytes | bytearray | str => rfl
        refine ⟨(adds (job .spawn data))[j].2.data.toBytes, by rw [List.getElem_map, hgiven], ?_⟩
        rw [jobrunner, foldl_step]
        dsimp only [mockStatus]
        rw [hnone, hnone', ← hcount, List.map_nil, List.append_nil, List.append_nil, List.length_nil,
          chainLoop]
        rfl)
      ((adds (job .spawn data)).length + 1) 0 (adds (job .spawn data)).length (by simp) (by omega)
    refine hroot ((adds (job .spawn data)).length + 1)
      ((List.range' 0 (adds (job .spawn data)).length).map fun i =>
        .node (leafLabel i (flatCount (job .spawn data))) []) ((adds (job .spawn data)).map Prod.snd) ?_ ?_
    · rw [hone.pushed, chainLoop, hloop, Option.bind_some]
      simp [chainLoop]
    · rw [hcount, List.length_map, List.range_eq_range']

/-- The jobs the first one submits: leaves, observed as in the mocker. -/
theorem FlatJob.kids (h : FlatJob job data) :
    (∀ k ∈ (rootJob data).kids job, k.kids job = []) ∧
      ((rootJob data).kids job).map (PendingJob.executed job)
        = (List.range (flatCount (job .spawn data))).map fun i =>
          ⟨[i], some [], leafLabel i (flatCount (job .spawn data))⟩ := by
  by_cases hnone : (rootJob data).kids job = []
  · have hcount : flatCount (job .spawn data) = 0 := by
      rcases h with hpushes | hadds | hone
      · exact if_pos hpushes
      · rw [flatCount, hadds]
        simp
      · rw [flatCount]
        split_ifs with hpushes
        · rfl
        · rcases (rootJob data).kids_eq_nil_iff.mp hnone with hnil | hskipped
          · exact absurd hnil hpushes
          · rw [List.length_eq_zero_iff, List.eq_nil_iff_forall_not_mem]
            exact fun a ha => hone.kept a ha (hskipped a ha)
    rw [hnone, hcount]
    exact ⟨fun k hk => absurd hk List.not_mem_nil, rfl⟩
  · have hone : OneChain job (job .spawn data) := by
      rcases h with hpushes | hadds | hone
      · exact absurd ((rootJob data).kids_eq_nil_iff.mpr (.inl hpushes)) hnone
      · refine absurd ((rootJob data).kids_eq_nil_iff.mpr (.inr fun a ha => ?_)) hnone
        rw [show adds (job (rootJob data).inst.status (rootJob data).inst.data) = [] from hadds] at ha
        exact absurd ha List.not_mem_nil
      · exact hone
    obtain ⟨c, hc⟩ := List.length_eq_one_iff.mp hone.pushed
    have hkept : keptSubjobs (job .spawn data) = (adds (job .spawn data)).filterMap (·.2.extract 0) := by
      rw [keptSubjobs, hc]
      simp
    have hcount : flatCount (job .spawn data) = (adds (job .spawn data)).length := by
      rw [flatCount, hc]
      exact if_neg (List.cons_ne_nil _ _)
    have hlen : (keptSubjobs (job .spawn data)).length = (adds (job .spawn data)).length := by
      rw [hkept, List.filterMap_length_eq_length]
      intro a ha
      exact Option.isSome_iff_ne_none.mpr (mt (a.2.extract_eq_none_iff 0).mp (hone.kept a ha))
    rw [hcount]
    constructor
    · intro k hk
      rw [PendingJob.kids_eq] at hk
      obtain ⟨i, hi, rfl⟩ := List.mem_mapIdx.mp hk
      have hmem : (keptSubjobs (job .spawn data))[i] ∈
          (adds (job .spawn data)).filterMap (·.2.extract 0) := hkept ▸ List.getElem_mem hi
      obtain ⟨a, ha, hext⟩ := List.mem_filterMap.mp hmem
      obtain ⟨name, -, heq⟩ := Option.map_eq_some_iff.mp hext
      have hdata : (keptSubjobs (job .spawn data))[i].data = a.2.data.extract := by rw [← heq]
      rw [PendingJob.kids_eq_nil_iff]
      have hleaf := hone.clusterLeaf a ha
      rw [← hdata] at hleaf
      exact hleaf
    · rw [PendingJob.kids_eq]
      refine List.ext_getElem (by simpa [rootJob, rootInstance] using hlen) fun i hi hi' => ?_
      have hilen : i < (adds (job .spawn data)).length := by simpa using hi'
      have hfew := hone.few
      have hindex : (Int32.ofNat i).toInt = i := Int32.toInt_ofNat_of_lt (by omega)
      have hcount' : (Int32.ofNat (keptSubjobs (job .spawn data)).length).toInt
          = (adds (job .spawn data)).length := by
        rw [hlen]
        exact Int32.toInt_ofNat_of_lt hfew
      simp only [List.getElem_map, List.getElem_mapIdx, List.getElem_range, PendingJob.executed,
        leafLabel, clusterCalls_eq]
      simp only [rootJob, rootInstance, hindex, hcount', List.nil_append]
      rfl

/-- The tree the cluster has executed. -/
theorem FlatJob.treeOf (h : FlatJob job data) {es : List ExecutedJob}
    (hes : Executes job ((rootJob data).kids job) es) :
    TreeOf ((rootJob data).executed job :: es) (flatTree job data) := by
  obtain ⟨hleaf, hexecuted⟩ := h.kids
  have hperm := hes.perm_of_leaves hleaf
  have hchildren := filter_parent_root hes
  rw [hexecuted] at hperm hchildren
  -- No job names a leaf as its parent.
  have hnone : ∀ i, ((rootJob data).executed job :: es).filter (·.parent = some [i]) = [] := by
    intro i
    rw [List.filter_eq_nil_iff]
    intro e he
    rcases List.mem_cons.mp he with rfl | he
    · simp [PendingJob.executed, rootJob]
    · obtain ⟨j, -, rfl⟩ := List.mem_map.mp (hperm.mem_iff.mp he)
      simp
  have hlabel : ((rootJob data).executed job).label
      = ⟨.spawn, 0, 0, mockCalls .spawn (pushes (job .spawn data)).length⟩ := by
    rw [PendingJob.executed, clusterCalls_eq, runChains_eq]
    rfl
  refine ⟨(rootJob data).executed job, List.mem_cons_self, rfl, ?_⟩
  rw [flatTree, ← hlabel]
  refine Linked.node hchildren.symm ?_
  rw [List.forall₂_map_left_iff, List.forall₂_map_right_iff, List.forall₂_same]
  intro i _
  exact Linked.node (e := ⟨[i], some [], leafLabel i (flatCount (job .spawn data))⟩)
    (by rw [hnone i]) .nil

theorem FlatJob.sameTree (h : FlatJob job data) : SameTree job data := by
  obtain ⟨n, subjobs, hmock⟩ := h.mock
  refine ⟨n, flatTree job data, subjobs, hmock, ?_, ?_⟩
  · have hcons : Executes job ([] ++ rootJob data :: []) ((rootJob data).executed job ::
        ((rootJob data).kids job).map (PendingJob.executed job)) := .cons (executes_leaves h.kids.1)
    exact ⟨_, hcons⟩
  · intro es hes
    obtain ⟨es', rfl, hes'⟩ := hes.of_singleton
    refine ⟨flatTree job data, h.treeOf hes', JobTree.Same.node (List.Perm.refl _) ?_⟩
    rw [List.forall₂_same]
    intro t ht
    obtain ⟨i, -, rfl⟩ := List.mem_map.mp ht
    exact .node (List.Perm.refl _) .nil

end Sufficient

/-- **When mocker and cluster execute the same tree.** For every job and its data: both come to an end
and execute the same tree of jobs, up to the order of siblings, if and only if the first run pushes no
chain, or adds no subjob, or pushes one chain and adds fewer than `2 ^ 31` subjobs, all with ASCII names
and data, that do nothing with chains when the mocker runs them as partitions, and submit nothing when the
cluster does. -/
theorem sameTree_iff (job : JobFun) (data : Bytes) : SameTree job data ↔ FlatJob job data :=
  ⟨SameTree.flatJob, FlatJob.sameTree⟩

/-- A job with two chains of one subjob each. -/
def twoChains : JobFun := fun status _ =>
  if status = .spawn then
    [.create 0, .add 0 ⟨[0x61], .bytes [1], fun _ => ([⟨0x61, by decide⟩], [1])⟩, .push 0,
      .create 1, .add 1 ⟨[0x62], .bytes [2], fun _ => ([⟨0x62, by decide⟩], [2])⟩, .push 1]
  else []

/-- The mocker runs the partitions 0 and 1 of 2 twice, the cluster the partitions 0 to 3 of 4. -/
theorem not_sameTree_twoChains :
    ((jobrunner twoChains 4 [] (rootInstance [])).map fun r =>
        r.1.children.map fun t => (t.label.partition, t.label.count))
      = some [(0, 2), (1, 2), (0, 2), (1, 2)] ∧
    ((clusterKids (fun _ => []) [] [] (twoChains .spawn [])).map fun k => (k.partition, k.count))
      = [(0, 4), (1, 4), (2, 4), (3, 4)] ∧
    ¬ SameTree twoChains [] := by
  refine ⟨by decide +kernel, by decide +kernel, fun hsame => ?_⟩
  rcases hsame.flatJob with hpushes | hadds | hone
  · exact absurd hpushes (List.cons_ne_nil _ _)
  · exact absurd hadds (List.cons_ne_nil _ _)
  · exact absurd hone.pushed (by decide)

end Mavicona.Chella
