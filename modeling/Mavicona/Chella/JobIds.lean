import Mathlib.Data.List.Nodup
import Mavicona.Common.Run
import Mavicona.Chella.Master

/-!
# The ids of the jobs of a cluster

The counter behind the ids lives in the memory of the master, and is stored when the master starts on
an empty database, when it is shut down, and when the job just accepted has the id 0. Everything
between two stores is forgotten in a crash.
-/

namespace Mavicona.Chella

open Trace

/-! ## Runs of a cluster -/

/-- A master that runs, and the id of the job that is being accepted. -/
structure RunningMaster where
  db : Indexer
  accepting : Option Int32

/-- What the database holds while no master runs, the master that runs, the ids given out so far, and
whether a crash has lost some of them. -/
structure Cluster where
  disk : Option UInt32
  master : Option RunningMaster
  ids : List Int32
  lost : Bool

/-- A step of the cluster. A job is accepted in two steps, `accept` that gives it an id and `persist`
that tests whether the counter is stored; the master may crash between them. -/
inductive ClusterStep
  | start
  | accept
  | persist
  | shutdown
  | crash
deriving DecidableEq, Repr

namespace Cluster

/-- A cluster on an empty database directory. -/
def init : Cluster := ⟨none, none, [], false⟩

/-- One step. A step that is not possible does nothing. -/
def step (c : Cluster) : ClusterStep → Cluster
  | .start =>
    match c.master with
    | none => { c with master := some ⟨Indexer.init c.disk, none⟩ }
    | some _ => c
  | .accept =>
    match c.master with
    | some ⟨db, none⟩ =>
      { c with master := some ⟨db.jobCounter.2, some db.jobCounter.1⟩, ids := c.ids ++ [db.jobCounter.1] }
    | _ => c
  | .persist =>
    match c.master with
    | some ⟨db, some id⟩ => { c with master := some ⟨db.persist id, none⟩ }
    | _ => c
  | .shutdown =>
    match c.master with
    | some ⟨db, none⟩ => { c with disk := db.storeCounter.stored, master := none }
    | _ => c
  | .crash =>
    match c.master with
    | some ⟨db, _⟩ =>
      { c with
        disk := db.stored
        master := none
        lost := c.lost || decide (db.stored ≠ some db.jobcounter) }
    | none => c

/-- As long as fewer than `2 ^ 31` jobs are accepted, no two of them have the same id. -/
def UniqueIds (c : Cluster) : Prop := c.ids.length < 2 ^ 31 → c.ids.Nodup

/-- No job is accepted after a crash that has lost the counter. -/
def Guard (c : Cluster) : ClusterStep → Prop
  | .accept => (∃ db, c.master = some ⟨db, none⟩) → c.ids.length + 1 < 2 ^ 31 → c.lost = false
  | _ => True

/-! ## The counter and the ids -/

/-- The `n`-th id. -/
def nthId (n : ℕ) : Int32 := (UInt32.ofNat n).toInt32

theorem nthId_inj {m n : ℕ} (hm : m < 2 ^ 32) (hn : n < 2 ^ 32) (h : nthId m = nthId n) : m = n := by
  have hnat : (UInt32.ofNat m).toNat = (UInt32.ofNat n).toNat := by
    have hword : UInt32.ofNat m = UInt32.ofNat n := by
      simpa [nthId] using congrArg Int32.toUInt32 h
    rw [hword]
  rwa [UInt32.toNat_ofNat_of_lt' hm, UInt32.toNat_ofNat_of_lt' hn] at hnat

/-- The value the next id is taken from, now or after a start. -/
def counter (c : Cluster) : UInt32 :=
  match c.master with
  | some m => m.db.jobcounter
  | none => c.disk.getD 0

/-- The ids given out are the first ones, the counter is at `n` of them, behind all of them unless some
were lost, and the database is at `s`. -/
structure Counted (c : Cluster) (n s : ℕ) : Prop where
  ids : c.ids = (List.range c.ids.length).map nthId
  counter : c.counter = UInt32.ofNat n
  le : n ≤ c.ids.length
  lost : c.lost = false ↔ n = c.ids.length
  stored : ∀ m, c.master = some m → m.db.stored = some (UInt32.ofNat s)
  stored_le : s ≤ n

/-- The invariant, as long as fewer than `2 ^ 31` jobs are accepted. -/
def Tracked (c : Cluster) : Prop := c.ids.length < 2 ^ 31 → ∃ n s, c.Counted n s

theorem tracked_init : init.Tracked := fun _ =>
  ⟨0, 0, rfl, rfl, Nat.le_refl _, iff_of_true rfl rfl, (fun _ h => nomatch h), Nat.le_refl _⟩

theorem Tracked.uniqueIds {c : Cluster} (hc : c.Tracked) : c.UniqueIds := by
  intro hlen
  obtain ⟨n, s, hcounted⟩ := hc hlen
  rw [hcounted.ids]
  refine List.Nodup.map_on ?_ List.nodup_range
  intro i hi j hj heq
  have hi' := List.mem_range.mp hi
  have hj' := List.mem_range.mp hj
  exact nthId_inj (by omega) (by omega) heq

/-! ## The steps -/

section Steps

variable {c : Cluster} {n s : ℕ}

theorem Counted.jobcounter (hc : c.Counted n s) {m : RunningMaster} (hmaster : c.master = some m) :
    m.db.jobcounter = UInt32.ofNat n := by
  have hcounter := hc.counter
  rwa [Cluster.counter, hmaster] at hcounter

/-- A start takes the counter from the database. -/
theorem Counted.start (hc : c.Counted n s) (hmaster : c.master = none) :
    ({ c with master := some ⟨Indexer.init c.disk, none⟩ } : Cluster).Counted n n := by
  have hdisk : c.disk.getD 0 = UInt32.ofNat n := by
    have hcounter := hc.counter
    rwa [Cluster.counter, hmaster] at hcounter
  have hinit : Indexer.init c.disk = ⟨some (UInt32.ofNat n), UInt32.ofNat n⟩ := by
    rw [← hdisk]
    cases c.disk <;> rfl
  refine ⟨hc.ids, ?_, hc.le, hc.lost, ?_, Nat.le_refl _⟩
  · rw [hinit]
    rfl
  · intro m hm
    obtain rfl := Option.some.inj hm
    rw [hinit]

/-- A job is accepted while nothing is lost. -/
theorem Counted.accept (hc : c.Counted n s) {db : Indexer} (hmaster : c.master = some ⟨db, none⟩)
    (hlost : c.lost = false) :
    ({ c with
        master := some ⟨db.jobCounter.2, some db.jobCounter.1⟩
        ids := c.ids ++ [db.jobCounter.1] } : Cluster).Counted (n + 1) s := by
  -- Nothing is lost, so the counter is at the number of ids.
  have hall : n = c.ids.length := hc.lost.mp hlost
  have hcounter : db.jobcounter = UInt32.ofNat n := hc.jobcounter hmaster
  have hid : db.jobCounter.1 = nthId n := by rw [Indexer.jobCounter, hcounter, nthId]
  refine ⟨?_, ?_, ?_, ?_, ?_, Nat.le_succ_of_le hc.stored_le⟩
  · simp only [List.length_append, List.length_singleton, List.range_succ, List.map_append,
      List.map_singleton, ← hc.ids, hid, hall]
  · show db.jobcounter + 1 = UInt32.ofNat (n + 1)
    rw [hcounter, UInt32.ofNat_add]
    rfl
  · simp [hall]
  · simp [hlost, hall]
  · intro m hm
    obtain rfl := Option.some.inj hm
    exact hc.stored ⟨db, none⟩ hmaster

/-- After the test the database holds what it held, or the counter. -/
theorem Counted.persist (hc : c.Counted n s) {db : Indexer} {id : Int32}
    (hmaster : c.master = some ⟨db, some id⟩) :
    ∃ s', ({ c with master := some ⟨db.persist id, none⟩ } : Cluster).Counted n s' := by
  have hcounter : db.jobcounter = UInt32.ofNat n := hc.jobcounter hmaster
  have hkept : (db.persist id).jobcounter = UInt32.ofNat n := by
    rw [Indexer.persist_jobcounter, hcounter]
  rcases db.persist_stored id with hstored | hstored
  · refine ⟨s, hc.ids, hkept, hc.le, hc.lost, ?_, hc.stored_le⟩
    intro m hm
    obtain rfl := Option.some.inj hm
    exact hstored.trans (hc.stored ⟨db, some id⟩ hmaster)
  · refine ⟨n, hc.ids, hkept, hc.le, hc.lost, ?_, Nat.le_refl _⟩
    intro m hm
    obtain rfl := Option.some.inj hm
    rw [hstored, hcounter]

/-- A shutdown stores the counter. -/
theorem Counted.shutdown (hc : c.Counted n s) {db : Indexer} (hmaster : c.master = some ⟨db, none⟩) :
    ({ c with disk := db.storeCounter.stored, master := none } : Cluster).Counted n s := by
  exact ⟨hc.ids, hc.jobcounter hmaster, hc.le, hc.lost, (fun _ h => nomatch h), hc.stored_le⟩

/-- A crash falls back to what the database holds. -/
theorem Counted.crash (hc : c.Counted n s) {m : RunningMaster} (hmaster : c.master = some m)
    (hlen : c.ids.length < 2 ^ 31) :
    ({ c with
        disk := m.db.stored
        master := none
        lost := c.lost || decide (m.db.stored ≠ some m.db.jobcounter) } : Cluster).Counted s s := by
  have hcounter := hc.jobcounter hmaster
  have hstored := hc.stored m hmaster
  have hle := hc.le
  have hsle := hc.stored_le
  -- The words are equal exactly if the numbers are, being small.
  have hsaved : m.db.stored = some m.db.jobcounter ↔ s = n := by
    rw [hstored, hcounter, Option.some_inj]
    constructor
    · intro heq
      exact nthId_inj (by omega) (by omega) (congrArg UInt32.toInt32 heq)
    · rintro rfl
      rfl
  refine ⟨hc.ids, ?_, hsle.trans hle, ?_, (fun _ h => nomatch h), Nat.le_refl _⟩
  · show m.db.stored.getD 0 = UInt32.ofNat s
    rw [hstored, Option.getD_some]
  · show (c.lost || decide (m.db.stored ≠ some m.db.jobcounter)) = false ↔ s = c.ids.length
    rw [Bool.or_eq_false_iff, decide_eq_false_iff_not, not_not, hsaved, hc.lost]
    omega

end Steps

theorem Tracked.step {c : Cluster} (hc : c.Tracked) (a : ClusterStep) (hguard : c.Guard a) :
    (c.step a).Tracked := by
  intro hlen
  cases a with
  | start =>
    rw [Cluster.step] at hlen ⊢
    split at hlen
    · rename_i hmaster
      obtain ⟨n, s, hcounted⟩ := hc hlen
      exact ⟨n, n, hcounted.start hmaster⟩
    · exact hc hlen
  | accept =>
    rw [Cluster.step] at hlen ⊢
    split at hlen
    · rename_i db hmaster
      have hbound : c.ids.length + 1 < 2 ^ 31 := by simpa using hlen
      obtain ⟨n, s, hcounted⟩ := hc (by omega)
      exact ⟨n + 1, s, hcounted.accept hmaster (hguard ⟨db, hmaster⟩ hbound)⟩
    · exact hc hlen
  | persist =>
    rw [Cluster.step] at hlen ⊢
    split at hlen
    · rename_i db id hmaster
      obtain ⟨n, s, hcounted⟩ := hc hlen
      exact ⟨n, hcounted.persist hmaster⟩
    · exact hc hlen
  | shutdown =>
    rw [Cluster.step] at hlen ⊢
    split at hlen
    · rename_i db hmaster
      obtain ⟨n, s, hcounted⟩ := hc hlen
      exact ⟨n, s, hcounted.shutdown hmaster⟩
    · exact hc hlen
  | crash =>
    rw [Cluster.step] at hlen ⊢
    split at hlen
    · rename_i db accepting hmaster
      obtain ⟨n, s, hcounted⟩ := hc hlen
      exact ⟨s, s, hcounted.crash hmaster hlen⟩
    · exact hc hlen

/-- A job accepted after a crash that has lost the counter gets an id that was given out. -/
theorem Tracked.not_uniqueIds {c : Cluster} (hc : c.Tracked) {a : ClusterStep} (hguard : ¬ c.Guard a) :
    ¬ (c.step a).UniqueIds := by
  cases a with
  | accept =>
    simp only [Guard, not_forall] at hguard
    obtain ⟨⟨db, hmaster⟩, hbound, hlost⟩ := hguard
    obtain ⟨n, s, hcounted⟩ := hc (by omega)
    have hcounter : db.jobcounter = UInt32.ofNat n := hcounted.jobcounter hmaster
    have hbehind : n < c.ids.length := by
      have hne : n ≠ c.ids.length := mt hcounted.lost.mpr hlost
      have hle := hcounted.le
      omega
    -- The counter is behind the ids, so its value is one of them.
    have hgiven : db.jobCounter.1 ∈ c.ids := by
      rw [hcounted.ids, Indexer.jobCounter, hcounter]
      exact List.mem_map.mpr ⟨n, List.mem_range.mpr hbehind, rfl⟩
    have hstep : (c.step .accept).ids = c.ids ++ [db.jobCounter.1] := by
      rw [Cluster.step, hmaster]
    intro hunique
    rw [UniqueIds, hstep, List.length_append, List.length_singleton] at hunique
    have hnodup := List.nodup_append.mp (hunique hbound)
    exact hnodup.2.2 _ hgiven _ List.mem_cons_self rfl
  | start | persist | shutdown | crash => exact absurd trivial hguard

end Cluster

/-- **When the ids of a cluster are unique.** For every sequence of accepted jobs, shutdowns, crashes at
any point and restarts on one database: as long as fewer than `2 ^ 31` jobs are accepted no two of them
have the same id, at every point, if and only if no job is accepted after a crash that found the
counter in memory ahead of the one in the database. -/
theorem always_uniqueIds_iff (steps : List ClusterStep) :
    Always Cluster.step Cluster.UniqueIds Cluster.init steps ↔
      ∃ c, Run Cluster.step Cluster.Guard Cluster.init steps c :=
  always_iff_exists_run Cluster.tracked_init (fun _ hc => hc.uniqueIds)
    (fun _ a hc hguard => hc.step a hguard) (fun _ _ hc hguard => hc.not_uniqueIds hguard)

/-- Two jobs, a crash, and one more job: the ids are 0, 1 and 1. -/
theorem not_always_uniqueIds_sample :
    ¬ Always Cluster.step Cluster.UniqueIds Cluster.init
      [.start, .accept, .persist, .accept, .persist, .crash, .start, .accept] := by
  intro halways
  have hnodup := halways 8 (by decide)
  exact absurd hnodup (by decide)

end Mavicona.Chella
