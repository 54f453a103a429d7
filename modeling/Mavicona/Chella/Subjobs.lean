import Mavicona.Chella.Message

/-!
# The subjobs of a job

Reference: `packer/ace/job.py` (`Chain`, `Job.push_chain`), `chella/ace/chain.h`, `chella/exec.cpp`
(`Execute::run`, `Execute::prospect`), `chella/chella.cpp` (`prepareJob`).

A job adds subjobs to chains and pushes the chains. `Chain.subjobs` is an attribute of the class, so
that all chains of a process share one list. When the job is done, `Execute::run` reads the list of
every pushed chain into one chain of its own, and `Execute::prospect` submits that. A name that is not
ASCII is skipped, and a name is cut at a NUL, as is the data unless it is a `bytes` object.

Two reads go to memory that was freed. The text of a `str` is copied behind the `Py_DECREF` of its only
encoding. And the loop gives up references to names and data that it does not own, so that whatever
reads the list again, for the next pushed chain, may find something else. What is found there is part of
the data here.
-/

namespace Mavicona.Chella

open Bytes

/-! ## What a job does -/

/-- A Python `str`, as its code points. -/
abbrev PyStr := List ℕ

/-- The data of a subjob; a `str` with what the memory of its encoding holds once that is freed. -/
inductive PyData
  | absent
  | bytes (b : Bytes)
  | bytearray (b : Bytes)
  | str (s : List (Fin 128)) (freed : ℕ → UInt8)

/-- A member of `Chain.subjobs`. -/
structure PySubjob where
  name : PyStr
  data : PyData
  /-- The name and the data that later reads of the list find. -/
  again : ℕ → List (Fin 128) × Bytes

/-- What a job does with its chains, which are numbered. -/
inductive ChainOp
  | create (chain : ℕ)
  | add (chain : ℕ) (subjob : PySubjob)
  | push (chain : ℕ)

/-- The list of the class, and the chains the job has pushed. -/
structure JobChains where
  subjobs : List PySubjob
  chains : List ℕ

/-- `Chain.__init__`, `Chain.add` and `Job.push_chain`. -/
def JobChains.step (s : JobChains) : ChainOp → JobChains
  | .create _ => s
  | .add _ subjob => { s with subjobs := s.subjobs ++ [subjob] }
  | .push chain => { s with chains := s.chains ++ [chain] }

/-- The attribute `subjobs` of a chain is that of the class. -/
def JobChains.subjobsOf (s : JobChains) (_chain : ℕ) : List PySubjob := s.subjobs

/-- Run a job. -/
def runChains (ops : List ChainOp) : JobChains := ops.foldl JobChains.step ⟨[], []⟩

/-! ## Extraction -/

namespace Ace

/-- `Ace::Subjob`. -/
structure Subjob where
  name : Bytes
  data : Bytes

/-- `Ace::Chain`. -/
structure Chain where
  parentQuid : Bytes
  subjobList : List Subjob

end Ace

/-- `PyUnicode_AsEncodedString` to strict ASCII. -/
def encodeAscii (s : PyStr) : Option Bytes :=
  if s.all (· < 128) then some (s.map UInt8.ofNat) else none

/-- The characters of an ASCII string. -/
def asciiBytes (s : List (Fin 128)) : Bytes := s.map fun c : Fin 128 => UInt8.ofNat c.val

/-- The data of a subjob as `Execute::run` reads it: only a `bytes` object has its size read, and the
text of a `str` is read once its encoding is freed. -/
def PyData.extract : PyData → Bytes
  | .absent => []
  | .bytes b => b
  | .bytearray b => cstr b
  | .str s freed => (List.range (cstr (asciiBytes s)).length).map freed

/-- The `n`-th read of one subjob; `none` where the loop continues with the next one. -/
def PySubjob.extract (n : ℕ) (s : PySubjob) : Option Ace.Subjob :=
  (encodeAscii s.name).map fun name =>
    match n with
    | 0 => ⟨cstr name, s.data.extract⟩
    | n + 1 => ⟨cstr (asciiBytes (s.again n).1), (s.again n).2⟩

/-- The chain that `Execute::run` sets up from the lists of the pushed chains: there is one if a chain
was pushed. -/
def extractChains (jobquid : Bytes) (chains : List (List PySubjob)) : Option Ace.Chain :=
  if chains.length > 0 then
    some ⟨jobquid, chains.zipIdx.flatMap fun (subjobs, n) => subjobs.filterMap (PySubjob.extract n)⟩
  else none

/-! ## Submission -/

/-- `Execute::prospect`: the jobs it sends. `quids` are the quids it generates, and `packageFile` is the
package of the job, if it is still in the cache. -/
def prospect (quids : ℕ → Bytes) (packageFile : Option Bytes) (chain : Option Ace.Chain) :
    List ProcessJob :=
  match chain, packageFile with
  | some chain, some content =>
    chain.subjobList.mapIdx fun i subjob =>
      { name := some subjob.name
        id := some (Int32.ofNat i)
        quid := some (quids i)
        content := some content
        partition := some (Int32.ofNat i)
        partitionCount := some (Int32.ofNat chain.subjobList.length)
        state := some .partition
        quidParent := some chain.parentQuid
        data := some subjob.data }
  | _, _ => []

/-- What `prepareJob` has submitted after a run that succeeded. Only a forked run calls `prospect`. -/
def submitted (jobfork : Bool) (quids : ℕ → Bytes) (packageFile : Option Bytes) (jobquid : Bytes)
    (ops : List ChainOp) : List ProcessJob :=
  let s := runChains ops
  if jobfork then prospect quids packageFile (extractChains jobquid (s.chains.map s.subjobsOf)) else []

/-! ## What should be submitted -/

/-- The subjobs added, each with its chain. -/
def adds (ops : List ChainOp) : List (ℕ × PySubjob) :=
  ops.filterMap fun
    | .add chain subjob => some (chain, subjob)
    | _ => none

/-- The chains pushed. -/
def pushes (ops : List ChainOp) : List ℕ :=
  ops.filterMap fun
    | .push chain => some chain
    | _ => none

/-- The bytes of the data. -/
def PyData.toBytes : PyData → Bytes
  | .absent => []
  | .bytes b => b
  | .bytearray b => b
  | .str s _ => asciiBytes s

/-- Name and data of a subjob. -/
def PySubjob.spec (s : PySubjob) : PyStr × Bytes := (s.name, s.data.toBytes)

/-- Name and data of a job that was sent. -/
def ProcessJob.spec (j : ProcessJob) : PyStr × Bytes := (j.getName.map UInt8.toNat, j.getData)

/-- The subjobs added to the pushed chains, chain by chain. -/
def expected (ops : List ChainOp) : List (PyStr × Bytes) :=
  (pushes ops).flatMap fun c => ((adds ops).filter (·.1 = c)).map fun a => a.2.spec

/-- The jobs are the subjobs of the pushed chains, unchanged and numbered, and linked to the parent. -/
structure Submits (jobquid : Bytes) (ops : List ChainOp) (jobs : List ProcessJob) : Prop where
  specs : jobs.map ProcessJob.spec = expected ops
  partition : jobs.map ProcessJob.getPartition = (List.range jobs.length).map Int32.ofNat
  partitionCount : ∀ j ∈ jobs, j.getPartitionCount = Int32.ofNat jobs.length
  parent : ∀ j ∈ jobs, j.getQuidParent = jobquid

/-- Nothing in the data is cut, and the memory of a `str` still holds its text. -/
def PyData.Clean : PyData → Prop
  | .absent => True
  | .bytes _ => True
  | .bytearray b => 0 ∉ b
  | .str s freed => 0 ∉ s ∧ (List.range s.length).map freed = asciiBytes s

/-- Nothing in the subjob is skipped or cut when it is first read, and a later read finds it as it
was. -/
structure PySubjob.Clean (n : ℕ) (s : PySubjob) : Prop where
  name : ∀ p ∈ s.name, p < 128 ∧ p ≠ 0
  data : n = 0 → s.data.Clean
  again : ∀ m, n = m + 1 →
    (cstr (asciiBytes (s.again m).1)).map UInt8.toNat = s.name ∧ (s.again m).2 = s.data.toBytes

/-- The name has a character outside ASCII. -/
def PySubjob.Skipped (s : PySubjob) : Prop := ∃ p ∈ s.name, 128 ≤ p

/-- The condition on the job: forked and with its package in the cache, what is added to a pushed chain
is clean at the read for that chain, and nothing else is added but what is skipped; and otherwise nothing
is added to a pushed chain. -/
def SubmitCond (jobfork packageExists : Bool) (ops : List ChainOp) : Prop :=
  ∀ c ∈ (pushes ops).zipIdx, ∀ a ∈ adds ops,
    if jobfork && packageExists then (if a.1 = c.1 then a.2.Clean c.2 else a.2.Skipped) else a.1 ≠ c.1

/-! ## Reading one subjob -/

section Extract

/-- A string that is cut nowhere has no NUL. -/
theorem cstr_eq_self_iff {bs : Bytes} : cstr bs = bs ↔ 0 ∉ bs := by
  constructor
  · intro heq hzero
    rw [← heq] at hzero
    exact zero_notMem_cstr bs hzero
  · exact cstr_eq_self

theorem zero_mem_asciiBytes {s : List (Fin 128)} : 0 ∈ asciiBytes s ↔ 0 ∈ s := by
  have hzero : ∀ c : Fin 128, UInt8.ofNat c = 0 ↔ c = 0 := by decide
  simp [asciiBytes, hzero]

theorem PyData.extract_eq_toBytes_iff (d : PyData) : d.extract = d.toBytes ↔ d.Clean := by
  cases d with
  | absent => exact iff_of_true rfl trivial
  | bytes b => exact iff_of_true rfl trivial
  | bytearray b => exact cstr_eq_self_iff
  | str s freed =>
    have hlen : (asciiBytes s).length = s.length := by rw [asciiBytes, List.length_map]
    rw [extract, toBytes, Clean, ← zero_mem_asciiBytes, ← cstr_eq_self_iff]
    constructor
    · intro heq
      -- as much is read as stands before a NUL
      have hcut : (cstr (asciiBytes s)).length = (asciiBytes s).length := by
        simpa using congrArg List.length heq
      have hall : cstr (asciiBytes s) = asciiBytes s :=
        (List.takeWhile_prefix _).eq_of_length hcut
      rw [hall, hlen] at heq
      exact ⟨hall, heq⟩
    · rintro ⟨hall, heq⟩
      rw [hall, hlen, heq]

theorem PySubjob.extract_eq_none_iff (n : ℕ) (s : PySubjob) : s.extract n = none ↔ s.Skipped := by
  rw [extract, Option.map_eq_none_iff, encodeAscii]
  by_cases hall : s.name.all (· < 128) = true
  · rw [if_pos hall]
    refine iff_of_false (by simp) ?_
    rintro ⟨p, hp, hle⟩
    have hlt : p < 128 := by simpa using List.all_eq_true.mp hall p hp
    omega
  · rw [if_neg hall]
    exact iff_of_true rfl (by simpa [Skipped] using hall)

theorem toNat_ofNat_of_ascii {p : ℕ} (h : p < 128) : (UInt8.ofNat p).toNat = p :=
  UInt8.toNat_ofNat_of_lt' (h.trans (by decide))

/-- The code points of ASCII bytes. -/
theorem map_toNat_map_ofNat {s : PyStr} (hs : ∀ p ∈ s, p < 128) :
    (s.map UInt8.ofNat).map UInt8.toNat = s := by
  rw [List.map_map]
  refine (List.map_congr_left fun p hp => ?_).trans (List.map_id s)
  exact toNat_ofNat_of_ascii (hs p hp)

/-- Name and data of an extracted subjob. -/
def Ace.Subjob.spec (s : Ace.Subjob) : PyStr × Bytes := (s.name.map UInt8.toNat, s.data)

/-- The code points of a text that was read up to a NUL. -/
theorem ascii_of_mem_cstr {bs : Bytes} (hbs : ∀ b ∈ bs, b.toNat < 128) :
    ∀ p ∈ (cstr bs).map UInt8.toNat, p < 128 ∧ p ≠ 0 := by
  intro p hp
  obtain ⟨b, hb, rfl⟩ := List.mem_map.mp hp
  refine ⟨hbs b ((List.takeWhile_sublist _).subset hb), fun hzero => ?_⟩
  have hb0 : b = 0 := UInt8.toNat_inj.mp hzero
  rw [hb0] at hb
  exact zero_notMem_cstr _ hb

/-- The code points of an extracted name are ASCII and not NUL. -/
theorem name_of_extract {n : ℕ} {s : PySubjob} {t : Ace.Subjob} (h : s.extract n = some t) :
    ∀ p ∈ t.spec.1, p < 128 ∧ p ≠ 0 := by
  obtain ⟨name, hname, rfl⟩ := Option.map_eq_some_iff.mp h
  rw [encodeAscii] at hname
  split_ifs at hname with hall
  obtain rfl := Option.some.inj hname
  cases n with
  | zero =>
    refine ascii_of_mem_cstr fun b hb => ?_
    obtain ⟨q, hq, rfl⟩ := List.mem_map.mp hb
    have hlt : q < 128 := by simpa using List.all_eq_true.mp hall q hq
    rw [toNat_ofNat_of_ascii hlt]
    exact hlt
  | succ n =>
    refine ascii_of_mem_cstr fun b hb => ?_
    obtain ⟨c, -, rfl⟩ := List.mem_map.mp hb
    rw [toNat_ofNat_of_ascii c.isLt]
    exact c.isLt

/-- A subjob is read unchanged exactly if it is clean. -/
theorem PySubjob.spec_extract_iff (n : ℕ) (s : PySubjob) :
    (∃ t, s.extract n = some t ∧ t.spec = s.spec) ↔ s.Clean n := by
  constructor
  · rintro ⟨t, ht, hspec⟩
    have hname := name_of_extract ht
    rw [hspec] at hname
    refine ⟨hname, ?_, ?_⟩
    · rintro rfl
      obtain ⟨name, -, rfl⟩ := Option.map_eq_some_iff.mp ht
      exact (PyData.extract_eq_toBytes_iff _).mp (congrArg Prod.snd hspec)
    · rintro m rfl
      obtain ⟨name, -, rfl⟩ := Option.map_eq_some_iff.mp ht
      exact ⟨congrArg Prod.fst hspec, congrArg Prod.snd hspec⟩
  · rintro ⟨hname, hdata, hagain⟩
    have hall : s.name.all (· < 128) = true :=
      List.all_eq_true.mpr fun p hp => by simpa using (hname p hp).1
    have hencode : encodeAscii s.name = some (s.name.map UInt8.ofNat) := by rw [encodeAscii, if_pos hall]
    cases n with
    | zero =>
      refine ⟨⟨cstr (s.name.map UInt8.ofNat), s.data.extract⟩, ?_, ?_⟩
      · rw [extract, hencode, Option.map_some]
      · have hzero : (0 : UInt8) ∉ s.name.map UInt8.ofNat := by
          intro hmem
          obtain ⟨p, hp, heq⟩ := List.mem_map.mp hmem
          have hval := congrArg UInt8.toNat heq
          rw [toNat_ofNat_of_ascii (hname p hp).1] at hval
          exact (hname p hp).2 hval
        rw [Ace.Subjob.spec, spec, cstr_eq_self hzero, map_toNat_map_ofNat fun p hp => (hname p hp).1,
          (PyData.extract_eq_toBytes_iff _).mpr (hdata rfl)]
    | succ n =>
      obtain ⟨hfound, hbytes⟩ := hagain n rfl
      refine ⟨⟨cstr (asciiBytes (s.again n).1), (s.again n).2⟩, ?_, ?_⟩
      · rw [extract, hencode, Option.map_some]
      · rw [Ace.Subjob.spec, spec, hfound, hbytes]

end Extract

/-! ## The list of all chains -/

section Chains

/-- `Chain.subjobs` belongs to the class, so every `add` appends to the one list. -/
theorem foldl_step (ops : List ChainOp) (s : JobChains) : ops.foldl JobChains.step s
    = ⟨s.subjobs ++ (adds ops).map Prod.snd, s.chains ++ pushes ops⟩ := by
  induction ops generalizing s with
  | nil => simp [adds, pushes]
  | cons op ops ih =>
    rw [List.foldl_cons, ih]
    cases op <;> simp [JobChains.step, adds, pushes]

/-- What a job leaves: everything it added, in one list, and the chains it pushed. -/
theorem runChains_eq (ops : List ChainOp) :
    runChains ops = ⟨(adds ops).map Prod.snd, pushes ops⟩ :=
  foldl_step ops ⟨[], []⟩

/-- Name and data of all subjobs that are not skipped, at the `n`-th read. -/
def extracted (ops : List ChainOp) (n : ℕ) : List (PyStr × Bytes) :=
  (adds ops).filterMap fun a => (a.2.extract n).map Ace.Subjob.spec

/-- Name and data of the subjobs added to one chain. -/
def addedTo (ops : List ChainOp) (c : ℕ) : List (PyStr × Bytes) :=
  ((adds ops).filter (·.1 = c)).map fun a => a.2.spec

theorem expected_eq (ops : List ChainOp) :
    expected ops = (pushes ops).zipIdx.flatMap fun c => addedTo ops c.1 := by
  have hfst : (pushes ops).zipIdx.map Prod.fst = pushes ops := List.zipIdx_map_fst 0 _
  rw [← List.flatMap_map Prod.fst (addedTo ops), hfst]
  rfl

variable {jobfork : Bool} {quids : ℕ → Bytes} {packageFile : Option Bytes} {jobquid : Bytes}
  {ops : List ChainOp}

/-- The jobs `prospect` sends are the subjobs of the chain, in order, numbered and linked to the
parent. -/
theorem prospect_chain (quids : ℕ → Bytes) (content : Bytes) (chain : Ace.Chain) :
    (prospect quids (some content) (some chain)).map ProcessJob.spec
        = chain.subjobList.map Ace.Subjob.spec ∧
      (prospect quids (some content) (some chain)).map ProcessJob.getPartition
        = (List.range chain.subjobList.length).map Int32.ofNat ∧
      ∀ j ∈ prospect quids (some content) (some chain),
        j.getPartitionCount = Int32.ofNat chain.subjobList.length ∧
          j.getQuidParent = chain.parentQuid := by
  refine ⟨?_, ?_, ?_⟩
  · refine List.ext_getElem (by simp [prospect]) fun i hi hi' => ?_
    simp [prospect, ProcessJob.spec, Ace.Subjob.spec, ProcessJob.getName, ProcessJob.getData]
  · refine List.ext_getElem (by simp [prospect]) fun i hi hi' => ?_
    simp [prospect, ProcessJob.getPartition]
  · intro j hj
    obtain ⟨i, hi, rfl⟩ := List.mem_mapIdx.mp hj
    exact ⟨rfl, rfl⟩

/-- What a forked run submits: all subjobs, as they are read once for every chain that was pushed. -/
theorem specs_submitted (content : Bytes) :
    (submitted true quids (some content) jobquid ops).map ProcessJob.spec
      = (pushes ops).zipIdx.flatMap fun c => extracted ops c.2 := by
  rw [submitted, if_pos rfl, runChains_eq, extractChains]
  split_ifs with hpushes
  · rw [(prospect_chain quids content _).1, List.map_flatMap, List.zipIdx_map, List.flatMap_map]
    simp only [Prod.map_fst, Prod.map_snd, id_eq, JobChains.subjobsOf, List.map_filterMap,
      List.filterMap_map]
    rfl
  · have hnil : pushes ops = [] := by simpa using hpushes
    simp [hnil, prospect]

/-- Partition numbers, counts and the parent are always those of the jobs sent. -/
theorem numbered_submitted (jobfork : Bool) (quids : ℕ → Bytes) (packageFile : Option Bytes)
    (jobquid : Bytes) (ops : List ChainOp) :
    let jobs := submitted jobfork quids packageFile jobquid ops
    jobs.map ProcessJob.getPartition = (List.range jobs.length).map Int32.ofNat ∧
      ∀ j ∈ jobs, j.getPartitionCount = Int32.ofNat jobs.length ∧ j.getQuidParent = jobquid := by
  have hnone : ∀ jobs : List ProcessJob, jobs = [] →
      jobs.map ProcessJob.getPartition = (List.range jobs.length).map Int32.ofNat ∧
        ∀ j ∈ jobs, j.getPartitionCount = Int32.ofNat jobs.length ∧ j.getQuidParent = jobquid := by
    rintro _ rfl
    simp
  intro jobs
  cases jobfork with
  | false => exact hnone _ rfl
  | true =>
    cases packageFile with
    | none =>
      apply hnone
      simp [jobs, submitted, prospect]
    | some content =>
      cases hchain : extractChains jobquid ((runChains ops).chains.map (runChains ops).subjobsOf) with
      | none =>
        apply hnone
        simp only [jobs, submitted, hchain, if_true, prospect]
      | some chain =>
        have hjobs : jobs = prospect quids (some content) (some chain) := by
          simp only [jobs, submitted, hchain, if_true]
        have hparent : chain.parentQuid = jobquid := by
          rw [extractChains] at hchain
          split_ifs at hchain
          rw [← Option.some.inj hchain]
        obtain ⟨hspecs, hpartition, hall⟩ := prospect_chain quids content chain
        have hlen := congrArg List.length hspecs
        rw [List.length_map, List.length_map, ← hjobs] at hlen
        rw [← hjobs, ← hlen] at hpartition hall
        rw [hparent] at hall
        exact ⟨hpartition, hall⟩

end Chains

/-! ## When they are the right ones -/

section Exact

/-- Blocks of which none is longer than its counterpart make up the same list only if they are the
same. -/
theorem flatMap_eq_iff {α β : Type*} {e f : α → List β} {ps : List α}
    (hlen : ∀ p ∈ ps, (f p).length ≤ (e p).length) :
    ps.flatMap e = ps.flatMap f ↔ ∀ p ∈ ps, e p = f p := by
  have hle : ∀ qs : List α, (∀ p ∈ qs, (f p).length ≤ (e p).length) →
      (qs.flatMap f).length ≤ (qs.flatMap e).length := by
    intro qs hqs
    induction qs with
    | nil => simp
    | cons q qs ih =>
      have hq := hqs q List.mem_cons_self
      have hrest := ih fun p hp => hqs p (List.mem_cons_of_mem _ hp)
      rw [List.flatMap_cons, List.flatMap_cons, List.length_append, List.length_append]
      omega
  induction ps with
  | nil => simp
  | cons p ps ih =>
    have hps : ∀ q ∈ ps, (f q).length ≤ (e q).length := fun q hq => hlen q (List.mem_cons_of_mem _ hq)
    have hrec : ps.flatMap e = ps.flatMap f ↔ ∀ q ∈ ps, e q = f q := ih hps
    rw [List.flatMap_cons, List.flatMap_cons, List.forall_mem_cons, ← hrec]
    constructor
    -- The rest is not longer than its counterpart, so the first block is not shorter than its own.
    · intro heq
      have htotal := congrArg List.length heq
      rw [List.length_append, List.length_append] at htotal
      have hrest := hle ps hps
      have hp := hlen p List.mem_cons_self
      exact List.append_inj heq (by omega)
    · rintro ⟨hp, hrest⟩
      rw [hrest, hp]

variable {c n : ℕ} {l : List (ℕ × PySubjob)}

/-- No subjob of a chain that is not skipped is missing. -/
theorem length_filter_le (hkept : ∀ a ∈ l, a.1 = c → ¬ a.2.Skipped) :
    ((l.filter (·.1 = c)).map fun a => a.2.spec).length
      ≤ (l.filterMap fun a => (a.2.extract n).map Ace.Subjob.spec).length := by
  induction l with
  | nil => simp
  | cons a l ih =>
    have hrest := ih fun b hb => hkept b (List.mem_cons_of_mem _ hb)
    cases hext : a.2.extract n with
    | none =>
      have hne : a.1 ≠ c := fun heq =>
        hkept a List.mem_cons_self heq ((a.2.extract_eq_none_iff n).mp hext)
      simpa [hext, hne] using hrest
    | some t =>
      by_cases heq : a.1 = c
      · simpa [hext, heq] using hrest
      · have hmore := Nat.le_succ_of_le hrest
        simpa [hext, heq] using hmore

/-- The list of the class is that of one chain exactly if its subjobs are clean and all others are
skipped. -/
theorem extract_eq_filter_iff (hkept : ∀ a ∈ l, a.1 = c → ¬ a.2.Skipped) :
    (l.filterMap fun a => (a.2.extract n).map Ace.Subjob.spec)
        = (l.filter (·.1 = c)).map (fun a => a.2.spec) ↔
      ∀ a ∈ l, if a.1 = c then a.2.Clean n else a.2.Skipped := by
  induction l with
  | nil => simp
  | cons a l ih =>
    have hkept' : ∀ b ∈ l, b.1 = c → ¬ b.2.Skipped := fun b hb => hkept b (List.mem_cons_of_mem _ hb)
    rw [List.forall_mem_cons, ← ih hkept']
    -- A subjob of the chain is in both lists, any other one in neither if it is skipped.
    by_cases heq : a.1 = c
    · have hsome : a.2.extract n ≠ none :=
        mt (a.2.extract_eq_none_iff n).mp (hkept a List.mem_cons_self heq)
      obtain ⟨t, hext⟩ := Option.ne_none_iff_exists'.mp hsome
      have hclean : t.spec = a.2.spec ↔ a.2.Clean n := by
        rw [← a.2.spec_extract_iff n]
        constructor
        · exact fun hspec => ⟨t, hext, hspec⟩
        · rintro ⟨t', hext', hspec⟩
          rw [hext] at hext'
          rwa [Option.some.inj hext']
      simp [hext, heq, hclean]
    · cases hext : a.2.extract n with
      | none => simp [hext, heq, (a.2.extract_eq_none_iff n).mp hext]
      | some t =>
        have hkeeps : ¬ a.2.Skipped := by
          intro hskipped
          rw [(a.2.extract_eq_none_iff n).mpr hskipped] at hext
          exact absurd hext (by simp)
        -- One more than the chain has.
        refine iff_of_false ?_ (by simp [heq, hkeeps])
        intro hlist
        have hlen := congrArg List.length hlist
        have hle := @length_filter_le c n l hkept'
        simp only [List.filterMap_cons, hext, Option.map_some, List.length_cons, List.length_map,
          List.filter_cons, heq, decide_false, Bool.false_eq_true, if_false] at hlen hle
        omega

/-- A subjob that is sent as it is was not skipped. -/
theorem not_skipped_of_mem_extracted {ops : List ChainOp} {s : PySubjob}
    (h : s.spec ∈ extracted ops n) : ¬ s.Skipped := by
  obtain ⟨a, -, hspec⟩ := List.mem_filterMap.mp h
  obtain ⟨t, hext, hspec⟩ := Option.map_eq_some_iff.mp hspec
  have hname := name_of_extract hext
  rw [hspec] at hname
  rintro ⟨p, hp, hle⟩
  have := (hname p hp).1
  omega

/-- The specs a forked run sends are the expected ones exactly under the condition. -/
theorem specs_eq_expected_iff (ops : List ChainOp) :
    ((pushes ops).zipIdx.flatMap fun c => extracted ops c.2) = expected ops ↔
      ∀ c ∈ (pushes ops).zipIdx, ∀ a ∈ adds ops,
        if a.1 = c.1 then a.2.Clean c.2 else a.2.Skipped := by
  rw [expected_eq]
  -- Either side keeps the subjobs of the pushed chains, which bounds the length of every block.
  have hexact : (∀ c ∈ (pushes ops).zipIdx, ∀ a ∈ adds ops, a.1 = c.1 → ¬ a.2.Skipped) →
      (((pushes ops).zipIdx.flatMap fun c => extracted ops c.2)
          = (pushes ops).zipIdx.flatMap (fun c => addedTo ops c.1) ↔
        ∀ c ∈ (pushes ops).zipIdx, ∀ a ∈ adds ops,
          if a.1 = c.1 then a.2.Clean c.2 else a.2.Skipped) := by
    intro hkept
    have hlen : ∀ c ∈ (pushes ops).zipIdx, (addedTo ops c.1).length ≤ (extracted ops c.2).length :=
      fun c hc => length_filter_le (hkept c hc)
    rw [flatMap_eq_iff hlen]
    exact forall₂_congr fun c hc => extract_eq_filter_iff (hkept c hc)
  constructor
  · intro heq
    refine (hexact fun c hc a ha hac => ?_).mp heq
    have hadded : a.2.spec ∈ addedTo ops c.1 :=
      List.mem_map.mpr ⟨a, List.mem_filter.mpr ⟨ha, by simpa using hac⟩, rfl⟩
    have hmem : a.2.spec ∈ (pushes ops).zipIdx.flatMap fun c => addedTo ops c.1 :=
      List.mem_flatMap.mpr ⟨c, hc, hadded⟩
    rw [← heq] at hmem
    obtain ⟨c', -, hextracted⟩ := List.mem_flatMap.mp hmem
    exact not_skipped_of_mem_extracted hextracted
  · intro hcond
    refine (hexact fun c hc a ha hac => ?_).mpr hcond
    have hclean := hcond c hc a ha
    rw [if_pos hac] at hclean
    rintro ⟨p, hp, hle⟩
    have := (hclean.name p hp).1
    omega

/-- Nothing is expected exactly if nothing was added to a pushed chain. -/
theorem expected_eq_nil_iff (ops : List ChainOp) :
    expected ops = [] ↔ ∀ c ∈ (pushes ops).zipIdx, ∀ a ∈ adds ops, a.1 ≠ c.1 := by
  simp only [expected_eq, addedTo, List.flatMap_eq_nil_iff, List.map_eq_nil_iff,
    List.filter_eq_nil_iff, decide_eq_true_eq, ne_eq]

end Exact

/-- **When every subjob is submitted once and unchanged.** For every job, in both modes of the worker
and whether or not the package is still in the cache: the jobs sent are the subjobs of the pushed
chains, chain by chain, with name and data unchanged, numbered, and linked to the parent, if and only
if the run is forked and the package is there, every subjob of a pushed chain has an ASCII name without
NUL, no NUL in data that is not `bytes` and memory that still holds what is read, and all other subjobs of
the job have names that are not ASCII; or nothing was added to a pushed chain. -/
theorem submits_iff (jobfork : Bool) (quids : ℕ → Bytes) (packageFile : Option Bytes) (jobquid : Bytes)
    (ops : List ChainOp) :
    Submits jobquid ops (submitted jobfork quids packageFile jobquid ops) ↔
      SubmitCond jobfork packageFile.isSome ops := by
  obtain ⟨hpartition, hall⟩ := numbered_submitted jobfork quids packageFile jobquid ops
  have hspecs : Submits jobquid ops (submitted jobfork quids packageFile jobquid ops) ↔
      (submitted jobfork quids packageFile jobquid ops).map ProcessJob.spec = expected ops :=
    ⟨Submits.specs, fun h => ⟨h, hpartition, fun j hj => (hall j hj).1, fun j hj => (hall j hj).2⟩⟩
  rw [hspecs]
  unfold SubmitCond
  -- Without a fork `prospect` is not called at all.
  cases jobfork with
  | false =>
    rw [submitted, if_neg Bool.false_ne_true, List.map_nil, eq_comm, expected_eq_nil_iff]
    simp only [Bool.false_and, Bool.false_eq_true, if_false]
  | true =>
    cases packageFile with
    | none =>
      have hnone : submitted true quids none jobquid ops = [] := by simp [submitted, prospect]
      rw [hnone, List.map_nil, eq_comm, expected_eq_nil_iff]
      simp only [Option.isSome_none, Bool.and_false, Bool.false_eq_true, if_false]
    | some content =>
      rw [specs_submitted, specs_eq_expected_iff]
      simp only [Option.isSome_some, Bool.and_self, if_true]

/-- A subjob whose data is a `bytearray` with a NUL. -/
def nulSubjob : PySubjob := ⟨[0x61], .bytearray [1, 0, 2], fun _ => ([0x61], [1, 0, 2])⟩

/-- One chain with this subjob, run in a fork. -/
theorem not_submits_bytearray :
    ¬ Submits (ascii "parent") [.create 0, .add 0 nulSubjob, .push 0]
      (submitted true (fun _ => []) (some (ascii "package")) (ascii "parent")
        [.create 0, .add 0 nulSubjob, .push 0]) := by
  intro hsubmits
  have hspecs := hsubmits.specs
  rw [specs_submitted] at hspecs
  exact absurd hspecs (by decide)

end Mavicona.Chella
