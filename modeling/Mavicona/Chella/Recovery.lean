import Mavicona.Chella.Wal

/-!
# Recovery of a logged job

`rollback_eq` computes what `Wal::rollback` passes to its callback for a log that was written by the
constructor and any number of `setCheckpoint` calls. The character arrays of the header keep a string
up to its first NUL, the parent always comes back with 36 bytes, the name of the job is taken as a C
string, and the data of the job is not in the log at all.
-/

namespace Mavicona.Chella

open Bytes ByteFile

/-! ## Strings in character arrays -/

/-- Nothing but NULs follows the first NUL. -/
def ZeroTail (bs : Bytes) : Prop := ∀ b ∈ bs.dropWhile (· ≠ 0), b = 0

instance (bs : Bytes) : Decidable (ZeroTail bs) :=
  (List.decidableBAll (· = 0) _ : Decidable (∀ b ∈ bs.dropWhile (· ≠ 0), b = 0))

theorem cstr_append_dropWhile (bs : Bytes) : cstr bs ++ bs.dropWhile (· ≠ 0) = bs :=
  List.takeWhile_append_dropWhile

theorem length_cstr_le (bs : Bytes) : (cstr bs).length ≤ bs.length :=
  (List.takeWhile_prefix _).length_le

/-- What `strncpy` leaves in an array of `n` bytes. -/
theorem padTo_strncpy {n : ℕ} {bs : Bytes} (h : bs.length ≤ n) :
    padTo n (strncpy n bs) = cstr bs ++ List.replicate (n - (cstr bs).length) 0 := by
  have hle := length_cstr_le bs
  rw [strncpy, List.take_of_length_le (by omega), padTo, List.take_append,
    List.take_of_length_le (by omega), List.take_replicate, Nat.min_eq_left (by omega)]

/-- A string that fills the array is read back if and only if nothing but NULs follows its first
NUL. -/
theorem padTo_strncpy_eq_self_iff {n : ℕ} {bs : Bytes} (h : bs.length = n) :
    padTo n (strncpy n bs) = bs ↔ ZeroTail bs := by
  have hsplit := cstr_append_dropWhile bs
  have hlen := congrArg List.length hsplit
  rw [List.length_append] at hlen
  rw [padTo_strncpy h.le]
  nth_rewrite 3 [← hsplit]
  rw [List.append_right_inj, eq_comm, List.eq_replicate_iff, ZeroTail]
  exact and_iff_right (by omega)

/-- The array read back as a C string. -/
theorem cstr_padTo_strncpy {n : ℕ} {bs : Bytes} (h : bs.length ≤ n) :
    cstr (padTo n (strncpy n bs)) = cstr bs := by
  have hkeep : ∀ b ∈ cstr bs, decide (b ≠ 0) = true := by
    intro b hb
    simp only [decide_eq_true_eq]
    rintro rfl
    exact zero_notMem_cstr bs hb
  rw [padTo_strncpy h, cstr, List.takeWhile_append_of_pos hkeep]
  cases n - (cstr bs).length with
  | zero => simp
  | succ k => simp [List.replicate_succ]

/-- A name cut to the low 32 bits of its length and to its first NUL. -/
theorem cstr_take_eq_self_iff (bs : Bytes) :
    cstr (bs.take (bs.length % 2 ^ 32)) = bs ↔ 0 ∉ bs ∧ bs.length < 2 ^ 32 := by
  constructor
  · intro heq
    have hlen := congrArg List.length heq
    have hle := length_cstr_le (bs.take (bs.length % 2 ^ 32))
    rw [List.length_take] at hle
    have hlt : bs.length < 2 ^ 32 := by omega
    refine ⟨fun hzero => ?_, hlt⟩
    rw [← heq] at hzero
    exact zero_notMem_cstr _ hzero
  · rintro ⟨hzero, hlt⟩
    rw [Nat.mod_eq_of_lt hlt, List.take_length, cstr_eq_self hzero]

/-! ## The log on disk -/

namespace Wal

/-- The log holds the header for a checkpoint and the name of the job. -/
structure Logged (module : Bytes) (param : Parameter) (checkpoint : Checkpoint) (log : ByteFile) :
    Prop where
  header : ∃ time, log.slice 0 152 = (Wal.header module param checkpoint false time).encode
  name : log.slice 152 param.jobname.length = param.jobname
  size : 152 + param.jobname.length ≤ log.size

/-- The file after a commit: the header, and the name of the job behind it. -/
theorem file_commit (w : Wal) (isDone : Bool) (time : ℕ) :
    (w.commit isDone time).file.file
      = (w.file.file.write 0 (Wal.header w.module w.jobparameters w.checkpoint isDone time).encode).write
          152 w.jobparameters.jobname := by
  simp [commit]

/-- A commit replaces the header, whatever was in the file before. -/
theorem slice_commit (w : Wal) (isDone : Bool) (time : ℕ) :
    (w.commit isDone time).file.file.slice 0 152
      = (Wal.header w.module w.jobparameters w.checkpoint isDone time).encode := by
  rw [file_commit, slice_write_of_apart _ (.inl (by omega)),
    slice_write_self _ _ _ (WalHeader.length_encode _)]

/-- A commit leaves the log of the object. -/
theorem logged_commit (w : Wal) (time : ℕ) :
    Logged w.module w.jobparameters w.checkpoint (w.commit false time).file.file := by
  refine ⟨⟨time, slice_commit w false time⟩, ?_, ?_⟩
  · rw [file_commit]
    exact slice_write_self _ _ _ rfl
  · rw [file_commit]
    set h := (Wal.header w.module w.jobparameters w.checkpoint false time).encode
    have hlen : h.length = 152 := WalHeader.length_encode _
    have hne : h ≠ [] := by
      rintro hnil
      simp [hnil] at hlen
    have hbase := le_size_write w.file.file 0 hne
    by_cases hname : w.jobparameters.jobname = []
    · have hgrow := size_le_size_write (w.file.file.write 0 h) 152 w.jobparameters.jobname
      rw [hname, List.length_nil]
      rw [hname] at hgrow
      omega
    · exact le_size_write _ 152 hname

/-- The log after the constructor and any number of checkpoints. -/
theorem logged_of_checkpoints (module : Bytes) (param : Parameter) (time : ℕ)
    (checkpoints : List (Checkpoint × ℕ)) :
    ∃ checkpoint, Logged module param checkpoint
      (checkpoints.foldl (fun w c => w.setCheckpoint c.1 c.2) (create module param time)).file.file := by
  -- The members that are logged do not change.
  have hinv : ∀ w : Wal, w.module = module → w.jobparameters = param →
      (∃ checkpoint, Logged module param checkpoint w.file.file) →
      ∃ checkpoint, Logged module param checkpoint
        (checkpoints.foldl (fun w c => w.setCheckpoint c.1 c.2) w).file.file := by
    induction checkpoints with
    | nil => exact fun _ _ _ hlog => hlog
    | cons c cs ih =>
      rintro w rfl rfl -
      exact ih (w.setCheckpoint c.1 c.2) rfl rfl
        ⟨c.1, logged_commit { w with checkpoint := c.1 } c.2⟩
  exact hinv _ rfl rfl ⟨.nil, logged_commit ⟨module, param, .nil, FileStream.ofFile ByteFile.empty⟩ time⟩

/-! ## Rolling back -/

/-- The header of a commit, read back. -/
theorem decode_header (module : Bytes) (param : Parameter) (checkpoint : Checkpoint) (isDone : Bool)
    (time : ℕ) :
    WalHeader.decode (header module param checkpoint isDone time).encode =
      { magic := logMagic
        module := padTo 40 (strncpy 40 module)
        quid := padTo 36 (strncpy 36 param.jobquid)
        parentQuid := padTo 36 (strncpy 36 param.jobparent)
        failcount := 0
        done := if isDone then 1 else 0
        jobid := param.jobid.toNat
        jobpartition := param.jobpartition.toNat
        jobpartitionCount := param.jobpartitionCount.toNat
        jobstate := param.jobstate.code
        jobnameSize := param.jobname.length % 2 ^ 32
        timestamp := time % 2 ^ 32
        checkpoint := checkpoint.code } := by
  have hmagic : padTo 8 logMagic = logMagic := padTo_eq_self (by decide)
  have hword : ∀ n : UInt32, n.toNat % 256 ^ 4 = n.toNat :=
    fun n => Nat.mod_eq_of_lt (by simpa using n.toNat_lt)
  have hdone : (if isDone then 1 else 0) % 256 ^ 1 = if isDone then 1 else 0 := by
    cases isDone <;> rfl
  have hstate : param.jobstate.code % 256 ^ 4 = param.jobstate.code := by
    cases param.jobstate <;> rfl
  have hcheckpoint : checkpoint.code % 256 ^ 4 = checkpoint.code := by
    cases checkpoint <;> rfl
  rw [WalHeader.decode_encode]
  simp only [header, hmagic, hword, hdone, hstate, hcheckpoint]
  rfl

/-- The score of a log that has not failed passes the threshold exactly if the package is there. -/
theorem recoveryLikeliness_lt_iff (packageExists : Bool) (module : Bytes) (param : Parameter)
    (checkpoint : Checkpoint) (isDone : Bool) (time : ℕ) :
    recoveryLikeliness packageExists
      (WalHeader.decode (header module param checkpoint isDone time).encode) < 40 ↔
        packageExists = false := by
  rw [decode_header, recoveryLikeliness]
  cases packageExists <;> cases checkpoint <;> cases param.jobstate <;>
    simp [checkpointScore, jobstateScore, Checkpoint.code, JobState.code]

/-- What `rollback` passes on when the header on disk is not marked done, whatever follows it. -/
theorem rollback_of_header {module : Bytes} {param : Parameter} {checkpoint : Checkpoint} {time : ℕ}
    {log : ByteFile} (packageExists : Bytes → Bool) (hmodule : module.length = 40)
    (hheader : log.slice 0 152 = (header module param checkpoint false time).encode) :
    rollback packageExists log =
      if 2 ^ 31 ≤ param.jobname.length % 2 ^ 32 ∨ packageExists (cstr module) = false then none
      else some (padTo 40 (strncpy 40 module),
        { param with
          jobname := cstr (log.slice (min 152 log.size) (param.jobname.length % 2 ^ 32))
          jobquid := padTo 36 (strncpy 36 param.jobquid)
          jobparent := padTo 36 (strncpy 36 param.jobparent)
          jobdata := [] }) := by
  have hbuf : ((FileStream.ofFile log).fread (List.replicate sizeofWalHeader 0)).1
      = (header module param checkpoint false time).encode := by
    rw [FileStream.fread_zeros, ← hheader]
    rfl
  have hrest : ((FileStream.ofFile log).fread (List.replicate sizeofWalHeader 0)).2
      = ⟨log, min 152 log.size⟩ := by
    simp [FileStream.fread, FileStream.available, sizeofWalHeader]
  have hpath : cstr (padTo 40 (strncpy 40 module)) = cstr module := cstr_padTo_strncpy hmodule.le
  have hscore := recoveryLikeliness_lt_iff (packageExists (cstr module)) module param checkpoint
    false time
  rw [decode_header] at hscore
  simp only [rollback, hbuf, hrest, decode_header, FileStream.fread_zeros, hpath, ne_eq,
    not_true_eq_false, if_false, Bool.false_eq_true, UInt32.ofNat_toNat,
    JobState.ofCode_code] at hscore ⊢
  by_cases hneg : 2 ^ 31 ≤ param.jobname.length % 2 ^ 32
  · rw [if_pos hneg, if_pos (.inl hneg)]
  · by_cases hpackage : packageExists (cstr module) = false
    · rw [if_neg hneg, if_pos (hscore.mpr hpackage), if_pos (.inr hpackage)]
    · rw [if_neg hneg, if_neg (mt hscore.mp hpackage), if_neg (not_or.mpr ⟨hneg, hpackage⟩)]

/-- What `rollback` passes on from a log that was not marked done. -/
theorem rollback_eq {module : Bytes} {param : Parameter} {checkpoint : Checkpoint} {log : ByteFile}
    (packageExists : Bytes → Bool) (hmodule : module.length = 40)
    (hlog : Logged module param checkpoint log) :
    rollback packageExists log =
      if 2 ^ 31 ≤ param.jobname.length % 2 ^ 32 ∨ packageExists (cstr module) = false then none
      else some (padTo 40 (strncpy 40 module),
        { param with
          jobname := cstr (param.jobname.take (param.jobname.length % 2 ^ 32))
          jobquid := padTo 36 (strncpy 36 param.jobquid)
          jobparent := padTo 36 (strncpy 36 param.jobparent)
          jobdata := [] }) := by
  obtain ⟨time, hheader⟩ := hlog.header
  have hsize := hlog.size
  have hname : log.slice (min 152 log.size) (param.jobname.length % 2 ^ 32)
      = param.jobname.take (param.jobname.length % 2 ^ 32) := by
    have hcut : field (log.slice 152 param.jobname.length) 0 (param.jobname.length % 2 ^ 32)
        = log.slice (152 + 0) (param.jobname.length % 2 ^ 32) :=
      log.slice_slice (by have := Nat.mod_le param.jobname.length (2 ^ 32); omega)
    rw [hlog.name] at hcut
    rw [Nat.min_eq_left (by omega)]
    exact hcut.symm
  rw [rollback_of_header packageExists hmodule hheader, hname]

end Wal

/-- The recovered parameter is the logged one, field by field. -/
theorem recovered_eq_iff {param : Parameter} (hquid : param.jobquid.length = 36)
    (hneg : ¬ 2 ^ 31 ≤ param.jobname.length % 2 ^ 32) :
    { param with
      jobname := cstr (param.jobname.take (param.jobname.length % 2 ^ 32))
      jobquid := padTo 36 (strncpy 36 param.jobquid)
      jobparent := padTo 36 (strncpy 36 param.jobparent)
      jobdata := [] } = param ↔
    param.jobdata = [] ∧ param.jobparent.length = 36 ∧ 0 ∉ param.jobname ∧
      param.jobname.length < 2 ^ 31 ∧ ZeroTail param.jobquid ∧ ZeroTail param.jobparent := by
  have hname := cstr_take_eq_self_iff param.jobname
  have hparent : padTo 36 (strncpy 36 param.jobparent) = param.jobparent ↔
      param.jobparent.length = 36 ∧ ZeroTail param.jobparent := by
    constructor
    · intro heq
      have hlen : param.jobparent.length = 36 := by rw [← heq, length_padTo]
      exact ⟨hlen, (padTo_strncpy_eq_self_iff hlen).mp heq⟩
    · rintro ⟨hlen, htail⟩
      exact (padTo_strncpy_eq_self_iff hlen).mpr htail
  obtain ⟨jobid, jobpartition, jobpartitionCount, jobname, jobquid, jobparent, jobdata, jobstate⟩ :=
    param
  simp only [Parameter.mk.injEq, true_and, and_true] at hname hparent ⊢
  rw [hname, hparent, padTo_strncpy_eq_self_iff hquid]
  constructor
  · rintro ⟨⟨hzero, hlt⟩, htail, ⟨hlen, hparentTail⟩, hdata⟩
    rw [Nat.mod_eq_of_lt hlt] at hneg
    exact ⟨hdata.symm, hlen, hzero, not_le.mp hneg, htail, hparentTail⟩
  · rintro ⟨hdata, hlen, hzero, hlt, htail, hparentTail⟩
    exact ⟨⟨hzero, by omega⟩, htail, ⟨hlen, hparentTail⟩, hdata.symm⟩

/-- **When recovery re-runs the job that was logged.** For every 40-byte module, every parameter with a
36-byte quid, and every log that the constructor and `setCheckpoint` calls have written: whenever
`rollback` invokes its callback it passes the module and the parameter that were logged if and only if
the package is missing or the 32-bit size of the name is negative, so that there is no callback, or the
job has no data, its parent has 36 bytes, its name has no NUL and fewer than `2 ^ 31` bytes, and in
module, quid and parent nothing but NULs follows a NUL. -/
theorem recovery_faithful_iff (packageExists : Bytes → Bool) {module : Bytes} {param : Parameter}
    (hmodule : module.length = 40) (hquid : param.jobquid.length = 36) (time : ℕ)
    (checkpoints : List (Checkpoint × ℕ)) :
    (∀ name p, Wal.rollback packageExists
        (checkpoints.foldl (fun w c => w.setCheckpoint c.1 c.2)
          (Wal.create module param time)).file.file = some (name, p) → name = module ∧ p = param) ↔
      packageExists (cstr module) = false ∨ 2 ^ 31 ≤ param.jobname.length % 2 ^ 32 ∨
      (param.jobdata = [] ∧ param.jobparent.length = 36 ∧ 0 ∉ param.jobname ∧
        param.jobname.length < 2 ^ 31 ∧ ZeroTail module ∧ ZeroTail param.jobquid ∧
        ZeroTail param.jobparent) := by
  obtain ⟨checkpoint, hlog⟩ := Wal.logged_of_checkpoints module param time checkpoints
  rw [Wal.rollback_eq packageExists hmodule hlog]
  by_cases hskip : 2 ^ 31 ≤ param.jobname.length % 2 ^ 32 ∨ packageExists (cstr module) = false
  · rw [if_pos hskip]
    refine iff_of_true (fun _ _ h => nomatch h) ?_
    exact hskip.elim (fun hneg => .inr (.inl hneg)) .inl
  · obtain ⟨hneg, hpackage⟩ := not_or.mp hskip
    rw [if_neg hskip]
    have hfields := recovered_eq_iff hquid hneg
    have hname := padTo_strncpy_eq_self_iff hmodule
    constructor
    · intro hall
      obtain ⟨hmod, hparam⟩ := hall _ _ rfl
      obtain ⟨hdata, hlen, hzero, hlt, htail, hparentTail⟩ := hfields.mp hparam
      exact .inr (.inr ⟨hdata, hlen, hzero, hlt, hname.mp hmod, htail, hparentTail⟩)
    · rintro (hmissing | hnegative | ⟨hdata, hlen, hzero, hlt, hmod, htail, hparentTail⟩)
      · exact absurd hmissing hpackage
      · exact absurd hnegative hneg
      · rintro name p hsome
        obtain ⟨rfl, rfl⟩ := Prod.mk.inj (Option.some.inj hsome)
        exact ⟨hname.mpr hmod, hfields.mpr ⟨hdata, hlen, hzero, hlt, htail, hparentTail⟩⟩

/-- A module name and the parameter of a partition of a job. -/
def sampleModule : Bytes := ascii "2fd4e1c67a2d28fced849ee1bb76e7391b93eb12"

def sampleParameter (jobdata : Bytes) : Parameter where
  jobid := 12
  jobpartition := 3
  jobpartitionCount := 4
  jobname := ascii "wordcount"
  jobquid := ascii "5ab34c51-3a3c-4d10-8e76-1f0a4b2c9d8e"
  jobparent := ascii "0c9d2f10-77b1-4be2-93d4-a1e5c6b7d809"
  jobdata := jobdata
  jobstate := .partition

/-- A partition without data is recovered as it was logged. -/
theorem recovery_faithful_sample :
    Wal.rollback (fun _ => true)
      ((Wal.create sampleModule (sampleParameter []) 1).setCheckpoint .init 2).file.file
        = some (sampleModule, sampleParameter []) := by
  obtain ⟨checkpoint, hlog⟩ := Wal.logged_of_checkpoints sampleModule (sampleParameter []) 1 [(.init, 2)]
  have hroll := Wal.rollback_eq (fun _ => true) (by decide) hlog
  rw [if_neg (by decide)] at hroll
  have hmodule : sampleModule.length = 40 := by decide
  have hquid : (sampleParameter []).jobquid.length = 36 := by decide
  obtain ⟨hname, hparam⟩ := (recovery_faithful_iff (fun _ => true) hmodule hquid 1
    [(.init, 2)]).mpr (.inr (.inr (by decide))) _ _ hroll
  rw [hname, hparam] at hroll
  exact hroll

/-- A partition with data is run again without it. -/
theorem recovery_drops_jobdata : ∃ p,
    Wal.rollback (fun _ => true) (Wal.create sampleModule (sampleParameter [1, 2, 3]) 1).file.file
      = some (sampleModule, p) ∧ p ≠ sampleParameter [1, 2, 3] := by
  obtain ⟨checkpoint, hlog⟩ := Wal.logged_of_checkpoints sampleModule (sampleParameter [1, 2, 3]) 1 []
  have hmodule : padTo 40 (strncpy 40 sampleModule) = sampleModule :=
    (padTo_strncpy_eq_self_iff (by decide)).mpr (by decide)
  have hroll := Wal.rollback_eq (fun _ => true) (by decide) hlog
  rw [if_neg (by decide), hmodule] at hroll
  refine ⟨_, hroll, fun heq => ?_⟩
  have hdata := congrArg Parameter.jobdata heq
  simp [sampleParameter] at hdata

end Mavicona.Chella
