import Mavicona.Common.ByteFile

/-!
# The write-ahead log of a job

Reference: `chella/wal.cpp`, `chella/wal.h`, `chella/exec.h`, `chella/callback.h`.

A log is one header, 152 bytes on x86-64, followed by the name of the job. `Wal.commit` writes both
from the start of the file on; `rollback` reads them back and calls `Execute::run` on what it found,
modelled as the arguments of the callback. The file of a `Wal` is what a reader sees once the stream
is flushed; `WriteAhead` is about when that happens.
-/

namespace Mavicona.Chella

open Bytes

/-! ## Jobs -/

/-- `Callback::JobState`. -/
inductive JobState
  | spawn
  | partition
  | funnel
deriving DecidableEq, Repr

/-- The value of the enumeration. -/
def JobState.code : JobState → ℕ
  | .spawn => 0
  | .partition => 1
  | .funnel => 2

/-- `static_cast<Callback::JobState>`. A value outside the enumeration is unspecified in the language;
the model takes the last state. -/
def JobState.ofCode : ℕ → JobState
  | 0 => .spawn
  | 1 => .partition
  | _ => .funnel

theorem JobState.ofCode_code (s : JobState) : ofCode s.code = s := by cases s <;> rfl

/-- `Execute::Parameter`. -/
structure Parameter where
  jobid : UInt32
  jobpartition : UInt32
  jobpartitionCount : UInt32
  jobname : Bytes
  jobquid : Bytes
  jobparent : Bytes
  jobdata : Bytes
  jobstate : JobState
deriving DecidableEq

/-- `Wal::Checkpoint`. -/
inductive Checkpoint
  | nil
  | init
  | load
  | inject
  | setupOnce
  | setup
  | run
  | teardown
  | teardownOnce
  | pullchain
deriving DecidableEq, Repr

/-- The value of the enumeration. -/
def Checkpoint.code : Checkpoint → ℕ
  | .nil => 0
  | .init => 1
  | .load => 2
  | .inject => 3
  | .setupOnce => 4
  | .setup => 5
  | .run => 6
  | .teardown => 7
  | .teardownOnce => 8
  | .pullchain => 9

/-! ## The header -/

/-- `LOG_MAGIC` with its NUL. -/
def logMagic : Bytes := ascii "WALU41Q" ++ [0]

/-- `sizeof(pageHeader)`. -/
def sizeofWalHeader : ℕ := 152

/-- `struct pageHeader`; an `int` field holds its 32-bit image. -/
structure WalHeader where
  magic : Bytes
  module : Bytes
  quid : Bytes
  parentQuid : Bytes
  failcount : ℕ
  done : ℕ
  jobid : ℕ
  jobpartition : ℕ
  jobpartitionCount : ℕ
  jobstate : ℕ
  jobnameSize : ℕ
  timestamp : ℕ
  checkpoint : ℕ

/-- The memory image of a header: two padding bytes follow `done`. -/
def WalHeader.encode (h : WalHeader) : Bytes :=
  padTo 8 h.magic ++ (padTo 40 h.module ++ (padTo 36 h.quid ++ (padTo 36 h.parentQuid ++
    (le 1 h.failcount ++ (le 1 h.done ++ (le 2 0 ++ (le 4 h.jobid ++ (le 4 h.jobpartition ++
      (le 4 h.jobpartitionCount ++ (le 4 h.jobstate ++ (le 4 h.jobnameSize ++
        (le 4 h.timestamp ++ le 4 h.checkpoint))))))))))))

def WalHeader.decode (bs : Bytes) : WalHeader where
  magic := field bs 0 8
  module := field bs 8 40
  quid := field bs 48 36
  parentQuid := field bs 84 36
  failcount := ofLe (field bs 120 1)
  done := ofLe (field bs 121 1)
  jobid := ofLe (field bs 124 4)
  jobpartition := ofLe (field bs 128 4)
  jobpartitionCount := ofLe (field bs 132 4)
  jobstate := ofLe (field bs 136 4)
  jobnameSize := ofLe (field bs 140 4)
  timestamp := ofLe (field bs 144 4)
  checkpoint := ofLe (field bs 148 4)

@[simp] theorem WalHeader.length_encode (h : WalHeader) : h.encode.length = 152 := by
  simp [encode]

/-- The fields of a header are read back as the bytes they were given. -/
theorem WalHeader.decode_encode (h : WalHeader) :
    decode h.encode =
      { magic := padTo 8 h.magic
        module := padTo 40 h.module
        quid := padTo 36 h.quid
        parentQuid := padTo 36 h.parentQuid
        failcount := h.failcount % 256 ^ 1
        done := h.done % 256 ^ 1
        jobid := h.jobid % 256 ^ 4
        jobpartition := h.jobpartition % 256 ^ 4
        jobpartitionCount := h.jobpartitionCount % 256 ^ 4
        jobstate := h.jobstate % 256 ^ 4
        jobnameSize := h.jobnameSize % 256 ^ 4
        timestamp := h.timestamp % 256 ^ 4
        checkpoint := h.checkpoint % 256 ^ 4 } := by
  simp [decode, encode, field_append, field_zero_append, field_self, ofLe_le]

/-! ## The log object -/

/-- `strncpy(dst, src.c_str(), n)` into a zeroed array. -/
def strncpy (n : ℕ) (src : Bytes) : Bytes := (cstr src).take n

/-- A `Wal`: the members that are logged, the current checkpoint, and the file behind `m_pFile`. -/
structure Wal where
  module : Bytes
  jobparameters : Parameter
  checkpoint : Checkpoint
  file : FileStream

namespace Wal

/-- The header `Wal::commit` writes. The structure is zeroed first, the fail count with it. -/
def header (module : Bytes) (param : Parameter) (checkpoint : Checkpoint) (isDone : Bool)
    (time : ℕ) : WalHeader where
  magic := logMagic
  module := strncpy 40 module
  quid := strncpy 36 param.jobquid
  parentQuid := strncpy 36 param.jobparent
  failcount := 0
  done := if isDone then 1 else 0
  jobid := param.jobid.toNat
  jobpartition := param.jobpartition.toNat
  jobpartitionCount := param.jobpartitionCount.toNat
  jobstate := param.jobstate.code
  jobnameSize := param.jobname.length
  timestamp := time
  checkpoint := checkpoint.code

/-- `Wal::commit`. -/
def commit (w : Wal) (isDone : Bool) (time : ℕ) : Wal :=
  { w with
    file := ((w.file.seekSet 0).fwrite
      (header w.module w.jobparameters w.checkpoint isDone time).encode).fwrite
        w.jobparameters.jobname }

/-- `Wal::Wal`, which opens a new file. -/
def create (name : Bytes) (param : Parameter) (time : ℕ) : Wal :=
  commit ⟨name, param, .nil, FileStream.ofFile ByteFile.empty⟩ false time

/-- `Wal::setCheckpoint`. -/
def setCheckpoint (w : Wal) (checkpoint : Checkpoint) (time : ℕ) : Wal :=
  commit { w with checkpoint := checkpoint } false time

/-- `Wal::markDone`. -/
def markDone (w : Wal) (time : ℕ) : Wal := w.commit true time

/-! ## Recovery -/

/-- The part of the recovery score that depends on the checkpoint. -/
def checkpointScore : ℕ → ℤ
  | 0 => 30
  | 1 => 20
  | 2 => 10
  | 3 => 20
  | 4 => 15
  | 5 => 10
  | 6 => 5
  | 7 => 20
  | 8 => 25
  | 9 => 30
  | _ => 0

/-- The part of the recovery score that depends on the state of the job. -/
def jobstateScore : ℕ → ℤ
  | 0 => 15
  | 1 => 20
  | 2 => 10
  | _ => 0

/-- `recovery_likeliness`. -/
def recoveryLikeliness (packageExists : Bool) (h : WalHeader) : ℤ :=
  50 - (h.failcount * -10 : ℤ) - (if packageExists then 0 else 75) + checkpointScore h.checkpoint
    + jobstateScore h.jobstate

/-- `Wal::rollback` on a log file: the arguments of the callback, if it is called. `packageExists` is
`file_exist` in the package directory, which sees the name up to its first NUL. With a negative size of
the name `new` throws, or for -1 the buffer is overrun, and the callback is not reached. -/
def rollback (packageExists : Bytes → Bool) (log : ByteFile) : Option (Bytes × Parameter) :=
  let (buf, s) := (FileStream.ofFile log).fread (List.replicate sizeofWalHeader 0)
  let h := WalHeader.decode buf
  if h.magic ≠ logMagic then none
  else if h.done ≠ 0 then none
  else if 2 ^ 31 ≤ h.jobnameSize then none
  else
    let namebuf := (s.fread (List.replicate h.jobnameSize 0)).1
    if recoveryLikeliness (packageExists (cstr h.module)) h < 40 then none
    else
      some (h.module,
        { jobid := UInt32.ofNat h.jobid
          jobpartition := UInt32.ofNat h.jobpartition
          jobpartitionCount := UInt32.ofNat h.jobpartitionCount
          jobname := cstr namebuf
          jobquid := h.quid
          jobparent := h.parentQuid
          jobdata := []
          jobstate := JobState.ofCode h.jobstate })

end Wal

end Mavicona.Chella
