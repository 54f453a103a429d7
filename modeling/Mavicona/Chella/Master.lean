import Mavicona.Chella.Message

/-!
# The master

Reference: `chella/chella.cpp` (`handleWorkerRequest`, `handleWokerController`, `handleIncommingJob`,
`initMaster`), `chella/indexer.h`, `chella/nodemanager.cpp`.

The master answers three sockets in one thread, so that a run of it is a list of requests. `handle`
answers one request, and `serve` a list of them. A worker message is a solicitation if `strncmp` finds
no difference to `SOLICIT` within the size of the message, and otherwise a poll.
-/

namespace Mavicona.Chella

open Bytes

/-! ## The counter -/

/-- `Indexer`: the counter, and what the database holds under `jobcounter`. -/
structure Indexer where
  stored : Option UInt32
  jobcounter : UInt32

namespace Indexer

/-- `storeCounter`. -/
def storeCounter (db : Indexer) : Indexer := { db with stored := some db.jobcounter }

/-- `Indexer::Indexer`, on what the database holds. -/
def init (stored : Option UInt32) : Indexer :=
  match stored with
  | some number => ⟨some number, number⟩
  | none => storeCounter ⟨none, 0⟩

/-- `jobCounter`: the value as an `int`, and the counter behind it. -/
def jobCounter (db : Indexer) : Int32 × Indexer :=
  (db.jobcounter.toInt32, { db with jobcounter := db.jobcounter + 1 })

/-- The counter is stored if `!job.id() % 2`, where `!` binds tighter than `%`. -/
def persist (db : Indexer) (id : Int32) : Indexer :=
  if (if id = 0 then 1 else 0) % 2 ≠ 0 then db.storeCounter else db

theorem persist_jobcounter (db : Indexer) (id : Int32) :
    (db.persist id).jobcounter = db.jobcounter := by
  unfold persist
  split_ifs <;> rfl

theorem persist_stored (db : Indexer) (id : Int32) :
    (db.persist id).stored = db.stored ∨ (db.persist id).stored = some db.jobcounter := by
  by_cases hid : id = 0
  · exact .inr (by simp [persist, hid, storeCounter])
  · exact .inl (by simp [persist, hid])

end Indexer

/-! ## Requests and replies -/

/-- Whether `strncmp` returns 0. -/
def strncmpEq : Bytes → Bytes → ℕ → Bool
  | _, _, 0 => true
  | s, t, n + 1 =>
    if s.headD 0 ≠ t.headD 0 then false
    else if s.headD 0 = 0 then true
    else strncmpEq s.tail t.tail n

/-- The message is taken for a solicitation. -/
def solicits (request : Bytes) : Bool :=
  decide (request.length > 0) && strncmpEq request (ascii "SOLICIT") request.length

/-- A message on one of the three sockets. -/
inductive Request
  | worker (request : Bytes)
  | controller (request : Bytes)
  | incoming (request : Bytes)

/-- What is sent back. -/
inductive Reply
  | workerInfo (info : ProcessJob)
  | job (nextjob : ProcessJob)
  | noJob
  | control (message : ControlMessage)
  | received

/-- The bytes of a reply. -/
def Reply.bytes (pb : Protobuf) : Reply → Bytes
  | .workerInfo info => pb.serializeJob info
  | .job nextjob => pb.serializeJob nextjob
  | .noJob => []
  | .control message => pb.serializeControl message
  | .received => []

/-! ## The handlers -/

/-- The queue, the database and the counter of the workers. -/
structure Master where
  jobqueue : List ProcessJob
  db : Indexer
  workerCounter : UInt32

namespace Master

/-- The master when it has started. -/
def start (stored : Option UInt32) : Master := ⟨[], Indexer.init stored, 0⟩

/-- `handleWorkerRequest`. -/
def handleWorkerRequest (m : Master) (request : Bytes) : Master × Reply :=
  if solicits request then
    ({ m with workerCounter := m.workerCounter + 1 },
      .workerInfo
        { name := some (ascii "worker")
          id := some m.workerCounter.toInt32
          quid := some (ascii "00000000-0000-0000-0000-000000000000")
          state := some .spawn })
  else
    match m.jobqueue with
    | [] => (m, .noJob)
    | nextjob :: rest => ({ m with jobqueue := rest }, .job nextjob)

/-- `handleWokerController`; `NodeManager::runTask` only sets the number of jobs. -/
def handleWokerController (pb : Protobuf) (m : Master) (request : Bytes) : Master × Reply :=
  (m, .control { pb.parseControl request with clusterJobs := some (Int32.ofNat m.jobqueue.length) })

/-- `handleIncommingJob`. -/
def handleIncommingJob (pb : Protobuf) (m : Master) (request : Bytes) : Master × Reply :=
  let (id, db) := m.db.jobCounter
  let job := (pb.parseJob request).setId id
  ({ m with jobqueue := m.jobqueue ++ [job], db := db.persist job.getId }, .received)

/-- Answer one request. -/
def handle (pb : Protobuf) (m : Master) : Request → Master × Reply
  | .worker request => m.handleWorkerRequest request
  | .controller request => m.handleWokerController pb request
  | .incoming request => m.handleIncommingJob pb request

/-- Answer the requests in the order they are taken from the sockets. -/
def serve (pb : Protobuf) : Master → List Request → Master × List Reply
  | m, [] => (m, [])
  | m, r :: rs =>
    let (m, reply) := m.handle pb r
    let (m, replies) := serve pb m rs
    (m, reply :: replies)

end Master

/-! ## What is accepted and what is sent -/

/-- The jobs among the requests. -/
def accepted (pb : Protobuf) (rs : List Request) : List ProcessJob :=
  rs.filterMap fun
    | .incoming request => some (pb.parseJob request)
    | _ => none

/-- The jobs among the replies. -/
def sent (replies : List Reply) : List ProcessJob :=
  replies.filterMap fun
    | .job nextjob => some nextjob
    | _ => none

/-- The jobs with consecutive ids. -/
def numbered (counter : UInt32) : List ProcessJob → List ProcessJob
  | [] => []
  | j :: js => j.setId counter.toInt32 :: numbered (counter + 1) js

theorem exists_id_of_mem_numbered {counter : UInt32} {js : List ProcessJob} {j : ProcessJob}
    (h : j ∈ numbered counter js) : ∃ id, j.id = some id := by
  induction js generalizing counter with
  | nil => exact absurd h List.not_mem_nil
  | cons j' js ih =>
    rcases List.mem_cons.mp h with rfl | h
    · exact ⟨_, rfl⟩
    · exact ih h

namespace Master

variable {pb : Protobuf} {m : Master}

theorem handleWorkerRequest_of_solicits {request : Bytes} (h : solicits request = true) :
    ∃ info : ProcessJob, info.id = some m.workerCounter.toInt32 ∧
      m.handleWorkerRequest request
        = ({ m with workerCounter := m.workerCounter + 1 }, .workerInfo info) := by
  refine ⟨_, ?_, if_pos h⟩
  rfl

theorem handleWorkerRequest_of_poll {request : Bytes} (h : solicits request = false) :
    m.handleWorkerRequest request = match m.jobqueue with
      | [] => (m, .noJob)
      | nextjob :: rest => ({ m with jobqueue := rest }, .job nextjob) := by
  rw [handleWorkerRequest, h, if_neg Bool.false_ne_true]

/-- One request: what was queued and what it brings is what it sends and what is queued then. -/
theorem sent_handle (pb : Protobuf) (m : Master) (r : Request) :
    sent [(m.handle pb r).2] ++ (m.handle pb r).1.jobqueue
        = m.jobqueue ++ numbered m.db.jobcounter (accepted pb [r]) ∧
      (m.handle pb r).1.db.jobcounter
        = m.db.jobcounter + UInt32.ofNat (accepted pb [r]).length := by
  cases r with
  | worker request =>
    rw [handle]
    cases h : solicits request with
    | true =>
      obtain ⟨info, -, heq⟩ := handleWorkerRequest_of_solicits (m := m) h
      simp [heq, sent, accepted, numbered]
    | false =>
      rw [handleWorkerRequest_of_poll h]
      cases hqueue : m.jobqueue with
      | nil => simp [sent, accepted, numbered, hqueue]
      | cons nextjob rest => simp [sent, accepted, numbered]
  | controller request => simp [handle, handleWokerController, sent, accepted, numbered]
  | incoming request =>
    simp [handle, handleIncommingJob, Indexer.jobCounter, Indexer.persist_jobcounter, sent, accepted,
      numbered]

theorem numbered_append (counter : UInt32) (js ks : List ProcessJob) :
    numbered counter (js ++ ks)
      = numbered counter js ++ numbered (counter + UInt32.ofNat js.length) ks := by
  induction js generalizing counter with
  | nil => simp [numbered]
  | cons j js ih =>
    have hcounter : counter + 1 + UInt32.ofNat js.length
        = counter + UInt32.ofNat (j :: js).length := by
      rw [List.length_cons, Nat.add_comm, UInt32.ofNat_add, UInt32.add_assoc]
      rfl
    rw [List.cons_append, numbered, numbered, ih, hcounter, List.cons_append]

/-- Any number of requests. -/
theorem sent_serve (pb : Protobuf) (rs : List Request) (m : Master) :
    sent (m.serve pb rs).2 ++ (m.serve pb rs).1.jobqueue
      = m.jobqueue ++ numbered m.db.jobcounter (accepted pb rs) := by
  induction rs generalizing m with
  | nil => simp [serve, sent, accepted, numbered]
  | cons r rs ih =>
    obtain ⟨hqueue, hcounter⟩ := sent_handle pb m r
    have hsent : sent (m.serve pb (r :: rs)).2
        = sent [(m.handle pb r).2] ++ sent ((m.handle pb r).1.serve pb rs).2 :=
      List.filterMap_append (l := [(m.handle pb r).2])
    have haccepted : accepted pb (r :: rs) = accepted pb [r] ++ accepted pb rs :=
      List.filterMap_append (l := [r])
    have hstate : (m.serve pb (r :: rs)).1 = ((m.handle pb r).1.serve pb rs).1 := rfl
    rw [hsent, hstate, List.append_assoc, ih, hcounter, ← List.append_assoc, hqueue, haccepted,
      numbered_append, List.append_assoc]

/-- A poll is answered with no bytes exactly if the queue is empty. -/
theorem bytes_handleWorkerRequest_eq_nil_iff (hids : ∀ j ∈ m.jobqueue, ∃ id, j.id = some id)
    (request : Bytes) :
    (m.handleWorkerRequest request).2.bytes pb = [] ↔
      solicits request = false ∧ m.jobqueue = [] := by
  cases h : solicits request with
  | true =>
    obtain ⟨info, hid, heq⟩ := handleWorkerRequest_of_solicits (m := m) h
    rw [heq]
    exact iff_of_false (pb.serializeJob_ne_nil hid) (by simp)
  | false =>
    rw [handleWorkerRequest_of_poll h]
    cases hqueue : m.jobqueue with
    | nil => simp [Reply.bytes]
    | cons nextjob rest =>
      obtain ⟨id, hid⟩ := hids nextjob (by rw [hqueue]; exact List.mem_cons_self)
      exact iff_of_false (pb.serializeJob_ne_nil hid) (by simp)

end Master

/-- **The master hands out jobs first in, first out, and each of them once.** After every sequence of
requests, the jobs sent to workers followed by the queue are the accepted jobs with consecutive ids.
Then no solicitation and no control message takes a job from the queue, and the reply to a worker is
empty exactly if it polls an empty queue. -/
theorem jobs_sent_in_order (pb : Protobuf) (stored : Option UInt32) (rs : List Request) :
    let m := ((Master.start stored).serve pb rs).1
    sent ((Master.start stored).serve pb rs).2 ++ m.jobqueue
        = numbered (Indexer.init stored).jobcounter (accepted pb rs) ∧
      (∀ request, solicits request = true →
        (m.handle pb (.worker request)).1.jobqueue = m.jobqueue) ∧
      (∀ request, (m.handle pb (.controller request)).1.jobqueue = m.jobqueue) ∧
      (∀ request, (m.handle pb (.worker request)).2.bytes pb = [] ↔
        solicits request = false ∧ m.jobqueue = []) ∧
      solicits (ascii "SOLICIT") = true ∧ solicits [] = false := by
  intro m
  have horder := Master.sent_serve pb rs (Master.start stored)
  have hids : ∀ j ∈ m.jobqueue, ∃ id, j.id = some id := by
    intro j hj
    have hmem : j ∈ sent ((Master.start stored).serve pb rs).2 ++ m.jobqueue :=
      List.mem_append_right _ hj
    rw [horder] at hmem
    exact exists_id_of_mem_numbered hmem
  refine ⟨horder, fun request h => ?_, fun _ => rfl, fun request => ?_, by decide, by decide⟩
  · obtain ⟨info, -, heq⟩ := Master.handleWorkerRequest_of_solicits (m := m) h
    rw [Master.handle, heq]
  · exact Master.bytes_handleWorkerRequest_eq_nil_iff hids request

end Mavicona.Chella
