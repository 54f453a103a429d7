import Mavicona.Cynder.WorkerRefinement

/-!
# The two spellings of a quid

Reference: `quid/quidpp.h` (`Quid::crop`), `cynder/record_index.h`, `cynder/data_index.cpp`.

The put methods and `DataIndex::get` crop a quid in braces; `RecordIndex` inherits `get`, and both
indexes inherit `remove`, which look the text up as it is. So a record is written under either spelling
and read or removed under the bare one only. A written record keeps its quid as the client spelled it.
-/

namespace Mavicona.Cynder

open Bytes Trace

/-! ## Spellings -/

/-- A quid in braces. -/
def braced (quid : Bytes) : Bytes := 123 :: (quid ++ [125])

theorem length_braced (quid : Bytes) : (braced quid).length = quid.length + 2 := by simp [braced]

/-- Cropping takes the braces off. -/
theorem cropQuid_braced {quid : Bytes} (h : quid.length = 36) : cropQuid (braced quid) = some quid := by
  have hlen : (braced quid).length = 38 := by rw [length_braced, h]
  have hclose : (braced quid).getD 37 0 = 125 := by simp [braced, h]
  have hinner : ((braced quid).drop 1).take 36 = quid := by simp [braced, ← h]
  have hne : quid ≠ [] := by rintro rfl; simp at h
  have hcrop : crop (braced quid) = quid := by
    rw [crop, if_pos ⟨hlen, rfl, hclose⟩]
    exact hinner
  rw [cropQuid, if_pos (by rw [hlen]; decide), hcrop, if_neg hne]

/-- The request with its quid in braces. -/
def StorageQuery.braced (request : StorageQuery) : StorageQuery :=
  { request with quid := Cynder.braced request.quid }

/-- The record with its quid in the bare spelling. -/
def StorageQuery.bare (r : StorageQuery) : StorageQuery :=
  { r with quid := (cropQuid r.quid).getD r.quid }

/-- Two replies are equal but for the spelling of the quid they echo. -/
def SameReply (reply reply' : Option StorageQuery) : Prop :=
  reply.map StorageQuery.bare = reply'.map StorageQuery.bare

/-- Two workers are equal but for the spelling of the quids inside the stored records. -/
structure SameStore (proto : Protobuf) (w w' : Worker) : Prop where
  ari : ∀ quid, (w.ari quid).map (fun s => (proto.parseFromArray s).bare)
    = (w'.ari quid).map (fun s => (proto.parseFromArray s).bare)
  adi : w.adi = w'.adi
  uki : w.uki = w'.uki
  fti : w.fti = w'.fti
  lfb : w.lfb = w'.lfb

theorem SameStore.refl (proto : Protobuf) (w : Worker) : SameStore proto w w :=
  ⟨fun _ => rfl, rfl, rfl, rfl, rfl⟩

/-- Both spellings give the same reply and the same store, up to the spelling of the quid. -/
def SpellingsAgree (proto : Protobuf) (w : Worker) (request : StorageQuery) : Prop :=
  SameReply (w.reply proto request.braced) (w.reply proto request) ∧
    SameStore proto (w.next proto request.braced) (w.next proto request)

/-- Both spellings give the same reply, and the same store byte for byte. -/
def SpellingsAgreeExactly (proto : Protobuf) (w : Worker) (request : StorageQuery) : Prop :=
  SameReply (w.reply proto request.braced) (w.reply proto request) ∧
    w.next proto request.braced = w.next proto request

theorem SpellingsAgreeExactly.agree {proto : Protobuf} {w : Worker} {request : StorageQuery}
    (h : SpellingsAgreeExactly proto w request) : SpellingsAgree proto w request :=
  ⟨h.1, h.2 ▸ SameStore.refl proto _⟩

/-! ## The four kinds of requests -/

namespace Represents

variable {proto : Protobuf} {m : Store} {page : Filepage} {w : Worker} {request : StorageQuery}

/-- Nothing is stored under a text in braces. -/
theorem braced_eq_none (h : Represents proto m page w) {quid : Bytes} (hlen : quid.length = 36) :
    m (upsKey (braced quid)) = none := by
  have hkey : upsKey (braced quid) = braced quid := upsKey_of_lt (by rw [length_braced]; omega)
  rw [hkey]
  by_contra hsome
  obtain ⟨e, he⟩ := Option.ne_none_iff_exists'.mp hsome
  have := h.length_of_some he
  rw [length_braced] at this
  omega

theorem sameReply_echo (hlen : request.quid.length = 36) (result : Result) :
    SameReply (some (request.braced.setResult result)) (some (request.setResult result)) := by
  simp [SameReply, StorageQuery.bare, StorageQuery.braced, StorageQuery.setResult,
    cropQuid_braced hlen, cropQuid_of_length hlen]

/-- What is not there is not found under either spelling. -/
theorem agree_of_absent (h : Represents proto m page w) (hlen : request.quid.length = 36)
    (haction : request.queryaction = .select ∨ request.queryaction = .delete)
    (hnone : m request.quid = none) : SpellingsAgreeExactly proto w request := by
  have hbare := h.handle_absent haction ((upsKey_of_length hlen).symm ▸ hnone)
  have hbraced : w.handle proto request.braced = (w, some (request.braced.setResult .notfound)) :=
    h.handle_absent haction (h.braced_eq_none hlen)
  simp only [SpellingsAgreeExactly, Worker.reply, Worker.next, hbare, hbraced, and_true]
  exact sameReply_echo hlen .notfound

/-- A SELECT or DELETE of what is there succeeds. -/
theorem handle_present (h : Represents proto m page w) (hlen : request.quid.length = 36)
    (haction : request.queryaction = .select ∨ request.queryaction = .delete)
    (hsome : m request.quid ≠ none) :
    ∃ r, w.reply proto request = some r ∧ r.queryresult = .success := by
  obtain ⟨e, he⟩ := Option.ne_none_iff_exists'.mp hsome
  have he' : m (upsKey request.quid) = some e := by rw [upsKey_of_length hlen, he]
  rcases haction with haction | haction
  · rw [Worker.reply, h.handle_select haction he']
    exact ⟨_, rfl, (h.valid _ e he).result⟩
  · rw [Worker.reply, h.handle_delete haction he']
    exact ⟨_, rfl, rfl⟩

/-- What is there is found under the bare spelling only. -/
theorem not_agree_of_present (h : Represents proto m page w) (hlen : request.quid.length = 36)
    (haction : request.queryaction = .select ∨ request.queryaction = .delete)
    (hsome : m request.quid ≠ none) : ¬ SpellingsAgree proto w request := by
  obtain ⟨r, hr, hsuccess⟩ := h.handle_present hlen haction hsome
  have hbraced : w.handle proto request.braced = (w, some (request.braced.setResult .notfound)) :=
    h.handle_absent haction (h.braced_eq_none hlen)
  rintro ⟨hreply, -⟩
  rw [SameReply, hr, Worker.reply, hbraced] at hreply
  have hresult := congrArg (Option.map StorageQuery.queryresult) hreply
  simp [StorageQuery.bare, StorageQuery.setResult, hsuccess] at hresult

/-- An INSERT of what is there is refused under both spellings, and routes its content to the same
name. -/
theorem agree_of_refused (h : Represents proto m page w) (hlen : request.quid.length = 36)
    (hinsert : request.queryaction = .insert) (hsome : m request.quid ≠ none) :
    SpellingsAgreeExactly proto w request := by
  have hcrop : cropQuid request.braced.quid = some request.quid := cropQuid_braced hlen
  have hbare := h.handle_refused (cropQuid_of_length hlen) hinsert hsome
  have hbraced := h.handle_refused hcrop hinsert hsome
  simp only [SpellingsAgreeExactly, Worker.reply, Worker.next, hbare, hbraced]
  exact ⟨sameReply_echo hlen .duplicate, rfl⟩

/-- A write that is not refused leaves the same store but for the spelling in the record. -/
theorem agree_of_accepted (h : Represents proto m page w) (hlen : request.quid.length = 36)
    (haccept : request.queryaction = .update ∨
      request.queryaction = .insert ∧ m request.quid = none) :
    SpellingsAgree proto w request ∧ ¬ SpellingsAgreeExactly proto w request := by
  have hbare : cropQuid request.quid = some request.quid := cropQuid_of_length hlen
  have hcrop : cropQuid (braced request.quid) = some request.quid := cropQuid_braced hlen
  have hhandle := h.handle_accepted hbare haccept
  have hhandle' := h.handle_accepted
    (show cropQuid request.braced.quid = some request.quid from hcrop) haccept
  have hreply : SameReply (w.reply proto request.braced) (w.reply proto request) := by
    rw [Worker.reply, Worker.reply, hhandle, hhandle']
    simp [SameReply, Entry.of, StorageQuery.bare, StorageQuery.braced, StorageQuery.setResult,
      StorageQuery.clearContent, hcrop, hbare]
  refine ⟨⟨hreply, ?_⟩, fun hexact => ?_⟩
  · rw [Worker.next, Worker.next, hhandle, hhandle']
    refine ⟨fun q => ?_, rfl, ?_, ?_, rfl⟩
    · by_cases hq : q = request.quid
      · simp [hq, proto.parse_serialize, Entry.of, StorageQuery.bare, StorageQuery.braced,
          StorageQuery.setResult, StorageQuery.clearContent, hcrop, hbare]
      · simp [Function.update_of_ne hq]
    · simp only [Worker.keyPut, StorageQuery.braced, hcrop, hbare]
    · simp only [Worker.textPut, StorageQuery.braced, hcrop, hbare]
  · -- The record in the record index carries the spelling, and serializing is injective.
    have hari := congrArg (fun w => (w.ari request.quid).map proto.parseFromArray) hexact.2
    rw [Worker.next, Worker.next, hhandle, hhandle'] at hari
    have hquid := congrArg (Option.map StorageQuery.quid) hari
    simp only [Function.update_self, Option.map_some, proto.parse_serialize] at hquid
    have hlength := congrArg List.length (Option.some.inj hquid)
    have hbraces : (braced request.quid).length = request.quid.length + 2 := length_braced _
    simp only [Entry.of, StorageQuery.clearContent, StorageQuery.setResult, StorageQuery.braced]
      at hlength
    omega

end Represents

/-- **When the two spellings of a quid address the same record.** In every reachable state and for
every SELECT, INSERT, UPDATE and DELETE with a 36-byte quid: the braced and the bare spelling give the
same reply and the same store, up to the spelling of the quid in the reply and inside the record, if
and only if the request is a write or nothing is stored under the quid. They give the same store byte
for byte if and only if the request is an INSERT of a stored quid, or a SELECT or DELETE of one that is
not stored. -/
theorem spellings_agree_iff {proto : Protobuf} {heap : Uninit} {reqs : List StorageQuery} {w : Worker}
    {request : StorageQuery}
    (hr : Run (Worker.next proto) (fun _ _ => True) (Worker.start heap) reqs w)
    (hlen : request.quid.length = 36) (haction : request.queryaction ≠ .search) :
    (SpellingsAgree proto w request ↔
      (request.queryaction = .insert ∨ request.queryaction = .update ∨
        w.ari request.quid = none)) ∧
    (SpellingsAgreeExactly proto w request ↔
      (request.queryaction = .insert ∧ w.ari request.quid ≠ none ∨
        (request.queryaction = .select ∨ request.queryaction = .delete) ∧
          w.ari request.quid = none)) := by
  have h := Represents.of_run hr
  set m := reqs.foldl Store.next fun _ => none
  have hstored : w.ari request.quid = none ↔ m request.quid = none := h.ari_eq_none_iff
  -- A SELECT and a DELETE behave the same here.
  have hlookup (hread : request.queryaction = .select ∨ request.queryaction = .delete) :
      (SpellingsAgree proto w request ↔ m request.quid = none) ∧
      (SpellingsAgreeExactly proto w request ↔ m request.quid = none) := by
    by_cases hnone : m request.quid = none
    · have hexact := h.agree_of_absent hlen hread hnone
      exact ⟨iff_of_true hexact.agree hnone, iff_of_true hexact hnone⟩
    · have hnot := h.not_agree_of_present hlen hread hnone
      exact ⟨iff_of_false hnot hnone, iff_of_false (fun hexact => hnot hexact.agree) hnone⟩
  cases hact : request.queryaction with
  | select => simpa [hstored] using hlookup (.inl hact)
  | delete => simpa [hstored] using hlookup (.inr hact)
  | update =>
    obtain ⟨hagree, hnot⟩ := h.agree_of_accepted hlen (.inl hact)
    simp [hagree, hnot]
  | insert =>
    by_cases hnone : m request.quid = none
    · obtain ⟨hagree, hnot⟩ := h.agree_of_accepted hlen (.inr ⟨hact, hnone⟩)
      simp [hagree, hnot, hstored, hnone]
    · have hexact := h.agree_of_refused hlen hact hnone
      simp [hexact, hexact.agree, hstored, hnone]
  | search => exact absurd hact haction

/-- An UPDATE of a stored record. -/
theorem spellings_agree_update :
    SpellingsAgree protobuf (insertedOnce [1, 2, 3]) (sampleRequest .update sampleQuid [4]) ∧
    ¬ SpellingsAgreeExactly protobuf (insertedOnce [1, 2, 3])
      (sampleRequest .update sampleQuid [4]) := by
  have hrun : Run (Worker.next protobuf) (fun _ _ => True) (Worker.start ⟨0, 0, 0, 0, 0⟩)
    [sampleRequest .insert sampleQuid [1, 2, 3]] (insertedOnce [1, 2, 3]) := Run.single trivial
  have hlen : (sampleRequest .update sampleQuid [4]).quid.length = 36 := by decide
  obtain ⟨hagree, hexact⟩ := spellings_agree_iff hrun hlen (by simp [sampleRequest])
  refine ⟨hagree.mpr (.inr (.inl rfl)), fun hexactly => ?_⟩
  simpa [sampleRequest] using hexact.mp hexactly

/-- A stored record is not found under its quid in braces. -/
theorem braced_select_notfound :
    Run (Worker.next protobuf) (fun _ _ => True) (Worker.start ⟨0, 0, 0, 0, 0⟩)
      [sampleRequest .insert sampleQuid [1, 2, 3]] (insertedOnce [1, 2, 3]) ∧
    ¬ SpellingsAgree protobuf (insertedOnce [1, 2, 3]) (sampleRequest .select sampleQuid []) := by
  have hrep := represents_insertedOnce [1, 2, 3]
  refine ⟨Run.single trivial, hrep.not_agree_of_present (by decide) (.inl rfl) ?_⟩
  exact mt hrep.ari_eq_none_iff.mpr (insertedOnce_stored [1, 2, 3])

end Mavicona.Cynder
