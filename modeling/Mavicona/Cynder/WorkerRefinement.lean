import Mavicona.Cynder.Codec
import Mavicona.Cynder.WorkerView

/-!
# A worker is a map from quids to records

The abstract side is `lastWrite`: the last INSERT or UPDATE of a quid that no DELETE follows. The run
lemma `MapsTo.of_run` says that the view of a worker is the map of last writes, whatever way the contents
took through the data index and the large-file base, and `worker_refines_map` reads the answers of the
worker off it.
-/

namespace Mavicona.Cynder

open Bytes Trace

/-- The last write of a quid among the requests, if no deletion follows it. -/
def lastWrite (reqs : List StorageQuery) (quid : Bytes) : Option StorageQuery :=
  reqs.foldl (fun last r =>
    if r.quid = quid then
      match r.queryaction with
      | .insert | .update => some r
      | .delete => none
      | .select | .search => last
    else last) none

theorem lastWrite_append (reqs : List StorageQuery) (r : StorageQuery) (quid : Bytes) :
    lastWrite (reqs ++ [r]) quid =
      if r.quid = quid then
        match r.queryaction with
        | .insert | .update => some r
        | .delete => none
        | .select | .search => lastWrite reqs quid
      else lastWrite reqs quid := by
  simp [lastWrite]

/-- The requests a client of the map makes: 36-byte quids, no search, no INSERT of a quid that is
present, and page offsets below `2 ^ 32`. -/
def MapGuard (w : Worker) (request : StorageQuery) : Prop :=
  request.quid.length = 36 ∧ request.queryaction ≠ .search ∧
    (request.queryaction = .insert → w.ari request.quid = none) ∧ w.LfbFits request

/-- The view of a worker is the map of last writes. -/
def MapsTo (proto : Protobuf) (reqs : List StorageQuery) (w : Worker) : Prop :=
  ∃ m page h, Represents proto m page w ∧ LargeFiles h page ∧
    ∀ quid, m.view page quid = (lastWrite reqs quid).map StorageQuery.stored

namespace MapsTo

variable {proto : Protobuf} {reqs : List StorageQuery} {w : Worker}

theorem start (proto : Protobuf) (heap : Uninit) : MapsTo proto [] (Worker.start heap) :=
  ⟨_, _, [], Represents.start proto heap, LargeFiles.createDefault _, fun _ => rfl⟩

/-- Every request of the guard changes the view as it changes the last writes. -/
theorem next (hmap : MapsTo proto reqs w) {request : StorageQuery} (hok : MapGuard w request) :
    MapsTo proto (reqs ++ [request]) (w.next proto request) := by
  obtain ⟨m, page, h, hrep, hl, hview⟩ := hmap
  obtain ⟨hlen, hsearch, hfresh, hfit⟩ := hok
  have hquid : cropQuid request.quid = some request.quid := cropQuid_of_length hlen
  obtain ⟨h', hl'⟩ := hrep.largeFiles_next hl hfit
  refine ⟨m.next request, page.next request, h', hrep.next request, hl', fun quid => ?_⟩
  -- An accepted write puts the request itself into the view.
  have hwrite (haction : request.queryaction = .insert ∨ request.queryaction = .update) :
      Store.view (Function.update m request.quid (some (Entry.of request)))
          (page.routed request.quid request.getContent) quid
        = (if request.quid = quid then some request else lastWrite reqs quid).map
            StorageQuery.stored := by
    rw [Store.view_write hl hlen (hrep.fits_of_lfbFits hfit haction hquid)]
    by_cases hq : request.quid = quid
    · subst hq
      simp
    · rw [Function.update_of_ne (Ne.symm hq), if_neg hq, hview]
  rw [lastWrite_append]
  cases haction : request.queryaction with
  | select => simpa only [Store.next, Filepage.next, haction, ite_self] using hview quid
  | insert =>
    have hnone : m request.quid = none := hrep.ari_eq_none_iff.mp (hfresh haction)
    simp only [Store.next, Filepage.next, haction, hquid, hnone, Option.isNone_none, if_true]
    exact hwrite (.inl haction)
  | update =>
    simp only [Store.next, Filepage.next, haction, hquid]
    exact hwrite (.inr haction)
  | delete =>
    simp only [Store.next, Filepage.next, haction, upsKey_of_length hlen, Store.view_erase]
    by_cases hq : request.quid = quid
    · subst hq
      simp
    · rw [Function.update_of_ne (Ne.symm hq), if_neg hq, hview]
  | search => exact absurd haction hsearch

theorem of_run {heap : Uninit} (hr : Run (Worker.next proto) MapGuard (Worker.start heap) reqs w) :
    MapsTo proto reqs w :=
  hr.invariant (start proto heap) fun _ _ _ ih hok => ih.next hok

/-- A SELECT answers from the last writes. -/
theorem reply_select (hmap : MapsTo proto reqs w) {query : StorageQuery}
    (hselect : query.queryaction = .select) (hlen : query.quid.length = 36) :
    w.reply proto query = some (((lastWrite reqs query.quid).map StorageQuery.stored).getD
      (query.setResult .notfound)) := by
  obtain ⟨m, page, h, hrep, -, hview⟩ := hmap
  rw [hrep.reply_select hselect, answer, upsKey_of_length hlen, hview]

end MapsTo

/-- **The worker refines a map from quids to records and contents.** In every state reached by
requests on 36-byte quids that insert no present quid, with contents of any size and page offsets
below `2 ^ 32`: a SELECT answers the last write of its quid, record and content, or NOTFOUND; a
request on one quid does not change what a SELECT of another returns; and the record index and the
data index have the same keys. -/
theorem worker_refines_map {proto : Protobuf} {heap : Uninit} {reqs : List StorageQuery} {w : Worker}
    (hr : Run (Worker.next proto) MapGuard (Worker.start heap) reqs w) :
    (∀ query : StorageQuery, query.queryaction = .select → query.quid.length = 36 →
      w.reply proto query = some (match lastWrite reqs query.quid with
        | some r => { r with content := some r.getContent, queryresult := .success }
        | none => { query with queryresult := .notfound })) ∧
    (∀ request query : StorageQuery, MapGuard w request → query.queryaction = .select →
      query.quid.length = 36 → query.quid ≠ request.quid →
      (w.next proto request).reply proto query = w.reply proto query) ∧
    ∀ quid, w.ari quid ≠ none ↔ w.adi quid ≠ none := by
  have hmap := MapsTo.of_run hr
  refine ⟨fun query hselect hlen => ?_, fun request query hok hselect hlen hne => ?_, fun quid => ?_⟩
  · rw [hmap.reply_select hselect hlen]
    cases lastWrite reqs query.quid <;> rfl
  · rw [(hmap.next hok).reply_select hselect hlen, hmap.reply_select hselect hlen, lastWrite_append,
      if_neg (Ne.symm hne)]
  · obtain ⟨m, page, h, hrep, -, -⟩ := hmap
    rw [Ne, Ne, hrep.ari_eq_none_iff, hrep.adi_eq_none_iff]

/-! ## A record that moves to the large-file base -/

/-- A content of one byte more than `LFB_MINIMUM_SIZE`. -/
@[irreducible] def largeContent (b : UInt8) : Bytes := List.replicate (lfbMinimumSize + 1) b

@[simp] theorem length_largeContent (b : UInt8) : (largeContent b).length = lfbMinimumSize + 1 := by
  rw [largeContent, List.length_replicate]

@[simp] theorem head?_largeContent (b : UInt8) : (largeContent b).head? = some b := by
  rw [largeContent, List.replicate_succ, List.head?_cons]

theorem isLarge_largeContent (b : UInt8) : isLarge (largeContent b) = true := by
  simp [isLarge, lfbMinimumSize, stringMaxSize]

theorem fits_of_small {content : Bytes} (h : content.length ≤ lfbMinimumSize) (page : Filepage) :
    page.Fits content := by
  intro hlarge
  simp only [isLarge, Bool.and_eq_true, decide_eq_true_eq] at hlarge
  omega

/-- A new page has room for a large content. -/
theorem fits_createDefault (b : UInt8) :
    (Filepage.createDefault (dbname 0)).Fits (largeContent b) := by
  intro _
  refine ⟨?_, fun hfull => absurd hfull Bool.false_ne_true⟩
  show 800 + (largeContent b).length < 2 ^ 32
  rw [length_largeContent, lfbMinimumSize]
  omega

/-- A request about the quid `quid`. -/
def sampleRequest (action : Action) (quid content : Bytes) : StorageQuery :=
  ⟨ascii "sample", 7, quid, some content, action, .unknown, [], []⟩

/-- A quid in the bare spelling. -/
def sampleQuid : Bytes := ascii "5ab34c51-3a3c-4d10-8e76-1f0a4b2c9d8e"

/-- A content that is inserted small and updated to a large one. -/
theorem worker_refines_map_grown : ∃ w : Worker,
    Run (Worker.next protobuf) MapGuard (Worker.start ⟨0, 0, 0, 0, 0⟩)
      [sampleRequest .insert sampleQuid [1, 2, 3],
        sampleRequest .update sampleQuid (largeContent 7)] w ∧
    w.reply protobuf (sampleRequest .select sampleQuid [])
      = some { sampleRequest .update sampleQuid (largeContent 7) with queryresult := .success } := by
  have hstart := Represents.start protobuf ⟨0, 0, 0, 0, 0⟩
  have hlen : sampleQuid.length = 36 := by decide
  have hquid : cropQuid sampleQuid = some sampleQuid := cropQuid_of_length hlen
  let r₁ := sampleRequest .insert sampleQuid [1, 2, 3]
  let r₂ := sampleRequest .update sampleQuid (largeContent 7)
  have hpage : (Filepage.createDefault (dbname 0)).next r₁ = Filepage.createDefault (dbname 0) := by
    simp only [Filepage.next, r₁, sampleRequest, hquid]
    rfl
  have hrep := hstart.next r₁
  rw [hpage] at hrep
  have hok₁ : MapGuard (Worker.start ⟨0, 0, 0, 0, 0⟩) r₁ :=
    ⟨hlen, by simp [r₁, sampleRequest], fun _ => rfl,
      hstart.lfbFits_of_fits (fits_of_small (by decide) _)⟩
  have hok₂ : MapGuard ((Worker.start ⟨0, 0, 0, 0, 0⟩).next protobuf r₁) r₂ :=
    ⟨hlen, by simp [r₂, sampleRequest], by simp [r₂, sampleRequest],
      hrep.lfbFits_of_fits (fits_createDefault 7)⟩
  have hrun := (Run.nil.snoc hok₁).snoc hok₂
  refine ⟨_, hrun, ?_⟩
  rw [(worker_refines_map hrun).1 (sampleRequest .select sampleQuid []) rfl hlen]
  simp [lastWrite, r₁, r₂, sampleRequest, StorageQuery.getContent]

/-! ## A record that was inserted -/

section Sample

variable (content : Bytes)

theorem cropQuid_sampleQuid : cropQuid sampleQuid = some sampleQuid :=
  cropQuid_of_length (by decide)

/-- The worker after the first insertion of the sample record. -/
def insertedOnce : Worker :=
  (Worker.start ⟨0, 0, 0, 0, 0⟩).next protobuf (sampleRequest .insert sampleQuid content)

theorem represents_insertedOnce :
    Represents protobuf
      (Function.update (fun _ => none) sampleQuid
        (some (Entry.of (sampleRequest .insert sampleQuid content))))
      ((Filepage.createDefault (dbname 0)).routed sampleQuid content) (insertedOnce content) := by
  have hnext := (Represents.start protobuf ⟨0, 0, 0, 0, 0⟩).next
    (sampleRequest .insert sampleQuid content)
  have hquid : cropQuid (sampleRequest .insert sampleQuid content).quid = some sampleQuid :=
    cropQuid_sampleQuid
  have hinsert : (sampleRequest .insert sampleQuid content).queryaction = .insert := rfl
  simp only [Store.next, Filepage.next, hquid, hinsert, Option.isNone_none, if_true] at hnext
  exact hnext

theorem insertedOnce_stored : (insertedOnce content).ari sampleQuid ≠ none := by
  rw [Ne, (represents_insertedOnce content).ari_eq_none_iff, Function.update_self]
  simp

end Sample

end Mavicona.Cynder
