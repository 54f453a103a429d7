import Mavicona.Cynder.WorkerFacts

/-!
# A worker as a map from quids to entries

Between the databases of a worker and the map a client sees stands `Store`: under every quid a record
and the place of its content, in the data index or in page 0 of the large-file base. `Represents` says
that a worker is in the state a store and a page describe. Every request takes a store to
`Store.next` and a page to `Filepage.next`, and `Represents.next` shows that the worker follows: both
indexes get and lose their keys together on every path, a refused write included.
-/

namespace Mavicona.Cynder

open Bytes

/-! ## Stores -/

/-- Where the content of a record is kept. -/
inductive Place
  | inline (content : Bytes)
  | large

namespace Place

/-- Where `DataIndex::put` keeps a content. -/
def of (content : Bytes) : Place := if isLarge content then .large else .inline content

/-- The value of the data index. -/
def value : Place → Bytes
  | .inline content => inlineValue content
  | .large => lfbValue 0

/-- The content of a place, given the page the large contents are in. -/
def read (page : Filepage) (quid : Bytes) : Place → Bytes
  | .inline content => content
  | .large => (page.retrieveItem quid).getD []

end Place

/-- What a worker keeps under a quid. -/
structure Entry where
  record : StorageQuery
  place : Place

/-- The entry a write leaves. -/
def Entry.of (request : StorageQuery) : Entry where
  record := (request.setResult .success).clearContent
  place := Place.of request.getContent

/-- The record belongs to the quid, and content marked as large is in the page. -/
structure Entry.Valid (page : Filepage) (quid : Bytes) (e : Entry) : Prop where
  quid_eq : cropQuid e.record.quid = some quid
  result : e.record.queryresult = .success
  held : e.place = .large → page.contents quid ≠ none

/-- The entries of a worker. -/
abbrev Store := Bytes → Option Entry

/-- The store after a request. -/
def Store.next (m : Store) (request : StorageQuery) : Store :=
  match request.queryaction, cropQuid request.quid with
  | .insert, some quid =>
    if (m quid).isNone then Function.update m quid (some (Entry.of request)) else m
  | .update, some quid => Function.update m quid (some (Entry.of request))
  | .delete, _ => Function.update m (upsKey request.quid) none
  | _, _ => m

namespace Filepage

/-- The page after `DataIndex::put` has routed a content. -/
def routed (page : Filepage) (quid content : Bytes) : Filepage :=
  if isLarge content then page.storeItem quid content else page

/-- The page after a request. A refused write has routed its content, too. -/
def next (page : Filepage) (request : StorageQuery) : Filepage :=
  match request.queryaction, cropQuid request.quid with
  | .insert, some quid => page.routed quid request.getContent
  | .update, some quid => page.routed quid request.getContent
  | _, _ => page

@[simp] theorem routed_pageFull (page : Filepage) (quid content : Bytes) :
    (page.routed quid content).pageFull = page.pageFull := by
  unfold routed
  split_ifs <;> simp

/-- Routing a content does not take any name out of the page. -/
theorem contents_routed_ne_none {page : Filepage} {quid content name : Bytes}
    (hquid : quid.length = 36) (h : page.contents name ≠ none) :
    (page.routed quid content).contents name ≠ none := by
  unfold routed
  split_ifs with hlarge
  · obtain ⟨entry, hentry⟩ := page.storeItem_contents content (by omega : quid.length ≤ 40)
    by_cases hname : name = quid <;> simp [hentry, hname, Function.update_of_ne, h]
  · exact h

/-- Large content is in the page it was routed to. -/
theorem contents_routed_self {page : Filepage} {quid content : Bytes}
    (hquid : quid.length = 36) (hlarge : isLarge content = true) :
    (page.routed quid content).contents quid ≠ none := by
  obtain ⟨entry, hentry⟩ := page.storeItem_contents content (by omega : quid.length ≤ 40)
  simp [routed, hlarge, hentry]

end Filepage

/-- The file base after `DataIndex::put` has routed a content to its only page. -/
def Filebase.routed (fb : Filebase) (page : Filepage) (quid content : Bytes) : Filebase :=
  if isLarge content then fb.enter 0 (page.storeItem quid content) else fb

theorem OnePage.routed {fb : Filebase} {page : Filepage} (h : OnePage fb page)
    (quid content : Bytes) : OnePage (fb.routed page quid content) (page.routed quid content) := by
  unfold Filebase.routed Filepage.routed
  split_ifs
  · exact h.enter (by simp [h.pageFull])
  · exact h

/-- `DataIndex::put` on a single page. -/
theorem Worker.dataPut_eq {w : Worker} {page : Filepage} {quid key value : Bytes} {override : Bool}
    (h : OnePage w.lfb page) (hquid : cropQuid quid = some key) :
    w.dataPut quid value override = match w.adi.put key (Place.of value).value override with
      | .error e => (.error e, { w with lfb := w.lfb.routed page key value })
      | .ok adi => (.ok (), { w with adi := adi, lfb := w.lfb.routed page key value }) := by
  by_cases hlarge : isLarge value = true
  · have hplace : (Place.of value).value = lfbValue 0 := by rw [Place.of, if_pos hlarge, Place.value]
    rw [hplace]
    cases hput : w.adi.put key (lfbValue 0) override <;>
      simp [Worker.dataPut, hquid, hlarge, h.put, Filebase.routed, hput]
  · have hplace : (Place.of value).value = inlineValue value := by
      rw [Place.of, if_neg hlarge, Place.value]
    rw [hplace]
    cases hput : w.adi.put key (inlineValue value) override <;>
      simp [Worker.dataPut, hquid, hlarge, Filebase.routed, hput]

/-- The worker is in the state of the store, its large contents in the page. -/
structure Represents (proto : Protobuf) (m : Store) (page : Filepage) (w : Worker) : Prop where
  ari : ∀ quid, w.ari quid = (m quid).map fun e => proto.serializeToString e.record
  adi : ∀ quid, w.adi quid = (m quid).map fun e => e.place.value
  lfb : OnePage w.lfb page
  valid : ∀ quid e, m quid = some e → e.Valid page quid

namespace Represents

variable {proto : Protobuf} {m : Store} {page : Filepage} {w : Worker} {request : StorageQuery}
  {quid : Bytes}

theorem start (proto : Protobuf) (heap : Uninit) :
    Represents proto (fun _ => none) (Filepage.createDefault (dbname 0)) (Worker.start heap) where
  ari := fun _ => rfl
  adi := fun _ => rfl
  lfb := OnePage.construct heap
  valid := fun _ _ h => nomatch h

/-- Every stored quid has 36 bytes. -/
theorem length_of_some (h : Represents proto m page w) {e : Entry} (he : m quid = some e) :
    quid.length = 36 :=
  length_of_cropQuid (h.valid quid e he).quid_eq

theorem ari_eq_none_iff (h : Represents proto m page w) : w.ari quid = none ↔ m quid = none := by
  rw [h.ari, Option.map_eq_none_iff]

theorem adi_eq_none_iff (h : Represents proto m page w) : w.adi quid = none ↔ m quid = none := by
  rw [h.adi, Option.map_eq_none_iff]

/-- The additional indexes do not matter. -/
theorem of_frame {w' : Worker} (h : Represents proto m page w) (hari : w'.ari = w.ari)
    (hadi : w'.adi = w.adi) (hlfb : w'.lfb = w.lfb) : Represents proto m page w' where
  ari := hari ▸ h.ari
  adi := hadi ▸ h.adi
  lfb := hlfb ▸ h.lfb
  valid := h.valid

/-! ### Writes -/

/-- A write that is not refused. -/
theorem write_ok (h : Represents proto m page w) (query : StorageQuery) {override : Bool}
    (hquid : cropQuid query.quid = some quid) (hok : override = true ∨ m quid = none) :
    w.write proto override query =
      ({ ari := Function.update w.ari quid (some (proto.serializeToString query.clearContent))
         adi := Function.update w.adi quid (some (Place.of query.getContent).value)
         uki := (leavesForest query.metas).foldl
           (fun uki l => Worker.keyPut uki query.quid l.1 l.2) w.uki
         fti := (leavesForest query.metas).foldl
           (fun fti l => Worker.textPut fti query.quid l.2 l.1) w.fti
         lfb := w.lfb.routed page quid query.getContent },
        some query.clearContent) := by
  have hlen : quid.length = 36 := length_of_cropQuid hquid
  have hadi : override = true ∨ w.adi quid = none := by rwa [h.adi_eq_none_iff]
  have hari : override = true ∨ w.ari quid = none := by rwa [h.ari_eq_none_iff]
  have hquid' : cropQuid query.clearContent.quid = some quid := hquid
  simp only [Worker.write, Worker.dataPut_eq h.lfb hquid, Db.put_ok hlen hadi, Worker.recordPut,
    hquid', Db.put_ok hlen hari, Worker.traverseForest_eq]
  rfl

/-- A refused write has routed its content and changed nothing else. -/
theorem write_refused (h : Represents proto m page w) (query : StorageQuery)
    (hquid : cropQuid query.quid = some quid) (hstored : m quid ≠ none) :
    w.write proto false query = ({ w with lfb := w.lfb.routed page quid query.getContent },
      some (query.setResult .duplicate)) := by
  have hlen : quid.length = 36 := length_of_cropQuid hquid
  have hadi : w.adi quid ≠ none := by rwa [Ne, h.adi_eq_none_iff]
  simp only [Worker.write, Worker.dataPut_eq h.lfb hquid, Db.put_duplicate hlen hadi]
  rfl

/-- The store after a write that is not refused. -/
theorem routed_update (h : Represents proto m page w) {e : Entry} {content : Bytes}
    (hquid : cropQuid e.record.quid = some quid) (hresult : e.record.queryresult = .success)
    (hplace : e.place = Place.of content) :
    Represents proto (Function.update m quid (some e)) (page.routed quid content)
      { w with
        ari := Function.update w.ari quid (some (proto.serializeToString e.record))
        adi := Function.update w.adi quid (some e.place.value)
        lfb := w.lfb.routed page quid content } where
  ari := by
    intro q
    by_cases hq : q = quid <;> simp [hq, Function.update_of_ne, h.ari]
  adi := by
    intro q
    by_cases hq : q = quid <;> simp [hq, Function.update_of_ne, h.adi]
  lfb := h.lfb.routed quid content
  valid := by
    have hlen : quid.length = 36 := length_of_cropQuid hquid
    intro q e' he'
    by_cases hq : q = quid
    · subst hq
      obtain rfl : e = e' := by simpa using he'
      refine ⟨hquid, hresult, fun hlarge => Filepage.contents_routed_self hlen ?_⟩
      rw [hplace, Place.of] at hlarge
      by_contra hsmall
      simp [hsmall] at hlarge
    · rw [Function.update_of_ne hq] at he'
      have hvalid := h.valid q e' he'
      exact ⟨hvalid.quid_eq, hvalid.result,
        fun hlarge => Filepage.contents_routed_ne_none hlen (hvalid.held hlarge)⟩

/-- The store after a refused write. -/
theorem routed_refused (h : Represents proto m page w) (hlen : quid.length = 36) (content : Bytes) :
    Represents proto m (page.routed quid content)
      { w with lfb := w.lfb.routed page quid content } where
  ari := h.ari
  adi := h.adi
  lfb := h.lfb.routed quid content
  valid := by
    intro q e he
    have hvalid := h.valid q e he
    exact ⟨hvalid.quid_eq, hvalid.result,
      fun hlarge => Filepage.contents_routed_ne_none hlen (hvalid.held hlarge)⟩

/-- A write whose quid no index accepts. -/
theorem write_invalid (proto : Protobuf) (w : Worker) (query : StorageQuery) {override : Bool}
    (hquid : cropQuid query.quid = none) :
    w.write proto override query = (w, some query.clearContent) := by
  have hquid' : cropQuid query.clearContent.quid = none := hquid
  simp only [Worker.write, Worker.dataPut, hquid, Worker.recordPut, hquid',
    Worker.traverseForest_invalid hquid']

/-! ### The other requests -/

/-- What the data index gives for a stored quid. -/
theorem dataGet_eq (h : Represents proto m page w) {e : Entry} {text : Bytes}
    (hquid : cropQuid text = some quid) (he : m quid = some e) :
    w.dataGet text = .ok (e.place.read page quid) := by
  have hvalid := h.valid quid e he
  have hadi : w.adi quid = some e.place.value := by rw [h.adi, he]; rfl
  simp only [Worker.dataGet, hquid, Db.get_some (length_of_cropQuid hquid) hadi]
  cases hplace : e.place with
  | inline content => exact Worker.readRecord_inlineValue
  | large =>
    obtain ⟨entry, hentry⟩ := Option.ne_none_iff_exists'.mp (hvalid.held hplace)
    rw [Place.value, Worker.readRecord_lfbValue 0 (by decide), h.lfb.get, Place.read]
    simp only [Filepage.retrieveItem, hentry, Option.getD_some]

theorem select_none (h : Represents proto m page w) (query : StorageQuery)
    (hnone : m (upsKey query.quid) = none) :
    w.select proto query = (w, some (query.setResult .notfound)) := by
  rw [Worker.select, Db.get_none (h.ari_eq_none_iff.mpr hnone)]
  rfl

theorem select_some (h : Represents proto m page w) (query : StorageQuery) {e : Entry}
    (hsome : m (upsKey query.quid) = some e) :
    w.select proto query
      = (w, some (e.record.setContent (e.place.read page (upsKey query.quid)))) := by
  have hari : w.ari (upsKey query.quid) = some (proto.serializeToString e.record) := by
    rw [h.ari, hsome]; rfl
  simp only [Worker.select, Db.get, hari, proto.parse_serialize,
    h.dataGet_eq (h.valid _ e hsome).quid_eq hsome]

theorem delete_none (h : Represents proto m page w) (query : StorageQuery)
    (hnone : m (upsKey query.quid) = none) :
    w.delete query = (w, some (query.setResult .notfound)) := by
  rw [Worker.delete, Db.remove_none (h.adi_eq_none_iff.mpr hnone)]
  rfl

theorem delete_some (h : Represents proto m page w) (query : StorageQuery) {e : Entry}
    (hsome : m (upsKey query.quid) = some e) :
    w.delete query =
      ({ w with
          ari := Function.update w.ari (upsKey query.quid) none
          adi := Function.update w.adi (upsKey query.quid) none }, some query) := by
  have hari : w.ari (upsKey query.quid) = some (proto.serializeToString e.record) := by
    rw [h.ari, hsome]; rfl
  have hadi : w.adi (upsKey query.quid) = some e.place.value := by
    rw [h.adi, hsome]; rfl
  simp only [Worker.delete, Db.remove_some hadi, Db.remove_some hari]

/-- The store after a deletion. -/
theorem erase (h : Represents proto m page w) (quid : Bytes) :
    Represents proto (Function.update m quid none) page
      { w with
        ari := Function.update w.ari quid none
        adi := Function.update w.adi quid none } where
  ari := by
    intro q
    by_cases hq : q = quid <;> simp [hq, Function.update_of_ne, h.ari]
  adi := by
    intro q
    by_cases hq : q = quid <;> simp [hq, Function.update_of_ne, h.adi]
  lfb := h.lfb
  valid := by
    intro q e he
    by_cases hq : q = quid
    · simp [hq] at he
    · rw [Function.update_of_ne hq] at he
      exact h.valid q e he

theorem search_fst (w : Worker) (proto : Protobuf) (query : StorageQuery) :
    (w.search proto query).1 = w := by
  unfold Worker.search
  split
  · rfl
  · split
    · rfl
    · split <;> rfl

/-! ### Every request -/

/-- An UPDATE, or an INSERT of a quid that is not stored. -/
theorem handle_accepted (h : Represents proto m page w) (hquid : cropQuid request.quid = some quid)
    (haccept : request.queryaction = .update ∨ request.queryaction = .insert ∧ m quid = none) :
    w.handle proto request =
      ({ ari := Function.update w.ari quid (some (proto.serializeToString (Entry.of request).record))
         adi := Function.update w.adi quid (some (Entry.of request).place.value)
         uki := (leavesForest request.metas).foldl
           (fun uki l => Worker.keyPut uki request.quid l.1 l.2) w.uki
         fti := (leavesForest request.metas).foldl
           (fun fti l => Worker.textPut fti request.quid l.2 l.1) w.fti
         lfb := w.lfb.routed page quid request.getContent },
        some (Entry.of request).record) := by
  have hquery : (request.setResult .success).queryaction = request.queryaction := rfl
  simp only [Worker.handle, hquery]
  rcases haccept with haction | ⟨haction, hnone⟩
  · simp only [haction]
    exact h.write_ok (request.setResult .success) hquid (.inl rfl)
  · simp only [haction]
    exact h.write_ok (request.setResult .success) hquid (.inr hnone)

/-- An INSERT of a stored quid. -/
theorem handle_refused (h : Represents proto m page w) (hquid : cropQuid request.quid = some quid)
    (hinsert : request.queryaction = .insert) (hstored : m quid ≠ none) :
    w.handle proto request = ({ w with lfb := w.lfb.routed page quid request.getContent },
      some (request.setResult .duplicate)) := by
  have hquery : (request.setResult .success).queryaction = .insert := hinsert
  simp only [Worker.handle, hquery]
  exact h.write_refused (request.setResult .success) hquid hstored

/-- A write whose quid no index accepts. -/
theorem handle_invalid (proto : Protobuf) (w : Worker)
    (haction : request.queryaction = .insert ∨ request.queryaction = .update)
    (hquid : cropQuid request.quid = none) :
    w.handle proto request = (w, some (Entry.of request).record) := by
  have hquery : (request.setResult .success).queryaction = request.queryaction := rfl
  simp only [Worker.handle, hquery]
  rcases haction with haction | haction
  · simp only [haction]
    exact write_invalid proto w (request.setResult .success) hquid
  · simp only [haction]
    exact write_invalid proto w (request.setResult .success) hquid

/-- A SELECT or DELETE of a text under which nothing is stored. -/
theorem handle_absent (h : Represents proto m page w)
    (haction : request.queryaction = .select ∨ request.queryaction = .delete)
    (hnone : m (upsKey request.quid) = none) :
    w.handle proto request = (w, some (request.setResult .notfound)) := by
  have hquery : (request.setResult .success).queryaction = request.queryaction := rfl
  simp only [Worker.handle, hquery]
  rcases haction with haction | haction
  · simp only [haction]
    exact h.select_none (request.setResult .success) hnone
  · simp only [haction]
    exact h.delete_none (request.setResult .success) hnone

theorem handle_select (h : Represents proto m page w) (haction : request.queryaction = .select)
    {e : Entry} (hsome : m (upsKey request.quid) = some e) :
    w.handle proto request
      = (w, some (e.record.setContent (e.place.read page (upsKey request.quid)))) := by
  have hquery : (request.setResult .success).queryaction = .select := haction
  simp only [Worker.handle, hquery]
  exact h.select_some (request.setResult .success) hsome

theorem handle_delete (h : Represents proto m page w) (haction : request.queryaction = .delete)
    {e : Entry} (hsome : m (upsKey request.quid) = some e) :
    w.handle proto request =
      ({ w with
          ari := Function.update w.ari (upsKey request.quid) none
          adi := Function.update w.adi (upsKey request.quid) none },
        some (request.setResult .success)) := by
  have hquery : (request.setResult .success).queryaction = .delete := haction
  simp only [Worker.handle, hquery]
  exact h.delete_some (request.setResult .success) hsome

theorem handle_search (w : Worker) (proto : Protobuf) (haction : request.queryaction = .search) :
    (w.handle proto request).1 = w := by
  have hquery : (request.setResult .success).queryaction = .search := haction
  simp only [Worker.handle, hquery]
  exact search_fst w proto _

/-- The state after a write that is not refused. -/
theorem next_accepted (h : Represents proto m page w) (hquid : cropQuid request.quid = some quid)
    (haccept : request.queryaction = .update ∨ request.queryaction = .insert ∧ m quid = none) :
    Represents proto (Function.update m quid (some (Entry.of request)))
      (page.routed quid request.getContent) (w.next proto request) := by
  have hplace : (Entry.of request).place = Place.of request.getContent := rfl
  have hupdate := h.routed_update (e := Entry.of request) hquid rfl hplace
  rw [Worker.next, h.handle_accepted hquid haccept]
  exact hupdate.of_frame rfl rfl rfl

/-- **The worker follows the store.** Every request, refused or not, takes the worker to the state of
the next store and the next page. -/
theorem next (h : Represents proto m page w) (request : StorageQuery) :
    Represents proto (m.next request) (page.next request) (w.next proto request) := by
  cases haction : request.queryaction with
  | select =>
    have hstate : w.next proto request = w := by
      cases hm : m (upsKey request.quid) with
      | none => rw [Worker.next, h.handle_absent (.inl haction) hm]
      | some e => rw [Worker.next, h.handle_select haction hm]
    simpa only [Store.next, Filepage.next, haction, hstate] using h
  | insert =>
    cases hquid : cropQuid request.quid with
    | none =>
      simpa only [Store.next, Filepage.next, haction, hquid, Worker.next,
        handle_invalid proto w (.inl haction) hquid] using h
    | some quid =>
      simp only [Store.next, Filepage.next, haction, hquid]
      cases hm : m quid with
      | none =>
        rw [Option.isNone_none, if_pos rfl]
        exact h.next_accepted hquid (.inr ⟨haction, hm⟩)
      | some e =>
        rw [Option.isNone_some, if_neg Bool.false_ne_true, Worker.next,
          h.handle_refused hquid haction (by simp [hm])]
        exact h.routed_refused (length_of_cropQuid hquid) request.getContent
  | update =>
    cases hquid : cropQuid request.quid with
    | none =>
      simpa only [Store.next, Filepage.next, haction, hquid, Worker.next,
        handle_invalid proto w (.inr haction) hquid] using h
    | some quid =>
      simp only [Store.next, Filepage.next, haction, hquid]
      exact h.next_accepted hquid (.inl haction)
  | delete =>
    simp only [Store.next, Filepage.next, haction]
    cases hm : m (upsKey request.quid) with
    | none =>
      rw [Worker.next, h.handle_absent (.inr haction) hm, ← hm, Function.update_eq_self]
      exact h
    | some e =>
      rw [Worker.next, h.handle_delete haction hm]
      exact h.erase (upsKey request.quid)
  | search =>
    simpa only [Store.next, Filepage.next, haction, Worker.next, handle_search w proto haction]
      using h

/-- Every worker that was started without data is in the state of some store. -/
theorem of_run {heap : Uninit} {ok : Worker → StorageQuery → Prop} {reqs : List StorageQuery}
    (hr : Trace.Run (Worker.next proto) ok (Worker.start heap) reqs w) :
    Represents proto (reqs.foldl Store.next fun _ => none)
      (reqs.foldl Filepage.next (Filepage.createDefault (dbname 0))) w := by
  refine hr.invariant (P := fun reqs w => Represents proto (reqs.foldl Store.next fun _ => none)
    (reqs.foldl Filepage.next (Filepage.createDefault (dbname 0))) w)
    (start proto heap) fun reqs w request ih _ => ?_
  rw [List.foldl_append, List.foldl_append]
  exact ih.next request

end Represents

end Mavicona.Cynder
