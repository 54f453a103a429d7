import Mavicona.Cynder.SearchIndex

/-!
# The results of a search

A search returns the records that are stored now under the quids it finds, as a SELECT would return
them. What made it find them is a write of the past: the record may have been replaced since by one
whose metadata has nothing to do with the term.
-/

namespace Mavicona.Cynder

open Bytes Trace

/-- The records a search collects are those of the view. -/
theorem Represents.searchNext_eq {proto : Protobuf} {m : Store} {page : Filepage} {w : Worker}
    (h : Represents proto m page w) {keyList : List Bytes}
    (hlen : ∀ value ∈ keyList, value.length = 36) :
    w.searchNext proto keyList = some (keyList.filterMap (m.view page)) := by
  induction keyList with
  | nil => rfl
  | cons value keyList ih =>
    have hvalue : value.length = 36 := hlen value List.mem_cons_self
    have hrest := ih fun v hv => hlen v (List.mem_cons_of_mem value hv)
    rw [Worker.searchNext]
    cases hm : m value with
    | none =>
      have hnone : w.ari (upsKey value) = none := by
        rw [upsKey_of_length hvalue, h.ari_eq_none_iff, hm]
      simp only [Db.get_none hnone, hrest, List.filterMap_cons, Store.view, hm, Option.map_none]
    | some e =>
      have hari : w.ari value = some (proto.serializeToString e.record) := by rw [h.ari, hm]; rfl
      simp only [Db.get_some hvalue hari, proto.parse_serialize,
        h.dataGet_eq (cropQuid_of_length hvalue) hm, hrest, List.filterMap_cons, Store.view, hm,
        Option.map_some]

/-- **What a search returns.** In every reachable state a SEARCH is answered, and every record it adds
to the reply is the one a SELECT of its quid returns now; some INSERT or UPDATE of this quid in the
past was answered with SUCCESS and had a leaf whose lower-cased key is an index keyword, and this key or
the value of the leaf is the same database key as the term. For a term and a value shorter than 64 KiB,
which the databases do not cut, this means that the term is equal to the lower-cased key or to the
value. -/
theorem search_returns_written {proto : Protobuf} {heap : Uninit} {reqs : List StorageQuery}
    {w : Worker} {query : StorageQuery}
    (hr : Run (Worker.next proto) (fun _ _ => True) (Worker.start heap) reqs w)
    (hsearch : query.queryaction = .search) :
    ∃ r found, w.reply proto query = some r ∧ r.next = query.next ++ found ∧
      ∀ record ∈ found, ∃ quid leaf, cropQuid record.quid = some quid ∧
        (∀ select : StorageQuery, select.queryaction = .select → select.quid = quid →
          w.reply proto select = some record) ∧
        Wrote proto (Worker.start heap) reqs quid leaf ∧
        (upsKey query.getContent = upsKey (normalize leaf.1) ∨
          upsKey query.getContent = upsKey leaf.2) ∧
        (query.getContent.length < 2 ^ 16 → leaf.2.length < 2 ^ 16 →
          query.getContent = normalize leaf.1 ∨ query.getContent = leaf.2) := by
  have hrep := Represents.of_run hr
  have hi := Indexed.of_run hr
  have hquery : (query.setResult .success).queryaction = .search := hsearch
  have hcontent : (query.setResult .success).getContent = query.getContent := rfl
  have hreply : w.reply proto query = (w.search proto (query.setResult .success)).2 := by
    simp only [Worker.reply, Worker.handle, hquery]
  rw [hreply]
  simp only [Worker.search, hcontent]
  -- An exception of either lookup leaves the reply without records.
  cases h₁ : w.uki.getMulti query.getContent [] with
  | error e => exact ⟨_, [], rfl, by cases e <;> simp [StorageQuery.caught, StorageQuery.setResult],
      fun _ hmem => absurd hmem List.not_mem_nil⟩
  | ok list₁ =>
    dsimp only
    cases h₂ : w.fti.getMulti query.getContent list₁ with
    | error e => exact ⟨_, [], rfl, by cases e <;> simp [StorageQuery.caught, StorageQuery.setResult],
        fun _ hmem => absurd hmem List.not_mem_nil⟩
    | ok list₂ =>
      have hnext := hrep.searchNext_eq fun q hq => (hi.getMulti_mem h₁ h₂ hq).1
      simp only [hnext]
      refine ⟨_, _, rfl, rfl, fun record hrecord => ?_⟩
      obtain ⟨quid, hquid, hview⟩ := List.mem_filterMap.mp hrecord
      obtain ⟨hlen, leaf, hwrote, hmatch⟩ := hi.getMulti_mem h₁ h₂ hquid
      obtain ⟨e, he, rfl⟩ := Option.map_eq_some_iff.mp hview
      refine ⟨quid, leaf, (hrep.valid quid e he).quid_eq, ?_, hwrote, ?_, fun hterm hvalue => ?_⟩
      · rintro select hselect rfl
        rw [hrep.reply_select hselect, answer, upsKey_of_length hlen, hview, Option.getD_some]
      · rwa [upsKey_of_matchKeyword hwrote.matchKeyword]
      · rwa [upsKey_of_lt hterm, upsKey_of_lt hvalue] at hmatch

/-! ## A record whose author was changed -/

/-- The record has a leaf that the term matches: its lower-cased key is an index keyword, and the term
is this key or the value. -/
def Matches (term : Bytes) (record : StorageQuery) : Prop :=
  ∃ leaf ∈ leavesForest record.metas, matchKeyword (normalize leaf.1) = true ∧
    (term = normalize leaf.1 ∨ term = leaf.2)

/-- A request that names the author of the sample record. -/
def authorRequest (action : Action) (author : Bytes) : StorageQuery :=
  { sampleRequest action sampleQuid [1, 2, 3] with metas := [⟨ascii "author", some author, []⟩] }

/-- The worker after the author was changed from alice to bob. -/
def authorChanged : Worker :=
  ((Worker.start ⟨0, 0, 0, 0, 0⟩).next protobuf (authorRequest .insert (ascii "alice"))).next protobuf
    (authorRequest .update (ascii "bob"))

/-- The record bob's update left, as it is returned. -/
def authorRecord : StorageQuery :=
  { authorRequest .update (ascii "bob") with content := some [1, 2, 3], queryresult := .success }

/-- A search for alice returns the record. -/
theorem reply_search_alice :
    authorChanged.reply protobuf (sampleRequest .search [] (ascii "alice"))
      = some { sampleRequest .search [] (ascii "alice") with
          queryresult := .success, next := [authorRecord] } := by
  have hstart := Represents.start protobuf ⟨0, 0, 0, 0, 0⟩
  have hcrop₁ : cropQuid (authorRequest .insert (ascii "alice")).quid = some sampleQuid :=
    cropQuid_of_length (by decide)
  have hcrop₂ : cropQuid (authorRequest .update (ascii "bob")).quid = some sampleQuid :=
    cropQuid_of_length (by decide)
  have hrep₁ := hstart.next_accepted hcrop₁ (.inr ⟨rfl, rfl⟩)
  have hrep₂ : Represents protobuf _ _ authorChanged := hrep₁.next_accepted hcrop₂ (.inl rfl)
  have huki : authorChanged.uki = [(ascii "author", sampleQuid ++ ascii "alice"),
      (ascii "author", sampleQuid ++ ascii "bob")] := by
    rw [authorChanged, Worker.next, hrep₁.handle_accepted hcrop₂ (.inl rfl), Worker.next,
      hstart.handle_accepted hcrop₁ (.inr ⟨rfl, rfl⟩)]
    decide
  have hfti : authorChanged.fti = [(ascii "alice", sampleQuid ++ ascii "author"),
      (ascii "bob", sampleQuid ++ ascii "author")] := by
    rw [authorChanged, Worker.next, hrep₁.handle_accepted hcrop₂ (.inl rfl), Worker.next,
      hstart.handle_accepted hcrop₁ (.inr ⟨rfl, rfl⟩)]
    decide
  have h₁ : authorChanged.uki.getMulti (ascii "alice") [] = .ok [] := by
    rw [huki]
    rfl
  have h₂ : authorChanged.fti.getMulti (ascii "alice") [] = .ok [sampleQuid] := by
    rw [hfti]
    rfl
  have hlen : ∀ value ∈ [sampleQuid], value.length = 36 := by decide
  have hnext : authorChanged.searchNext protobuf [sampleQuid] = some [authorRecord] := by
    rw [hrep₂.searchNext_eq hlen, List.filterMap_cons, Store.view, Function.update_self]
    rfl
  have hterm : ((sampleRequest .search [] (ascii "alice")).setResult .success).getContent
      = ascii "alice" := rfl
  show (authorChanged.search protobuf _).2 = _
  simp only [Worker.search, hterm, h₁, h₂, hnext]
  rfl

/-- The record was found because of what was written first. -/
theorem search_returns_written_alice : ∃ quid leaf, cropQuid authorRecord.quid = some quid ∧
    Wrote protobuf (Worker.start ⟨0, 0, 0, 0, 0⟩)
      [authorRequest .insert (ascii "alice"), authorRequest .update (ascii "bob")] quid leaf ∧
    (upsKey (ascii "alice") = upsKey (normalize leaf.1) ∨ upsKey (ascii "alice") = upsKey leaf.2) := by
  have hrun : Run (Worker.next protobuf) (fun _ _ => True) (Worker.start ⟨0, 0, 0, 0, 0⟩)
      [authorRequest .insert (ascii "alice"), authorRequest .update (ascii "bob")] authorChanged :=
    (Run.nil.snoc trivial).snoc trivial
  obtain ⟨r, found, hreply, hnext, hall⟩ := search_returns_written hrun
    (show (sampleRequest .search [] (ascii "alice")).queryaction = .search from rfl)
  obtain rfl := Option.some.inj (reply_search_alice.symm.trans hreply)
  have hfound : authorRecord ∈ found := by
    rw [show found = [authorRecord] from hnext.symm]
    exact List.mem_singleton.mpr rfl
  obtain ⟨quid, leaf, hquid, -, hwrote, hmatch, -⟩ := hall authorRecord hfound
  exact ⟨quid, leaf, hquid, hwrote, hmatch⟩

/-- A search returns a record that does not match the term any more. -/
theorem search_returns_stale :
    ∃ r, authorChanged.reply protobuf (sampleRequest .search [] (ascii "alice")) = some r ∧
      ∃ record ∈ r.next, ¬ Matches (ascii "alice") record := by
  refine ⟨_, reply_search_alice, authorRecord, List.mem_singleton.mpr rfl, ?_⟩
  unfold Matches
  decide

end Mavicona.Cynder
