import Mavicona.Cynder.WorkerRefinement

/-!
# Refused writes

`DataIndex::put` routes a content before it asks the data index for the key, so an INSERT that is
answered with DUPLICATE has already stored its content in the page of large files, under the name of
the record it was refused for. What a client sees depends on where the stored content is: one in the
data index is not touched, one in the page is replaced.
-/

namespace Mavicona.Cynder

open Bytes Trace

/-- The request is refused as a duplicate, and every SELECT and SEARCH is answered as before. -/
def RefusedUnchanged (proto : Protobuf) (w : Worker) (request : StorageQuery) : Prop :=
  (∃ r, w.reply proto request = some r ∧ r.queryresult = .duplicate) ∧
  ∀ query : StorageQuery, query.queryaction = .select ∨ query.queryaction = .search →
    (w.next proto request).reply proto query = w.reply proto query

/-! ## Reading from two workers -/

section Read

variable {proto : Protobuf} {w w' : Worker}

/-- Equal records and contents give equal results of a search. -/
theorem searchNext_congr (hari : w'.ari = w.ari) (hdata : ∀ quid, w'.dataGet quid = w.dataGet quid)
    (keyList : List Bytes) : w'.searchNext proto keyList = w.searchNext proto keyList := by
  induction keyList with
  | nil => rfl
  | cons value keyList ih => simp only [Worker.searchNext, hari, hdata, ih]

/-- A worker whose data index gives the same contents answers every reading request the same. -/
theorem reply_congr (hari : w'.ari = w.ari) (huki : w'.uki = w.uki) (hfti : w'.fti = w.fti)
    (hdata : ∀ quid, w'.dataGet quid = w.dataGet quid) {query : StorageQuery}
    (haction : query.queryaction = .select ∨ query.queryaction = .search) :
    w'.reply proto query = w.reply proto query := by
  have hquery : (query.setResult .success).queryaction = query.queryaction := rfl
  simp only [Worker.reply, Worker.handle, hquery]
  rcases haction with haction | haction
  · simp only [haction, Worker.select, hari, hdata]
    cases w.ari.get (query.setResult .success).quid with
    | error e => rfl
    | ok serialized =>
      dsimp only
      cases w.dataGet (proto.parseFromArray serialized).quid with
      | error fault => cases fault <;> rfl
      | ok content => rfl
  · simp only [haction, Worker.search, huki, hfti, searchNext_congr hari hdata]
    cases w.uki.getMulti (query.setResult .success).getContent [] with
    | error e => rfl
    | ok keyList =>
      dsimp only
      cases w.fti.getMulti (query.setResult .success).getContent keyList with
      | error e => rfl
      | ok keyList =>
        dsimp only
        cases w.searchNext proto keyList <;> rfl

end Read

/-! ## What a refused write changes -/

namespace Represents

variable {proto : Protobuf} {m : Store} {page page' : Filepage} {w w' : Worker}
  {request : StorageQuery} {quid : Bytes}

/-- The data index gives the same contents when every stored content is read back the same. -/
theorem dataGet_congr (h : Represents proto m page w) (h' : Represents proto m page' w')
    (hread : ∀ q e, m q = some e → e.place.read page' q = e.place.read page q) (text : Bytes) :
    w'.dataGet text = w.dataGet text := by
  cases hquid : cropQuid text with
  | none => simp only [Worker.dataGet, hquid]
  | some q =>
    cases hm : m q with
    | none =>
      have hkey : upsKey q = q := upsKey_of_length (length_of_cropQuid hquid)
      have hnone : w.adi (upsKey q) = none := by rw [hkey, h.adi_eq_none_iff, hm]
      have hnone' : w'.adi (upsKey q) = none := by rw [hkey, h'.adi_eq_none_iff, hm]
      simp only [Worker.dataGet, hquid, Db.get_none hnone, Db.get_none hnone']
    | some e => rw [h.dataGet_eq hquid hm, h'.dataGet_eq hquid hm, hread q e hm]

/-- A refused write is invisible exactly if every stored content is still read back. -/
theorem refusedUnchanged_iff_read (h : Represents proto m page w)
    (hinsert : request.queryaction = .insert) (hquid : cropQuid request.quid = some quid)
    (hstored : m quid ≠ none) :
    RefusedUnchanged proto w request ↔
      ∀ q e, m q = some e →
        e.place.read (page.routed quid request.getContent) q = e.place.read page q := by
  have hhandle := h.handle_refused hquid hinsert hstored
  have hnext : w.next proto request = { w with lfb := w.lfb.routed page quid request.getContent } := by
    rw [Worker.next, hhandle]
  have hrep := h.routed_refused (length_of_cropQuid hquid) request.getContent
  constructor
  · rintro ⟨-, hsame⟩ q e he
    -- The SELECT of the quid tells the two contents apart.
    have hselect := hsame ⟨[], 0, q, none, .select, .success, [], []⟩ (.inl rfl)
    have hkey : upsKey q = q := upsKey_of_length (h.length_of_some he)
    rw [hnext, hrep.reply_select rfl, h.reply_select rfl, answer, answer, hkey, Store.view,
      Store.view, he] at hselect
    simpa [StorageQuery.setContent] using hselect
  · intro hread
    refine ⟨⟨_, by rw [Worker.reply, hhandle], rfl⟩, fun query haction => ?_⟩
    have hdata := h.dataGet_congr hrep hread
    rw [hnext]
    refine reply_congr ?_ ?_ ?_ hdata haction <;> rfl

end Represents

/-- The value of a content in the data index is never that of a content in a page. -/
theorem inlineValue_ne_lfbValue (content : Bytes) (page : ℕ) :
    inlineValue content ≠ lfbValue page := by
  intro heq
  have hlen := congrArg List.length heq
  simp only [inlineValue, lfbValue, List.length_append, Worker.length_encode_storageType] at hlen
  obtain rfl : content = [] := List.eq_nil_of_length_eq_zero (by omega)
  -- The flags are the tenth byte.
  have hflags := congrArg (fun bs => bs.getD 9 0) heq
  simp [inlineValue, lfbValue, StorageType.encode, le, dataFlagAdi, dataFlagLfb] at hflags

/-- With offsets that fit, a refused write is visible exactly if it replaces a content in the page by
another one. -/
theorem Represents.refusedUnchanged_iff {proto : Protobuf} {m : Store} {page : Filepage} {w : Worker}
    {h : History} {request : StorageQuery} {quid : Bytes} (hrep : Represents proto m page w)
    (hl : LargeFiles h page) (hfit : page.Fits request.getContent)
    (hinsert : request.queryaction = .insert) (hquid : cropQuid request.quid = some quid)
    (hstored : m quid ≠ none) :
    RefusedUnchanged proto w request ↔
      (isLarge request.getContent = true → (∃ n, w.adi quid = some (lfbValue n)) →
        w.dataGet quid = .ok request.getContent) := by
  have hlen : quid.length = 36 := length_of_cropQuid hquid
  have hretrieve := hl.retrieveItem_routed hlen hfit
  obtain ⟨e, he⟩ := Option.ne_none_iff_exists'.mp hstored
  have hadi : w.adi quid = some e.place.value := by rw [hrep.adi, he]; rfl
  rw [hrep.refusedUnchanged_iff_read hinsert hquid hstored,
    hrep.dataGet_eq (cropQuid_of_length hlen) he]
  constructor
  · rintro hread hlarge ⟨n, hn⟩
    cases hplace : e.place with
    | inline c =>
      rw [hadi, hplace] at hn
      exact absurd (Option.some.inj hn) (inlineValue_ne_lfbValue c n)
    | large =>
      have hself := hread quid e he
      rw [hplace, Place.read, hretrieve, if_pos ⟨hlarge, rfl⟩, Option.getD_some] at hself
      rw [← hself]
  · intro hsame q e' he'
    cases hplace : e'.place with
    | inline c => rfl
    | large =>
      by_cases hq : isLarge request.getContent = true ∧ quid = q
      · obtain ⟨hlarge, rfl⟩ := hq
        obtain rfl : e = e' := Option.some.inj (he.symm.trans he')
        have hcontent := hsame hlarge ⟨0, by rw [hadi, hplace]; rfl⟩
        rw [Place.read, hretrieve, if_pos ⟨hlarge, rfl⟩, Option.getD_some, ← hplace]
        exact (Except.ok.inj hcontent).symm
      · rw [Place.read, hretrieve, if_neg hq, Place.read]

/-- Every state reached without offsets past `2 ^ 32` has its page in order. -/
theorem LargeFiles.of_run {proto : Protobuf} {heap : Uninit} {reqs : List StorageQuery} {w : Worker}
    (hr : Run (Worker.next proto) Worker.LfbFits (Worker.start heap) reqs w) :
    ∃ m page h, Represents proto m page w ∧ LargeFiles h page := by
  refine hr.invariant (P := fun _ w => ∃ m page h, Represents proto m page w ∧ LargeFiles h page)
    ⟨_, _, [], Represents.start proto heap, LargeFiles.createDefault _⟩ ?_
  rintro reqs w request ⟨m, page, h, hrep, hl⟩ hfit
  obtain ⟨h', hl'⟩ := hrep.largeFiles_next hl hfit
  exact ⟨_, _, h', hrep.next request, hl'⟩

/-- **When a refused write changes nothing.** In every reachable state and for every INSERT of a stored
quid, as long as no page offset passes `2 ^ 32`: the INSERT is answered with DUPLICATE and leaves every
answer to SELECT and SEARCH as it was if and only if its content is not large, or the stored content is
not in the large-file base, or the two contents are equal. A content that is not large needs no
condition on the offsets. -/
theorem refused_insert_unchanged_iff {proto : Protobuf} {heap : Uninit} {reqs : List StorageQuery}
    {w : Worker} {request : StorageQuery} {quid : Bytes}
    (hr : Run (Worker.next proto) (fun _ _ => True) (Worker.start heap) reqs w)
    (hinsert : request.queryaction = .insert) (hquid : cropQuid request.quid = some quid)
    (hstored : w.ari quid ≠ none)
    (hfits : isLarge request.getContent = true →
      Run (Worker.next proto) Worker.LfbFits (Worker.start heap) reqs w ∧ w.LfbFits request) :
    RefusedUnchanged proto w request ↔
      (isLarge request.getContent = false ∨ (∀ page, w.adi quid ≠ some (lfbValue page)) ∨
        w.dataGet quid = .ok request.getContent) := by
  by_cases hlarge : isLarge request.getContent = true
  · obtain ⟨hrun, hfit⟩ := hfits hlarge
    obtain ⟨m, page, h, hrep, hl⟩ := LargeFiles.of_run hrun
    rw [hrep.refusedUnchanged_iff hl (hrep.fits_of_lfbFits hfit (.inl hinsert) hquid) hinsert hquid
      (mt hrep.ari_eq_none_iff.mpr hstored)]
    simp only [hlarge, forall_const, Bool.true_eq_false, false_or]
    rw [← not_exists, or_iff_not_imp_left, not_not]
  · have hrep := Represents.of_run hr
    rw [hrep.refusedUnchanged_iff_read hinsert hquid (mt hrep.ari_eq_none_iff.mpr hstored)]
    simp [Filepage.routed, hlarge]

/-! ## A record that is inserted twice -/

/-- A large content refused for a small record changes nothing. -/
theorem refused_insert_unchanged_small :
    RefusedUnchanged protobuf (insertedOnce [1, 2, 3])
      (sampleRequest .insert sampleQuid (largeContent 7)) := by
  have hstart := Represents.start protobuf ⟨0, 0, 0, 0, 0⟩
  have hrep := represents_insertedOnce [1, 2, 3]
  have hpage : (Filepage.createDefault (dbname 0)).routed sampleQuid [1, 2, 3]
      = Filepage.createDefault (dbname 0) := rfl
  have hfit₁ : (Worker.start ⟨0, 0, 0, 0, 0⟩).LfbFits (sampleRequest .insert sampleQuid [1, 2, 3]) :=
    hstart.lfbFits_of_fits (fits_of_small (by decide) _)
  have hfit₂ : (insertedOnce [1, 2, 3]).LfbFits (sampleRequest .insert sampleQuid (largeContent 7)) :=
    hrep.lfbFits_of_fits (hpage ▸ fits_createDefault 7)
  refine (refused_insert_unchanged_iff (Run.single trivial) rfl cropQuid_sampleQuid
    (insertedOnce_stored [1, 2, 3]) fun _ => ⟨Run.single hfit₁, hfit₂⟩).mpr (.inr (.inl ?_))
  intro page
  have hadi : (insertedOnce [1, 2, 3]).adi sampleQuid = some (inlineValue [1, 2, 3]) := by
    rw [hrep.adi, Function.update_self]
    rfl
  exact fun heq => inlineValue_ne_lfbValue [1, 2, 3] page (Option.some.inj (hadi.symm.trans heq))

/-- A large content refused for another large one is visible. -/
theorem not_refusedUnchanged_of_large {a b : Bytes} (ha : isLarge a = true) (hb : isLarge b = true)
    (hab : a ≠ b) (hroom : 800 + a.length + b.length < 2 ^ 32) :
    ¬ RefusedUnchanged protobuf (insertedOnce a) (sampleRequest .insert sampleQuid b) := by
  have hlen : sampleQuid.length = 36 := by decide
  have hfresh : LargeFiles [] (Filepage.createDefault (dbname 0)) := LargeFiles.createDefault _
  have hl := hfresh.storeItem hlen ha (show 800 + a.length < 2 ^ 32 by omega)
    fun hfull => absurd hfull Bool.false_ne_true
  have hrep := represents_insertedOnce a
  rw [Filepage.routed, if_pos ha] at hrep
  -- There is room for the second content behind the first one.
  have hfit : ((Filepage.createDefault (dbname 0)).storeItem sampleQuid a).Fits
      (sampleRequest .insert sampleQuid b).getContent := by
    intro _
    refine ⟨?_, fun hfull => ?_⟩
    · rw [Filepage.OffsetFits, hl.stored.dataStart_eq]
      simpa [Layout.freeOffset, Layout.dataBefore, sampleRequest, StorageQuery.getContent] using hroom
    · have hcount := hl.stored.counted.lastIndexFull_iff.mp hfull
      simp at hcount
  have hplace : (Entry.of (sampleRequest .insert sampleQuid a)).place = .large := by
    simp [Entry.of, Place.of, sampleRequest, StorageQuery.getContent, ha]
  intro hsame
  have hcontent := (hrep.refusedUnchanged_iff hl hfit rfl cropQuid_sampleQuid (by simp)).mp hsame hb
    ⟨0, by rw [hrep.adi, Function.update_self, Option.map_some, hplace]; rfl⟩
  rw [hrep.dataGet_eq cropQuid_sampleQuid (Function.update_self ..), hplace, Place.read,
    hl.retrieveItem, Layout.lastStored_append, if_pos rfl, Option.getD_some] at hcontent
  exact hab (Except.ok.inj hcontent)

/-- A large content refused for a large record replaces its content. -/
theorem refused_insert_replaces_content :
    Run (Worker.next protobuf) (fun _ _ => True) (Worker.start ⟨0, 0, 0, 0, 0⟩)
      [sampleRequest .insert sampleQuid (largeContent 1)] (insertedOnce (largeContent 1)) ∧
    (insertedOnce (largeContent 1)).ari sampleQuid ≠ none ∧
    ¬ RefusedUnchanged protobuf (insertedOnce (largeContent 1))
      (sampleRequest .insert sampleQuid (largeContent 2)) := by
  refine ⟨Run.single trivial, insertedOnce_stored _, not_refusedUnchanged_of_large
    (isLarge_largeContent 1) (isLarge_largeContent 2) (fun heq => ?_) ?_⟩
  · have hhead := congrArg List.head? heq
    simp at hhead
  · rw [length_largeContent, length_largeContent, lfbMinimumSize]
    omega

end Mavicona.Cynder
