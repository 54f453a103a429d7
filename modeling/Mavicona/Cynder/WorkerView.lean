import Mavicona.Cynder.WorkerStore

/-!
# What a client sees of a worker

`Store.view` is the map from quids to the records a SELECT returns, content included. As long as no
page offset passes `2 ^ 32` (`LfbFits`) the page gives back what was stored last under a name
(`LargeFiles`), and a write changes the view at its own quid only.
-/

namespace Mavicona.Cynder

open Bytes Layout

/-! ## A page of large files -/

/-- The page holds the history `h`, all of whose items are larger than `LFB_MINIMUM_SIZE`. -/
structure LargeFiles (h : History) (page : Filepage) : Prop where
  stored : Stored h page
  data : Data h ((h.length - 1) / 16) page
  large : ∀ op ∈ h, lfbMinimumSize < op.2.length

namespace LargeFiles

variable {h : History} {page : Filepage} {quid content : Bytes}

theorem createDefault (path : Path) : LargeFiles [] (Filepage.createDefault path) where
  stored := Stored.createDefault path
  data := Data.createDefault path
  large := fun _ hop => absurd hop List.not_mem_nil

/-- Items this large use up the offsets long before the 16-bit element count wraps. -/
theorem length_lt (hl : LargeFiles h page) : h.length + 1 < 2 ^ 16 := by
  have hsum : h.length * lfbMinimumSize ≤ dataBefore h h.length := by
    have hbound := List.card_nsmul_le_sum (h.map fun op => op.2.length) lfbMinimumSize
      (fun n hn => by
        obtain ⟨op, hop, rfl⟩ := List.mem_map.mp hn
        exact (hl.large op hop).le)
    simpa [dataBefore, lfbMinimumSize] using hbound
  have hfree := hl.stored.free_lt
  simp only [freeOffset, lfbMinimumSize] at hsum hfree
  omega

/-- A large content is added to the history. -/
theorem storeItem (hl : LargeFiles h page) (hquid : quid.length = 36)
    (hlarge : isLarge content = true) (hoffset : page.OffsetFits content) (halloc : page.AllocFits) :
    LargeFiles (h ++ [(quid, content)]) (page.storeItem quid content) where
  stored := hl.stored.storeItem (by omega) hl.length_lt hoffset
  data := hl.data.storeItem hl.stored (by omega) hoffset halloc
  large := by
    intro op hop
    rcases List.mem_append.mp hop with hop | hop
    · exact hl.large op hop
    · obtain rfl := List.mem_singleton.mp hop
      simp only [isLarge, Bool.and_eq_true, decide_eq_true_eq] at hlarge
      exact hlarge.1

theorem retrieveItem (hl : LargeFiles h page) (name : Bytes) :
    page.retrieveItem name = lastStored h name :=
  hl.data.retrieveItem hl.stored name

end LargeFiles

/-- Routing `content` computes no offset past `2 ^ 32`. -/
def Filepage.Fits (page : Filepage) (content : Bytes) : Prop :=
  isLarge content = true → page.OffsetFits content ∧ page.AllocFits

namespace LargeFiles

variable {h : History} {page : Filepage} {quid content : Bytes}

/-- Routing a content keeps the page in order. -/
theorem routed (hl : LargeFiles h page) (hquid : quid.length = 36) (hfit : page.Fits content) :
    ∃ h', LargeFiles h' (page.routed quid content) := by
  unfold Filepage.routed
  split_ifs with hlarge
  · exact ⟨_, hl.storeItem hquid hlarge (hfit hlarge).1 (hfit hlarge).2⟩
  · exact ⟨h, hl⟩

/-- Large content is read back; every other name keeps its data. -/
theorem retrieveItem_routed (hl : LargeFiles h page) (hquid : quid.length = 36)
    (hfit : page.Fits content) (name : Bytes) :
    (page.routed quid content).retrieveItem name
      = if isLarge content = true ∧ quid = name then some content else page.retrieveItem name := by
  unfold Filepage.routed
  by_cases hlarge : isLarge content = true
  · have hl' := hl.storeItem hquid hlarge (hfit hlarge).1 (hfit hlarge).2
    rw [if_pos hlarge, hl'.retrieveItem, hl.retrieveItem, lastStored_append]
    simp only [hlarge, true_and]
  · rw [if_neg hlarge, if_neg (fun h => hlarge h.1)]

end LargeFiles

/-! ## The view -/

/-- What a SELECT of a stored request returns. -/
def StorageQuery.stored (r : StorageQuery) : StorageQuery :=
  { r with content := some r.getContent, queryresult := .success }

/-- The records of a store with their contents. -/
def Store.view (m : Store) (page : Filepage) (quid : Bytes) : Option StorageQuery :=
  (m quid).map fun e => e.record.setContent (e.place.read page quid)

namespace Store

variable {m : Store} {h : History} {page : Filepage} {quid : Bytes} {request : StorageQuery}

/-- Removing an entry removes it from the view. -/
theorem view_erase (m : Store) (page : Filepage) (quid : Bytes) :
    view (Function.update m quid none) page = Function.update (m.view page) quid none := by
  funext q
  by_cases hq : q = quid <;> simp [view, hq, Function.update_of_ne]

/-- Routing a content does not change what other quids see. -/
theorem view_routed_of_ne (hl : LargeFiles h page) (hquid : quid.length = 36) {content : Bytes}
    (hfit : page.Fits content) {q : Bytes} (hq : q ≠ quid) :
    m.view (page.routed quid content) q = m.view page q := by
  have hretrieve := hl.retrieveItem_routed hquid hfit q
  rw [if_neg (fun h => hq h.2.symm)] at hretrieve
  simp only [view]
  congr 1
  funext e
  cases e.place with
  | inline c => rfl
  | large => simp only [Place.read, hretrieve]

/-- A content is read back from where it was routed to. -/
theorem read_routed_self (hl : LargeFiles h page) (hquid : quid.length = 36) {content : Bytes}
    (hfit : page.Fits content) :
    (Place.of content).read (page.routed quid content) quid = content := by
  by_cases hlarge : isLarge content = true
  · have hretrieve := hl.retrieveItem_routed hquid hfit quid
    rw [if_pos ⟨hlarge, rfl⟩] at hretrieve
    simp [Place.of, hlarge, Place.read, hretrieve]
  · simp [Place.of, hlarge, Place.read]

/-- A write that is not refused changes the view at its quid, to the request itself. -/
theorem view_write (hl : LargeFiles h page) (hquid : quid.length = 36)
    (hfit : page.Fits request.getContent) :
    view (Function.update m quid (some (Entry.of request))) (page.routed quid request.getContent)
      = Function.update (m.view page) quid (some request.stored) := by
  funext q
  by_cases hq : q = quid
  · subst hq
    have hread := read_routed_self hl hquid hfit
    simp only [view, Function.update_self, Option.map_some, Entry.of, hread]
    rfl
  · rw [Function.update_of_ne hq, ← view_routed_of_ne hl hquid hfit hq, view,
      Function.update_of_ne hq]
    rfl

end Store

/-- What a SELECT answers, given the view. -/
def answer (view : Bytes → Option StorageQuery) (query : StorageQuery) : StorageQuery :=
  (view (upsKey query.quid)).getD (query.setResult .notfound)

/-- A SELECT answers from the view. -/
theorem Represents.reply_select {proto : Protobuf} {m : Store} {page : Filepage} {w : Worker}
    (h : Represents proto m page w) {query : StorageQuery} (hselect : query.queryaction = .select) :
    w.reply proto query = some (answer (m.view page) query) := by
  cases hm : m (upsKey query.quid) with
  | none => simp only [Worker.reply, h.handle_absent (.inl hselect) hm, answer, Store.view, hm]; rfl
  | some e => simp only [Worker.reply, h.handle_select hselect hm, answer, Store.view, hm]; rfl

/-- A write that goes to the large-file base computes no offset past `2 ^ 32` in the page it is
stored in. -/
def Worker.LfbFits (w : Worker) (request : StorageQuery) : Prop :=
  request.queryaction = .insert ∨ request.queryaction = .update → cropQuid request.quid ≠ none →
    ∀ v, w.lfb.filepages.find? (fun v => !v.2.pageFull) = some v → v.2.Fits request.getContent

theorem Represents.fits_of_lfbFits {proto : Protobuf} {m : Store} {page : Filepage} {w : Worker}
    (h : Represents proto m page w) {request : StorageQuery} {quid : Bytes}
    (hfit : w.LfbFits request)
    (haction : request.queryaction = .insert ∨ request.queryaction = .update)
    (hquid : cropQuid request.quid = some quid) : page.Fits request.getContent :=
  hfit haction (by simp [hquid]) (0, page) h.lfb.find?

theorem Represents.lfbFits_of_fits {proto : Protobuf} {m : Store} {page : Filepage} {w : Worker}
    (h : Represents proto m page w) {request : StorageQuery}
    (hfit : page.Fits request.getContent) : w.LfbFits request := by
  intro _ _ v hv
  obtain rfl : (0, page) = v := Option.some.inj (h.lfb.find?.symm.trans hv)
  exact hfit

/-- Every request keeps the page in order. -/
theorem Represents.largeFiles_next {proto : Protobuf} {m : Store} {page : Filepage} {w : Worker}
    {hist : History} (h : Represents proto m page w) (hl : LargeFiles hist page)
    {request : StorageQuery} (hfit : w.LfbFits request) :
    ∃ hist', LargeFiles hist' (page.next request) := by
  cases hquid : cropQuid request.quid with
  | none =>
    refine ⟨hist, ?_⟩
    cases haction : request.queryaction <;> simpa only [Filepage.next, haction, hquid] using hl
  | some quid =>
    have hlen : quid.length = 36 := length_of_cropQuid hquid
    cases haction : request.queryaction with
    | insert =>
      simp only [Filepage.next, haction, hquid]
      exact hl.routed hlen (h.fits_of_lfbFits hfit (.inl haction) hquid)
    | update =>
      simp only [Filepage.next, haction, hquid]
      exact hl.routed hlen (h.fits_of_lfbFits hfit (.inr haction) hquid)
    | select => exact ⟨hist, by simpa only [Filepage.next, haction] using hl⟩
    | delete => exact ⟨hist, by simpa only [Filepage.next, haction] using hl⟩
    | search => exact ⟨hist, by simpa only [Filepage.next, haction] using hl⟩

end Mavicona.Cynder
