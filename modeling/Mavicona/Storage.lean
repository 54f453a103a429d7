import Mathlib.Data.List.Perm.Basic
import Mavicona.Cynder.Cluster
import Mavicona.Extract.Extractor
import Mavicona.Scrape.Commit

/-!
# From a scraped item to a stored record

Reference: `scrape/scrape.cpp` (`dispatch_commit`), `extract/extractor.cpp` (`parseData`),
`extract/ruler.cpp` (`runRuleActions`), `extract/action_store.cpp`, `cynder/cynder.cpp` (`initMaster`,
`initSlave`).

The extractor forks for every message of a commit, and the children send the records that their rules
store to the master of the storage in any order. Each item goes through four programs and three
formats on its way to a worker, and is found again under the quid that the scraper gave it.
-/

namespace Mavicona

open Bytes Trace Quid Scrape Extract Cynder

/-! ## The way of an item -/

section Way

variable (lib : ScrapeFormat) (extraction : Scrape.ScrapeData → Extraction)

/-- The requests of `Store::run` for a message that the extractor receives. -/
def storeRequests (message : Bytes) : List Bytes :=
  let data := lib.parse message
  let e := extraction data
  (e.actions.filter (· = .store)).map fun _ => lib.serialize (parseData e data)

/-- What `initMaster` reads of a message. -/
def masterData (message : Bytes) : Cynder.ScrapeData :=
  let data := lib.parse message
  ⟨data.getName, data.getId, data.getQuid, (data.content.bind (·.payload)).getD [], data.metas⟩

/-- What the master of the storage reads, of all children for the messages of a commit. -/
def stored (messages : List Scrape.ScrapeData) : List Cynder.ScrapeData :=
  messages.flatMap fun data => (storeRequests lib extraction (lib.serialize data)).map (masterData lib)

end Way

section Facts

variable {lib : ScrapeFormat} {extraction : Scrape.ScrapeData → Extraction}
  {messages : List Scrape.ScrapeData} {data : Scrape.ScrapeData} {x : Cynder.ScrapeData}

/-- A record that is stored has the quid, the name and the payload of its message. -/
structure Carries (x : Cynder.ScrapeData) (data : Scrape.ScrapeData) : Prop where
  quid : x.quid = data.getQuid
  item : (x.name, x.payload) = data.item

theorem mem_stored : x ∈ stored lib extraction messages ↔
    ∃ data ∈ messages, RuleAction.store ∈ (extraction data).actions ∧
      x = masterData lib (lib.serialize (parseData (extraction data) data)) := by
  simp only [stored, storeRequests, lib.parse_serialize, List.mem_flatMap, List.mem_map,
    List.mem_filter, decide_eq_true_eq]
  constructor
  · rintro ⟨data, hdata, -, ⟨action, ⟨haction, rfl⟩, rfl⟩, rfl⟩
    exact ⟨data, hdata, haction, rfl⟩
  · rintro ⟨data, hdata, hstore, rfl⟩
    exact ⟨data, hdata, _, ⟨_, ⟨hstore, rfl⟩, rfl⟩, rfl⟩

theorem carries_masterData (lib : ScrapeFormat) (e : Extraction) (data : Scrape.ScrapeData) :
    Carries (masterData lib (lib.serialize (parseData e data))) data := by
  rw [masterData, lib.parse_serialize]
  exact ⟨rfl, rfl⟩

/-- The records with the quid of a message are its own. -/
theorem eq_of_mem_stored (hnodup : (messages.map ScrapeData.getQuid).Nodup) (hdata : data ∈ messages)
    (hx : x ∈ stored lib extraction messages) (hquid : x.quid = data.getQuid) :
    RuleAction.store ∈ (extraction data).actions ∧
      x = masterData lib (lib.serialize (parseData (extraction data) data)) := by
  obtain ⟨data', hdata', hstore, rfl⟩ := mem_stored.mp hx
  rw [(carries_masterData _ _ _).quid] at hquid
  obtain rfl := List.inj_on_of_nodup_map hnodup hdata' hdata hquid
  exact ⟨hstore, rfl⟩

end Facts

/-! ## The quid of an item -/

theorem toString_false_eq (u : QuidT) : u.toString false = u.spelling.braced := by
  rw [QuidT.toString, if_neg Bool.false_ne_true, u.braced_spelling]

theorem toString_true_eq (u : QuidT) : u.toString true = u.spelling.bare := by
  have hlen : u.spelling.bare.length = 36 := u.spelling.length_bare
  have hcrop := cropQuid_braced hlen
  have hlong : (braced u.spelling.bare).length ≠ unpackedSize := by
    rw [length_braced, hlen]
    decide
  rw [cropQuid, if_pos hlong] at hcrop
  split_ifs at hcrop
  have htext : u.quidtostr = braced u.spelling.bare := u.braced_spelling.symm
  rw [QuidT.toString, if_pos rfl, htext]
  exact Option.some.inj hcrop

theorem isSpelling_toString (u : QuidT) : IsSpelling (u.toString false) :=
  ⟨u.spelling, .inr (toString_false_eq u)⟩

theorem cropQuid_toString (u : QuidT) : cropQuid (u.toString false) = some (u.toString true) := by
  rw [toString_false_eq, toString_true_eq]
  exact cropQuid_braced u.spelling.length_bare

/-! ## The theorem -/

/-- A SELECT of the quid of an item, for whatever the extractor makes of the messages. -/
theorem reply_of_commit {proto : Protobuf} {lib : ScrapeFormat}
    {extraction : Scrape.ScrapeData → Extraction} {quids : ℕ → QuidT × Answer} {s : Scraper}
    {heap : Bytes → Uninit} {hosts : List Bytes} {ds : List Delivery} {c : Cluster}
    (hhosts : hosts ≠ [])
    (hquids : ((s.commit quids).messages.map ScrapeData.getQuid).Nodup)
    (horder : (ds.map Delivery.data).Perm (stored lib extraction (s.commit quids).messages))
    (hrun : Run (Cluster.next proto) (fun c e => e.Fits c) (Cluster.start heap hosts)
      (ds.map .deliver) c)
    {data : Scrape.ScrapeData} (hdata : data ∈ (s.commit quids).messages) :
    ∃ quid owning, cropQuid data.getQuid = some quid ∧ owner (ringOf hosts) quid = some owning ∧
      ∀ query : StorageQuery, query.queryaction = .select → query.quid = quid →
        ((extraction data).actions.contains .store = true → ∃ record,
          (c.worker owning).reply proto query = some record ∧
          record.quid = data.getQuid ∧ (record.name, record.getContent) = data.item) ∧
        ∀ host, host ≠ owning ∨ (extraction data).actions.contains .store = false →
          (c.worker host).reply proto query = some (query.setResult .notfound) := by
  obtain ⟨u, hu⟩ := Scraper.quid_of_mem_commit hdata
  have hquid : data.getQuid = u.toString false := by rw [ScrapeData.getQuid, hu, Option.getD_some]
  have hspelling := isSpelling_toString u
  obtain ⟨owning, howning⟩ := hspelling.exists_owner (ring_ringOf_ne_nil hhosts)
  have howner : owner (ringOf hosts) (u.toString true) = some owning :=
    (hspelling.owner_eq (cropQuid_toString u) _).symm.trans howning
  refine ⟨u.toString true, owning, by rw [hquid, cropQuid_toString], howner,
    fun query hselect hq => ?_⟩
  have hlen : query.quid.length = 36 := by rw [hq, u.length_toString_true]
  have hreply := reply_of_deliveries hhosts hrun hselect hlen
  -- A delivery is found by its quid, and there is one message with this quid.
  have hspell : ∀ d ∈ ds, IsSpelling d.data.quid :=
    fun d hd => isSpelling_of_run hrun d (List.mem_map_of_mem hd)
  have hown : ∀ d ∈ ds, cropQuid d.data.quid = some query.quid →
      RuleAction.store ∈ (extraction data).actions ∧
        d.data = masterData lib (lib.serialize (parseData (extraction data) data)) := by
    intro d hd hcrop
    have hstored := horder.mem_iff.mp (List.mem_map_of_mem hd)
    refine eq_of_mem_stored hquids hdata hstored ?_
    obtain ⟨data', hdata', -, hx⟩ := mem_stored.mp hstored
    obtain ⟨u', hu'⟩ := Scraper.quid_of_mem_commit hdata'
    have hquid' : d.data.quid = u'.toString false := by
      rw [hx, (carries_masterData _ _ _).quid, ScrapeData.getQuid, hu', Option.getD_some]
    rw [hquid', cropQuid_toString, hq, Option.some_inj, toString_true_eq, toString_true_eq] at hcrop
    rw [hquid', hquid, toString_false_eq, toString_false_eq, Spelling.braced, Spelling.braced, hcrop]
  have hnone : (extraction data).actions.contains .store = false →
      (ds.find? fun d => cropQuid d.data.quid = some query.quid) = none := by
    intro hnot
    refine List.find?_eq_none.mpr fun d hd hcrop => ?_
    rw [List.contains_iff_mem.mpr (hown d hd (of_decide_eq_true hcrop)).1] at hnot
    exact Bool.noConfusion hnot
  refine ⟨fun hstore => ?_, fun host hother => ?_⟩
  · -- The children have sent the record.
    have hmem : masterData lib (lib.serialize (parseData (extraction data) data)) ∈
        stored lib extraction (s.commit quids).messages :=
      mem_stored.mpr ⟨data, hdata, List.contains_iff_mem.mp hstore, rfl⟩
    obtain ⟨d, hd, hx⟩ := List.mem_map.mp (horder.mem_iff.mpr hmem)
    have hcrop : cropQuid d.data.quid = some query.quid := by
      rw [hx, (carries_masterData _ _ _).quid, hquid, cropQuid_toString, hq]
    obtain ⟨d', hfind⟩ : ∃ d', (ds.find? fun d => cropQuid d.data.quid = some query.quid) = some d' :=
      Option.isSome_iff_exists.mp (List.find?_isSome.mpr ⟨d, hd, decide_eq_true hcrop⟩)
    obtain ⟨-, hdata'⟩ := hown d' (List.mem_of_find?_eq_some hfind)
      (of_decide_eq_true (List.find?_some hfind :))
    have hcarries := carries_masterData lib (extraction data) data
    rw [← hdata'] at hcarries
    refine ⟨buildQuery d'.data, ?_, hcarries.quid, hcarries.item⟩
    rw [hreply, hq, if_pos howner, ← hq, hfind]
    rfl
  · rw [hreply, hq]
    rcases hother with hne | hnot
    · rw [if_neg fun h => hne (Option.some.inj (h.symm.trans howner))]
      rfl
    · rw [← hq, hnone hnot]
      simp

/-- **What is scraped and stored can be read.** For every stack of a scraper, every extractor and every
order in which its children reach the master of the storage: after a commit whose quids differ, a SELECT
of the quid of an item returns its name and payload at the worker that the ring selects if the child of
the item comes to a `store`, and every other worker, or any if it does not, has no such record. -/
theorem stored_of_commit {proto : Protobuf} {lib : ScrapeFormat} {x : Extractor}
    {rules : List RuleNode} {counter : Scrape.ScrapeData → UInt32} {quids : ℕ → QuidT × Answer}
    {s : Scraper} {heap : Bytes → Uninit} {hosts : List Bytes} {ds : List Delivery} {c : Cluster}
    (hrules : x.ruleset = some rules) (hhosts : hosts ≠ [])
    (hquids : ((s.commit quids).messages.map ScrapeData.getQuid).Nodup)
    (horder : (ds.map Delivery.data).Perm
      (stored lib (x.extraction counter) (s.commit quids).messages))
    (hrun : Run (Cluster.next proto) (fun c e => e.Fits c) (Cluster.start heap hosts)
      (ds.map .deliver) c)
    {data : Scrape.ScrapeData} (hdata : data ∈ (s.commit quids).messages) :
    ∃ quid owning, cropQuid data.getQuid = some quid ∧ owner (ringOf hosts) quid = some owning ∧
      ∀ query : StorageQuery, query.queryaction = .select → query.quid = quid →
        (x.Stores rules (counter data) data → ∃ record,
          (c.worker owning).reply proto query = some record ∧
          record.quid = data.getQuid ∧ (record.name, record.getContent) = data.item) ∧
        ∀ host, host ≠ owning ∨ ¬ x.Stores rules (counter data) data →
          (c.worker host).reply proto query = some (query.setResult .notfound) := by
  obtain ⟨quid, owning, hcrop, howner, hreply⟩ := reply_of_commit hhosts hquids horder hrun hdata
  refine ⟨quid, owning, hcrop, howner, fun query hselect hq => ?_⟩
  obtain ⟨hfound, hmissing⟩ := hreply query hselect hq
  rw [List.contains_iff_mem, Extractor.store_mem_extraction_iff hrules] at hfound
  refine ⟨hfound, fun host hother => hmissing host (hother.imp_right fun hnot => ?_)⟩
  rw [← Bool.not_eq_true, List.contains_iff_mem, Extractor.store_mem_extraction_iff hrules]
  exact hnot

/-- Two texts, and one that is too large a number. -/
def threeItems : Scraper :=
  ⟨[(ascii "a", ascii "hello"), (ascii "b", ascii "world"), (ascii "c", ascii "9999999999")], 0⟩

/-- A generator whose quids differ in their first field. -/
def countedQuid (n : ℕ) : QuidT × Answer :=
  (⟨0x109 + UInt64.ofNat n, 0, 0xa080, 0x80, 0, .replicate 6 0⟩, .done)

/-- The hosts of two workers. -/
def twoHosts : List Bytes := oneHost ++ [secondHost]

/-- The requests of the children for the three items, the last one first. -/
def lateDeliveries : List Delivery :=
  ((stored scrapeFormat (defaultExtractor.extraction fun _ => 1001)
    (threeItems.commit countedQuid).messages).map fun x => ⟨x, List.replicate 20 0⟩).reverse

/-- The query for an item. -/
def selectItem (n : ℕ) : StorageQuery :=
  ⟨[], 0, (countedQuid n).1.toString true, none, .select, .success, [], []⟩

/-- Both texts are found, each at the worker of its quid, and the number is not stored. -/
theorem stored_of_commit_threeItems : ∃ c record record',
    Run (Cluster.next protobuf) (fun c e => e.Fits c) (Cluster.start (fun _ => ⟨0, 0, 0, 0, 0⟩) twoHosts)
      (lateDeliveries.map .deliver) c ∧
    (c.worker (ascii "localhost:5522")).reply protobuf (selectItem 0) = some record ∧
    (record.name, record.getContent) = (ascii "a", ascii "hello") ∧
    (c.worker secondHost).reply protobuf (selectItem 1) = some record' ∧
    (record'.name, record'.getContent) = (ascii "b", ascii "world") ∧
    ∀ host, (c.worker host).reply protobuf (selectItem 2) =
      some ((selectItem 2).setResult .notfound) := by
  set items := (threeItems.commit countedQuid).messages with hitems
  have hmessages : items = [commitData 0 (countedQuid 0).1 (ascii "a", ascii "hello"),
      commitData 1 (countedQuid 1).1 (ascii "b", ascii "world"),
      commitData 2 (countedQuid 2).1 (ascii "c", ascii "9999999999")] := rfl
  have hrun : Run (Cluster.next protobuf) (fun c e => e.Fits c)
      (Cluster.start (fun _ => ⟨0, 0, 0, 0, 0⟩) twoHosts) (lateDeliveries.map .deliver)
      ((lateDeliveries.map Event.deliver).foldl (Cluster.next protobuf)
        (Cluster.start (fun _ => ⟨0, 0, 0, 0, 0⟩) twoHosts)) := by
    have hrun : Run (Cluster.next protobuf) (fun _ e => ∀ c, Event.Fits c e)
        (Cluster.start (fun _ => ⟨0, 0, 0, 0, 0⟩) twoHosts) (lateDeliveries.map .deliver) _ :=
      run_foldl ?_
    · exact hrun.mono fun c e he => he c
    intro e he c
    obtain ⟨d, hd, rfl⟩ := List.mem_map.mp he
    obtain ⟨x, hx, rfl⟩ := List.mem_map.mp (List.mem_reverse.mp hd)
    obtain ⟨data, hdata, -, rfl⟩ := mem_stored.mp hx
    have hcarries := carries_masterData scrapeFormat
      (defaultExtractor.extraction (fun _ => 1001) data) data
    obtain ⟨u, hu⟩ := Scraper.quid_of_mem_commit hdata
    refine ⟨?_, le_rfl, fun hlarge => absurd hlarge ?_⟩
    · rw [hcarries.quid, ScrapeData.getQuid, hu]
      exact isSpelling_toString u
    · rw [show (masterData scrapeFormat (scrapeFormat.serialize
        (parseData (defaultExtractor.extraction (fun _ => 1001) data) data))).payload = data.item.2 from
          congrArg Prod.snd hcarries.item]
      have hsmall : ∀ data ∈ items, isLarge data.item.2 = false := by
        rw [hmessages]
        decide +kernel
      rw [hsmall data hdata]
      exact Bool.false_ne_true
  have hfound (data : Scrape.ScrapeData) (hdata : data ∈ items) :=
    stored_of_commit (rfl : defaultExtractor.ruleset = some defaultRules) (List.cons_ne_nil _ _)
      (by rw [← hitems, hmessages]; decide +kernel)
      (by
        rw [lateDeliveries, List.map_reverse, List.map_map]
        exact (List.reverse_perm _).trans (.of_eq (List.map_id _))) hrun hdata
  have hcrop (n : ℕ) : cropQuid ((countedQuid n).1.toString false) =
      some ((countedQuid n).1.toString true) := cropQuid_toString _
  obtain ⟨quid, owning, hquid, howner, hfirst⟩ := hfound _ (hmessages ▸ List.mem_cons_self)
  obtain rfl := Option.some.inj ((hcrop 0).symm.trans hquid)
  obtain rfl := Option.some.inj
    ((by decide +kernel : _ = some (ascii "localhost:5522")).symm.trans howner)
  obtain ⟨quid', owning', hquid', howner', hsecond⟩ :=
    hfound _ (hmessages ▸ List.mem_cons_of_mem _ List.mem_cons_self)
  obtain rfl := Option.some.inj ((hcrop 1).symm.trans hquid')
  obtain rfl := Option.some.inj ((by decide +kernel : _ = some secondHost).symm.trans howner')
  obtain ⟨quid'', owning'', hquid'', -, hthird⟩ :=
    hfound _ (hmessages ▸ List.mem_cons_of_mem _ (List.mem_cons_of_mem _ List.mem_cons_self))
  obtain rfl := Option.some.inj ((hcrop 2).symm.trans hquid'')
  obtain ⟨record, hreply, -, hitem⟩ := (hfirst (selectItem 0) rfl rfl).1
    (stores_defaultRules_iff.mpr (not_throws_of_mem (b := 104) (by decide) (by decide)))
  obtain ⟨record', hreply', -, hitem'⟩ := (hsecond (selectItem 1) rfl rfl).1
    (stores_defaultRules_iff.mpr (not_throws_of_mem (b := 119) (by decide) (by decide)))
  refine ⟨_, record, record', hrun, hreply, hitem, hreply', hitem', fun host => ?_⟩
  refine (hthird (selectItem 2) rfl rfl).2 host (.inr ?_)
  rw [stores_defaultRules_iff, not_not]
  exact ⟨by decide, .inr (by decide +kernel)⟩

end Mavicona
