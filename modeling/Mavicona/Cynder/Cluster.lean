import Mavicona.Cynder.MasterLoop
import Mavicona.Cynder.QuidSpelling
import Mavicona.Quid.Grammar

/-!
# The master and its workers

Reference: `cynder/cynder.cpp` (`performQueryRequest`, `initMaster`, `initSlave`, `main`).

`Cluster` puts the loop of the master and the loops of the workers together: the bytes that the master
sends are parsed by the worker at the selected host, and the bytes of its reply by the master.
`Directory` says what this is for: which worker keeps which record. `Refines` connects the two, and its
run lemma says what the whole service is to its clients, with any workers listed at its start and any
others at its restarts.
-/

namespace Mavicona.Cynder

open Bytes Quid Trace

/-! ## The service -/

/-- A request of a client, and the memory of the `Quid` that is made of its string. -/
structure Delivery where
  data : ScrapeData
  mem : Bytes

/-- What happens to the service. -/
inductive Event
  | deliver (d : Delivery)
  /-- The master is started again, with these workers in its configuration. -/
  | restart (hosts : List Bytes)

/-- The master, its ring, and the workers by the names of their hosts. -/
structure Cluster where
  ring : HashRing Bytes
  master : Master
  worker : Bytes → Worker
  /-- The master waits for a worker that died. -/
  waits : Bool

/-- The ring that `main` builds from the configuration. -/
def ringOf (hosts : List Bytes) : HashRing Bytes := HashRing.nodeRing.addNodes hosts

namespace Cluster

/-- The service when it is first started: no worker has any data. -/
def start (heap : Bytes → Uninit) (hosts : List Bytes) : Cluster where
  ring := ringOf hosts
  master := ⟨[], true⟩
  worker host := Worker.start (heap host)
  waits := false

variable (proto : Protobuf)

/-- The query that the worker reads from the bytes the master sends it. -/
def received (d : Delivery) : StorageQuery :=
  proto.parseFromArray (proto.serializeToString (buildQuery d.data))

/-- The round of the master for a request, with the bytes it receives from the worker. -/
def round (d : Delivery) (bs : Bytes) : Round := ⟨d.data, fun _ _ => bs, d.mem⟩

/-- A round of the master, with the round of the worker in it. -/
def deliver (c : Cluster) (d : Delivery) : Cluster :=
  match (round d []).selected c.ring with
  | none => { c with master := c.master.next proto.messages c.ring (round d []) }
  | some host =>
    let worker := Function.update c.worker host ((c.worker host).next proto (received proto d))
    match (c.worker host).reply proto (received proto d) with
    | none => { c with worker := worker, waits := true }
    | some reply =>
      { c with
        worker := worker
        master := c.master.next proto.messages c.ring (round d (proto.serializeToString reply)) }

def next (c : Cluster) : Event → Cluster
  | .deliver d => if c.master.running && !c.waits then c.deliver proto d else c
  | .restart hosts => { c with ring := ringOf hosts, master := ⟨c.master.sent, true⟩, waits := false }

end Cluster

/-! ## What it is for -/

/-- The worker that a ring selects for a quid. -/
def owner (ring : HashRing Bytes) (quid : Bytes) : Option Bytes :=
  (QuidT.ofString? (List.replicate 20 0) quid).bind ring.getNode

/-- A request that was sent to the worker at a host. -/
structure Placement where
  host : Bytes
  quid : Bytes
  data : ScrapeData

/-- What is kept of a quid at a host: the first request that was sent there. -/
def kept (placed : List Placement) (host quid : Bytes) : Option StorageQuery :=
  (placed.find? fun p => p.host = host ∧ p.quid = quid).map fun p => buildQuery p.data

/-- The replies: a request is done if nothing was kept of its quid at its host before. -/
def replies (placed : List Placement) : List Bytes :=
  placed.mapIdx fun i p =>
    if (kept (placed.take i) p.host p.quid).isNone then doneReply else failReply

/-- The ring, and the requests so far. -/
structure Directory where
  ring : HashRing Bytes
  placed : List Placement

namespace Directory

/-- The directory when the service is first started. -/
def start (hosts : List Bytes) : Directory := ⟨ringOf hosts, []⟩

/-- The directory after an event. -/
def next (dir : Directory) : Event → Directory
  | .deliver d =>
    match owner dir.ring d.data.quid, cropQuid d.data.quid with
    | some host, some quid => { dir with placed := dir.placed ++ [⟨host, quid, d.data⟩] }
    | _, _ => dir
  | .restart hosts => { dir with ring := ringOf hosts }

end Directory

section Placed

variable {placed : List Placement} {p : Placement} {host quid : Bytes}

theorem kept_cons : kept (p :: placed) host quid =
    if p.host = host ∧ p.quid = quid then some (buildQuery p.data) else kept placed host quid := by
  rw [kept, List.find?_cons]
  by_cases h : p.host = host ∧ p.quid = quid
  · rw [decide_eq_true h, if_pos h, Option.map_some]
  · rw [decide_eq_false h, if_neg h, kept]

theorem kept_append : kept (placed ++ [p]) host quid =
    (kept placed host quid).or
      (if p.host = host ∧ p.quid = quid then some (buildQuery p.data) else none) := by
  rw [kept, kept, List.find?_append, Option.map_or]
  congr 1
  by_cases h : p.host = host ∧ p.quid = quid
  · rw [if_pos h, List.find?_singleton, if_pos (decide_eq_true h), Option.map_some]
  · rw [if_neg h, List.find?_singleton, if_neg (by simpa using h), Option.map_none]

/-- The other hosts keep what they have. -/
theorem kept_append_of_ne (h : host ≠ p.host) :
    kept (placed ++ [p]) host quid = kept placed host quid := by
  rw [kept_append, if_neg fun hp => h hp.1.symm, Option.or_none]

/-- The worker that a request is sent to keeps it if it is the first one. -/
theorem kept_append_self : kept (placed ++ [p]) p.host =
    if kept placed p.host p.quid = none
    then Function.update (kept placed p.host) p.quid (some (buildQuery p.data))
    else kept placed p.host := by
  funext quid
  rw [kept_append]
  by_cases hquid : quid = p.quid
  · subst hquid
    rw [if_pos ⟨rfl, rfl⟩]
    split_ifs with hkept
    · rw [hkept, Function.update_self, Option.none_or]
    · obtain ⟨record, hrecord⟩ := Option.ne_none_iff_exists'.mp hkept
      rw [hrecord, Option.some_or]
  · rw [if_neg fun hp => hquid hp.2.symm, Option.or_none]
    split_ifs
    · rw [Function.update_of_ne hquid]
    · rfl

theorem replies_append : replies (placed ++ [p]) =
    replies placed ++ [if kept placed p.host p.quid = none then doneReply else failReply] := by
  rw [replies, List.mapIdx_concat, List.take_left, replies]
  congr 1
  · refine List.mapIdx_eq_mapIdx_iff.mpr fun i hi => ?_
    rw [List.take_append_of_le_length hi.le]
  · simp

end Placed

/-! ## One worker -/

/-- A SELECT of any quid returns what is kept under it. -/
def Shows (proto : Protobuf) (kept : Bytes → Option StorageQuery) (w : Worker) : Prop :=
  ∃ m page h, Represents proto m page w ∧ LargeFiles h page ∧ ∀ quid, m.view page quid = kept quid

namespace Shows

variable {proto : Protobuf} {kept : Bytes → Option StorageQuery} {w : Worker}
  {request query : StorageQuery} {quid : Bytes}

theorem start (proto : Protobuf) (heap : Uninit) : Shows proto (fun _ => none) (Worker.start heap) :=
  ⟨_, _, [], Represents.start proto heap, LargeFiles.createDefault _, fun _ => rfl⟩

theorem reply_select (hw : Shows proto kept w) (hselect : query.queryaction = .select) :
    w.reply proto query = some (answer kept query) := by
  obtain ⟨m, page, h, hrep, -, hview⟩ := hw
  rw [hrep.reply_select hselect, funext hview]

/-- A record that is kept is in the indexes of the worker. -/
theorem ari_eq_none_iff (hw : Shows proto kept w) : w.ari quid = none ↔ kept quid = none := by
  obtain ⟨m, page, h, hrep, -, hview⟩ := hw
  rw [hrep.ari_eq_none_iff, ← hview, Store.view, Option.map_eq_none_iff]

/-- The INSERT of a quid that is not stored. -/
theorem insert (hw : Shows proto kept w) (hinsert : request.queryaction = .insert)
    (hquid : cropQuid request.quid = some quid) (hnone : kept quid = none) (hfit : w.LfbFits request) :
    Shows proto (Function.update kept quid (some request.stored)) (w.next proto request) ∧
      w.reply proto request = some (Entry.of request).record := by
  obtain ⟨m, page, h, hrep, hl, hview⟩ := hw
  have hlen : quid.length = 36 := length_of_cropQuid hquid
  have hm : m quid = none := by
    rw [← hview, Store.view, Option.map_eq_none_iff] at hnone
    exact hnone
  have hpage := hrep.fits_of_lfbFits hfit (.inl hinsert) hquid
  obtain ⟨h', hl'⟩ := hl.routed hlen hpage
  refine ⟨⟨_, _, h', hrep.next_accepted hquid (.inr ⟨hinsert, hm⟩), hl', fun q => ?_⟩, ?_⟩
  · rw [Store.view_write hl hlen hpage, funext hview]
  · rw [Worker.reply, hrep.handle_accepted hquid (.inr ⟨hinsert, hm⟩)]

/-- The INSERT of a quid that is stored. Its content is not a large one, so that nothing is written. -/
theorem refuse (hw : Shows proto kept w) (hinsert : request.queryaction = .insert)
    (hquid : cropQuid request.quid = some quid) (hsome : kept quid ≠ none)
    (hsmall : isLarge request.getContent = false) :
    Shows proto kept (w.next proto request) ∧
      w.reply proto request = some (request.setResult .duplicate) := by
  obtain ⟨m, page, h, hrep, hl, hview⟩ := hw
  have hm : m quid ≠ none := by
    rw [← hview, Store.view, Ne, Option.map_eq_none_iff] at hsome
    exact hsome
  have hhandle := hrep.handle_refused hquid hinsert hm
  have hlfb : w.lfb.routed page quid request.getContent = w.lfb :=
    if_neg (by rw [hsmall]; exact Bool.false_ne_true)
  rw [hlfb] at hhandle
  refine ⟨⟨m, page, h, ?_, hl, hview⟩, by rw [Worker.reply, hhandle]⟩
  rw [Worker.next, hhandle]
  exact hrep

end Shows

/-! ## The refinement -/

/-- The service keeps what the directory says, and has sent its replies. -/
structure Refines (proto : Protobuf) (c : Cluster) (dir : Directory) : Prop where
  ring : c.ring = dir.ring
  workers : c.ring.ring ≠ []
  master : c.master = ⟨replies dir.placed, true⟩
  worker : ∀ host, Shows proto (kept dir.placed host) (c.worker host)
  waits : c.waits = false

/-- The spelling of a quid, bare or in braces. -/
def IsSpelling (s : Bytes) : Prop := ∃ t : Spelling, s = t.bare ∨ s = t.braced

/-- The requests of well-behaved clients: the string is a quid, and a content that goes to the
large-file base belongs to a new record and fits into the page. -/
def Event.Fits (c : Cluster) : Event → Prop
  | .deliver d => IsSpelling d.data.quid ∧ 20 ≤ d.mem.length ∧
      (isLarge d.data.payload = true → ∀ host, owner c.ring d.data.quid = some host →
        (∀ quid, cropQuid d.data.quid = some quid → (c.worker host).ari quid = none) ∧
          (c.worker host).LfbFits (buildQuery d.data))
  | .restart hosts => hosts ≠ []

theorem IsSpelling.crop {s : Bytes} (h : IsSpelling s) : ∃ t : Spelling, cropQuid s = some t.bare := by
  obtain ⟨t, rfl | rfl⟩ := h
  · exact ⟨t, cropQuid_of_length t.length_bare⟩
  · exact ⟨t, cropQuid_braced t.length_bare⟩

/-- What is selected does not depend on the memory of the `Quid`. -/
theorem IsSpelling.selected_eq {d : Delivery} (h : IsSpelling d.data.quid) (hmem : 20 ≤ d.mem.length)
    (ring : HashRing Bytes) (bs : Bytes) :
    (Cluster.round d bs).selected ring = owner ring d.data.quid := by
  obtain ⟨t, ht⟩ := h
  rw [Round.selected, owner, Cluster.round, t.ofString?_eq ht hmem, t.ofString?_eq ht (by simp)]

theorem IsSpelling.isQuid {s : Bytes} (h : IsSpelling s) : IsQuid s := by
  obtain ⟨t, ht⟩ := h
  by_contra hnot
  have hnone : QuidT.ofString? (List.replicate 20 0) s = none := ofString?_eq_none_iff.mpr hnot
  rw [t.ofString?_eq ht (by simp)] at hnone
  exact Option.some_ne_none _ hnone

theorem lfbFits_of_small {w : Worker} {request : StorageQuery}
    (h : isLarge request.getContent = false) : w.LfbFits request := by
  intro _ _ _ _ hlarge
  rw [h] at hlarge
  exact absurd hlarge Bool.false_ne_true

namespace HashRing

/-- A ring with a worker on it is not empty. -/
theorem ring_addNode_ne_nil {R : HashRing Bytes} (hspread : 0 < R.spread.toNat) (node : Bytes) :
    (R.addNode node).ring ≠ [] := by
  have hpoints : R.points node ≠ [] := by
    rw [points, Ne, List.map_eq_nil_iff, List.range_eq_nil]
    exact hspread.ne'
  obtain ⟨p, hp⟩ := List.exists_mem_of_ne_nil _ hpoints
  exact List.ne_nil_of_mem (mem_addNode.mpr (.inl ⟨hp, rfl⟩ : (p, node).1 ∈ R.points node ∧ _ ∨ _))

theorem ring_addNodes_ne_nil {R : HashRing Bytes} (hspread : 0 < R.spread.toNat) {nodes : List Bytes}
    (h : nodes ≠ [] ∨ R.ring ≠ []) : (R.addNodes nodes).ring ≠ [] := by
  induction nodes generalizing R with
  | nil => exact h.resolve_left (not_not_intro rfl)
  | cons node nodes ih => exact ih hspread (.inr (ring_addNode_ne_nil hspread node))

end HashRing

theorem ring_ringOf_ne_nil {hosts : List Bytes} (h : hosts ≠ []) : (ringOf hosts).ring ≠ [] :=
  HashRing.ring_addNodes_ne_nil (by decide) (.inl h)

namespace Refines

variable {proto : Protobuf} {c : Cluster} {dir : Directory} {d : Delivery}

theorem start (proto : Protobuf) (heap : Bytes → Uninit) {hosts : List Bytes} (h : hosts ≠ []) :
    Refines proto (Cluster.start heap hosts) (Directory.start hosts) where
  ring := rfl
  workers := ring_ringOf_ne_nil h
  master := rfl
  worker host := Shows.start proto (heap host)
  waits := rfl

/-- What the worker at a host makes of a request, and its reply. -/
theorem handle (h : Refines proto c dir) (host : Bytes) {quid : Bytes}
    (hquid : cropQuid d.data.quid = some quid)
    (hlarge : isLarge d.data.payload = true →
      (c.worker host).ari quid = none ∧ (c.worker host).LfbFits (buildQuery d.data)) :
    Shows proto (kept (dir.placed ++ [⟨host, quid, d.data⟩]) host)
        ((c.worker host).next proto (buildQuery d.data)) ∧
      ∃ reply, (c.worker host).reply proto (buildQuery d.data) = some reply ∧
        (reply.queryresult = .success ↔ kept dir.placed host quid = none) := by
  have hw := h.worker host
  have hinsert : (buildQuery d.data).queryaction = .insert := rfl
  have hself : kept (dir.placed ++ [⟨host, quid, d.data⟩]) host =
      if kept dir.placed host quid = none
      then Function.update (kept dir.placed host) quid (some (buildQuery d.data))
      else kept dir.placed host := kept_append_self
  cases hkept : kept dir.placed host quid with
  | none =>
    have hfit : (c.worker host).LfbFits (buildQuery d.data) := by
      cases hsize : isLarge d.data.payload with
      | true => exact (hlarge hsize).2
      | false => exact lfbFits_of_small hsize
    obtain ⟨hshows, hreply⟩ := hw.insert hinsert hquid hkept hfit
    refine ⟨?_, _, hreply, iff_of_true rfl rfl⟩
    rw [hself, if_pos hkept]
    exact hshows
  | some record =>
    have hsome : kept dir.placed host quid ≠ none := by simp [hkept]
    have hsmall : isLarge d.data.payload = false := by
      by_contra hnot
      exact hsome (hw.ari_eq_none_iff.mp (hlarge (Bool.eq_true_of_not_eq_false hnot)).1)
    obtain ⟨hshows, hreply⟩ := hw.refuse hinsert hquid hsome hsmall
    refine ⟨?_, _, hreply, iff_of_false (by simp [StorageQuery.setResult]) (by simp)⟩
    rw [hself, if_neg hsome]
    exact hshows

/-- **The service follows the directory.** -/
theorem next (h : Refines proto c dir) {e : Event} (hok : e.Fits c) :
    Refines proto (c.next proto e) (dir.next e) := by
  cases e with
  | restart hosts =>
    have hmaster : c.master.sent = replies dir.placed := by rw [h.master]
    exact ⟨rfl, ring_ringOf_ne_nil hok, by rw [Cluster.next, hmaster]; rfl, h.worker, rfl⟩
  | deliver d =>
    obtain ⟨hspelling, hmem, hlarge⟩ := hok
    obtain ⟨t, hquid⟩ := hspelling.crop
    have hrun : c.master.running = true := by rw [h.master]
    have hsent : c.master.sent = replies dir.placed := by rw [h.master]
    have hselected (bs : Bytes) := hspelling.selected_eq hmem c.ring bs
    obtain ⟨host, hhost⟩ := exists_selected (r := Cluster.round d []) h.workers hspelling.isQuid
    have howner : owner c.ring d.data.quid = some host := (hselected []).symm.trans hhost
    have hreceived : Cluster.received proto d = buildQuery d.data := proto.parse_serialize _
    obtain ⟨hshows, reply, hreply, hresult⟩ := h.handle host hquid
      fun hl => ⟨(hlarge hl host howner).1 _ hquid, (hlarge hl host howner).2⟩
    have hanswer : (proto.messages.parseFromArray
        ((Cluster.round d (proto.serializeToString reply)).answerOf proto.messages host)).2 = reply :=
      congrArg Prod.snd (proto.messages.parse_serialize reply)
    have hmaster := @next_of_selected proto.messages c.ring
      (Cluster.round d (proto.serializeToString reply)) c.master host
      ((hselected (proto.serializeToString reply)).trans howner) hrun
    rw [hanswer, hsent] at hmaster
    have hnext : c.next proto (.deliver d) =
        { c with
          worker := Function.update c.worker host ((c.worker host).next proto (buildQuery d.data))
          master := ⟨replies dir.placed ++
            [if reply.queryresult = .success then doneReply else failReply], true⟩ } := by
      have hgo : (c.master.running && !c.waits) = true := by rw [hrun, h.waits]; rfl
      rw [Cluster.next, if_pos hgo, Cluster.deliver, hhost, hreceived]
      dsimp only
      rw [hreply]
      dsimp only
      rw [hmaster]
    have hdir : dir.next (.deliver d)
        = { dir with placed := dir.placed ++ [⟨host, t.bare, d.data⟩] } := by
      rw [Directory.next, ← h.ring, howner, hquid]
    rw [hnext, hdir]
    refine ⟨h.ring, h.workers, ?_, fun host' => ?_, h.waits⟩
    · rw [replies_append]
      simp only [hresult]
    · dsimp only
      by_cases hhost' : host' = host
      · subst hhost'
        rw [Function.update_self]
        exact hshows
      · have hother : kept (dir.placed ++ [⟨host, t.bare, d.data⟩]) host' = kept dir.placed host' :=
          funext fun _ => kept_append_of_ne hhost'
        rw [Function.update_of_ne hhost', hother]
        exact h.worker host'

/-- The service follows the directory through every run. -/
theorem of_run {heap : Bytes → Uninit} {hosts : List Bytes} (hhosts : hosts ≠ []) {es : List Event}
    (hr : Run (Cluster.next proto) (fun c e => e.Fits c) (Cluster.start heap hosts) es c) :
    Refines proto c (es.foldl Directory.next (Directory.start hosts)) := by
  refine hr.invariant (P := fun es c => Refines proto c (es.foldl Directory.next (.start hosts)))
    (start proto heap hhosts) fun es c e ih hok => ?_
  rw [List.foldl_append]
  exact ih.next hok

end Refines

/-! ## The whole service -/

section Service

variable {proto : Protobuf} {heap : Bytes → Uninit} {hosts : List Bytes} {c : Cluster}

/-- **What the service is to its clients.** After every run of requests and restarts with other
workers, the master has answered each request, `DONE` to the first one of a quid that went to a worker
and `FAIL` to the later ones, it waits for no worker, and every worker answers a SELECT with the first
record of the quid that it was sent. -/
theorem service_of_run (hhosts : hosts ≠ []) {es : List Event}
    (hr : Run (Cluster.next proto) (fun c e => e.Fits c) (Cluster.start heap hosts) es c) :
    let placed := (es.foldl Directory.next (Directory.start hosts)).placed
    c.master = ⟨replies placed, true⟩ ∧ c.waits = false ∧
      ∀ (host : Bytes) (query : StorageQuery), query.queryaction = .select →
        (c.worker host).reply proto query = some (answer (kept placed host) query) := by
  have h := Refines.of_run hhosts hr
  exact ⟨h.master, h.waits, fun host query hselect => (h.worker host).reply_select hselect⟩

/-! ### Without restarts -/

/-- The deliveries of a run are those of well-behaved clients. -/
theorem isSpelling_of_run {es : List Event}
    (hr : Run (Cluster.next proto) (fun c e => e.Fits c) (Cluster.start heap hosts) es c) :
    ∀ d, Event.deliver d ∈ es → IsSpelling d.data.quid := by
  refine hr.invariant (P := fun es _ => ∀ d, Event.deliver d ∈ es → IsSpelling d.data.quid)
    (fun d hd => absurd hd List.not_mem_nil) fun es c e ih hok d hd => ?_
  rcases List.mem_append.mp hd with hd | hd
  · exact ih d hd
  · obtain rfl := List.mem_singleton.mp hd
    exact hok.1

/-- The worker of a quid is the same in every spelling of it. -/
theorem IsSpelling.owner_eq {s quid : Bytes} (h : IsSpelling s) (hquid : cropQuid s = some quid)
    (ring : HashRing Bytes) : owner ring s = owner ring quid := by
  obtain ⟨t, ht⟩ := h
  have hbare : quid = t.bare := by
    rcases ht with rfl | rfl
    · exact Option.some.inj (hquid.symm.trans (cropQuid_of_length t.length_bare))
    · exact Option.some.inj (hquid.symm.trans (cropQuid_braced t.length_bare))
  rw [owner, owner, t.ofString?_eq ht (by simp), t.ofString?_eq (.inl hbare) (by simp)]

/-- Where a request goes on a ring. -/
def place (ring : HashRing Bytes) (d : Delivery) : Option Placement :=
  match owner ring d.data.quid, cropQuid d.data.quid with
  | some host, some quid => some ⟨host, quid, d.data⟩
  | _, _ => none

theorem foldl_deliver (dir : Directory) (ds : List Delivery) :
    (ds.map Event.deliver).foldl Directory.next dir
      = { dir with placed := dir.placed ++ ds.filterMap (place dir.ring) } := by
  induction ds generalizing dir with
  | nil => simp
  | cons d ds ih =>
    rw [List.map_cons, List.foldl_cons, ih, List.filterMap_cons, Directory.next, place]
    cases howner : owner dir.ring d.data.quid with
    | none => rfl
    | some host =>
      cases hquid : cropQuid d.data.quid with
      | none => rfl
      | some quid => simp

/-- On one ring, the worker of a quid keeps the first record of it, and no other worker has any. -/
theorem kept_filterMap_place {ring : HashRing Bytes} {ds : List Delivery}
    (hds : ∀ d ∈ ds, IsSpelling d.data.quid) (host quid : Bytes) :
    kept (ds.filterMap (place ring)) host quid =
      if owner ring quid = some host
      then (ds.find? fun d => cropQuid d.data.quid = some quid).map fun d => buildQuery d.data
      else none := by
  induction ds with
  | nil => exact (ite_self none).symm
  | cons d ds ih =>
    have ih := ih fun d' hd' => hds d' (List.mem_cons_of_mem _ hd')
    obtain ⟨t, hcrop⟩ := (hds d List.mem_cons_self).crop
    have howner := (hds d List.mem_cons_self).owner_eq hcrop ring
    rw [List.filterMap_cons, place, hcrop, howner, List.find?_cons, hcrop]
    cases hhost : owner ring t.bare with
    | none =>
      dsimp only
      rw [ih]
      by_cases hquid : t.bare = quid
      · rw [← hquid, hhost, if_neg (Option.some_ne_none _).symm, if_neg (Option.some_ne_none _).symm]
      · simp [hquid]
    | some host' =>
      dsimp only
      rw [kept_cons, ih]
      by_cases hquid : t.bare = quid
      · subst hquid
        by_cases hsame : host' = host <;> simp [hsame, hhost]
      · simp [hquid]

/-- A ring with a worker on it has one for every quid. -/
theorem IsSpelling.exists_owner {s : Bytes} (h : IsSpelling s) {ring : HashRing Bytes}
    (hring : ring.ring ≠ []) : ∃ host, owner ring s = some host := by
  obtain ⟨t, ht⟩ := h
  obtain ⟨e, he⟩ := Option.ne_none_iff_exists'.mp
    (mt (OrderedMap.next_eq_none_iff (k := ring.keyHash t.quid)).mp hring)
  exact ⟨e.2, by rw [owner, t.ofString?_eq ht (by simp), Option.bind_some, HashRing.getNode, he]; rfl⟩

/-- On one ring, the first request of a quid is done. -/
theorem replies_filterMap_place {ring : HashRing Bytes} (hring : ring.ring ≠ []) {ds : List Delivery}
    (hds : ∀ d ∈ ds, IsSpelling d.data.quid) :
    replies (ds.filterMap (place ring)) = ds.mapIdx fun i d =>
      if ∃ d' ∈ ds.take i, cropQuid d'.data.quid = cropQuid d.data.quid then failReply
      else doneReply := by
  induction ds using List.reverseRecOn with
  | nil => rfl
  | append_singleton ds d ih =>
    have hds' : ∀ d' ∈ ds, IsSpelling d'.data.quid := fun d' hd' => hds d' (List.mem_append_left _ hd')
    have hd := hds d (by simp)
    obtain ⟨t, hcrop⟩ := hd.crop
    obtain ⟨host, howner⟩ := hd.exists_owner hring
    have hplace : place ring d = some ⟨host, t.bare, d.data⟩ := by rw [place, howner, hcrop]
    have hown : owner ring t.bare = some host := (hd.owner_eq hcrop ring).symm.trans howner
    have hfirst : kept (ds.filterMap (place ring)) host t.bare = none ↔
        ¬ ∃ d' ∈ ds, cropQuid d'.data.quid = cropQuid d.data.quid := by
      rw [kept_filterMap_place hds', if_pos hown, Option.map_eq_none_iff, List.find?_eq_none, hcrop]
      simp
    rw [List.filterMap_append, List.filterMap_cons_some hplace, List.filterMap_nil, replies_append,
      ih hds', List.mapIdx_concat, List.take_left]
    congr 1
    · refine List.mapIdx_eq_mapIdx_iff.mpr fun i hi => ?_
      rw [List.take_append_of_le_length hi.le]
    · simp only [hfirst, ite_not]

/-- What a SELECT finds in a run without restarts. -/
theorem reply_of_deliveries (hhosts : hosts ≠ []) {ds : List Delivery}
    (hr : Run (Cluster.next proto) (fun c e => e.Fits c) (Cluster.start heap hosts)
      (ds.map .deliver) c) {query : StorageQuery} (hselect : query.queryaction = .select)
    (hlen : query.quid.length = 36) (host : Bytes) :
    (c.worker host).reply proto query = some
      ((if owner (ringOf hosts) query.quid = some host
        then (ds.find? fun d => cropQuid d.data.quid = some query.quid).map fun d => buildQuery d.data
        else none).getD (query.setResult .notfound)) := by
  have hds : ∀ d ∈ ds, IsSpelling d.data.quid :=
    fun d hd => isSpelling_of_run hr d (List.mem_map_of_mem hd)
  have h := Refines.of_run hhosts hr
  rw [foldl_deliver, Directory.start, List.nil_append] at h
  rw [(h.worker host).reply_select hselect, answer, upsKey_of_length hlen]
  exact congrArg (fun kept => some (kept.getD (query.setResult .notfound)))
    (kept_filterMap_place hds host query.quid)

/-- **On one ring the workers are one map.** In a run without restarts the first request of a quid, in
whatever spelling, is answered `DONE` and all later ones `FAIL`; a SELECT of a quid finds the first
record of it at the worker that the ring selects, and nothing at any other. -/
theorem one_map (hhosts : hosts ≠ []) {ds : List Delivery}
    (hr : Run (Cluster.next proto) (fun c e => e.Fits c) (Cluster.start heap hosts)
      (ds.map .deliver) c) :
    c.master.sent = (ds.mapIdx fun i d =>
      if ∃ d' ∈ ds.take i, cropQuid d'.data.quid = cropQuid d.data.quid then failReply
      else doneReply) ∧
    ∀ (host : Bytes) (query : StorageQuery), query.queryaction = .select → query.quid.length = 36 →
      (c.worker host).reply proto query = some
        ((if owner (ringOf hosts) query.quid = some host
          then (ds.find? fun d => cropQuid d.data.quid = some query.quid).map fun d => buildQuery d.data
          else none).getD (query.setResult .notfound)) := by
  have hds : ∀ d ∈ ds, IsSpelling d.data.quid :=
    fun d hd => isSpelling_of_run hr d (List.mem_map_of_mem hd)
  have h := Refines.of_run hhosts hr
  rw [foldl_deliver, Directory.start, List.nil_append] at h
  refine ⟨?_, fun host query hselect hlen => reply_of_deliveries hhosts hr hselect hlen host⟩
  rw [h.master]
  exact replies_filterMap_place (ring_ringOf_ne_nil hhosts) hds

/-! ### One more worker -/

/-- A worker that is added at the end of the configuration takes keys only for itself. -/
theorem owner_concat {s host : Bytes} (node : Bytes) (h : owner (ringOf hosts) s = some host) :
    ∃ host', owner (ringOf (hosts ++ [node])) s = some host' ∧ (host' = node ∨ host' = host) := by
  obtain ⟨key, hkey, hnode⟩ := Option.bind_eq_some_iff.mp h
  obtain ⟨e, hnext, rfl⟩ := Option.map_eq_some_iff.mp hnode
  obtain ⟨f, hnext', hf⟩ := OrderedMap.next_insertAll (ringOf hosts).sorted hnext
    ((ringOf hosts).points node) node
  have hring : ringOf (hosts ++ [node]) = (ringOf hosts).addNode node := by
    rw [ringOf, HashRing.addNodes, List.foldl_concat]
    rfl
  refine ⟨f.2, ?_, hf.imp_right fun hfe => by rw [hfe]⟩
  rw [hring, owner, hkey, Option.bind_some]
  exact congrArg (Option.map Prod.snd) hnext'

/-- **A worker that is added hides the records that move to it.** The master is started again with one
more worker. Of every quid that was delivered before, the ring selects the worker that it selected then,
or the new one; a SELECT there finds the first record of the quid exactly if it is the former, and a new
request of the quid is refused exactly then. At the new worker it is accepted, so that there are two
records of the quid: the old one stays where it was, where no request goes any more. -/
theorem scale_out (hhosts : hosts ≠ []) {ds : List Delivery} (node : Bytes)
    (hr : Run (Cluster.next proto) (fun c e => e.Fits c) (Cluster.start heap hosts)
      (ds.map .deliver ++ [.restart (hosts ++ [node])]) c)
    {d : Delivery} (hd : d ∈ ds) (hok : (Event.deliver d).Fits c) :
    ∃ host host', owner (ringOf hosts) d.data.quid = some host ∧
      owner (ringOf (hosts ++ [node])) d.data.quid = some host' ∧ (host' = node ∨ host' = host) ∧
      (∀ query : StorageQuery, query.queryaction = .select → cropQuid d.data.quid = some query.quid →
        (c.worker host').reply proto query = some
          ((if host' = host
            then (ds.find? fun d' => cropQuid d'.data.quid = some query.quid).map
              fun d' => buildQuery d'.data
            else none).getD (query.setResult .notfound))) ∧
      (c.next proto (.deliver d)).master.sent =
        c.master.sent ++ [if host' = host then failReply else doneReply] ∧
      ∀ query : StorageQuery, query.queryaction = .select → cropQuid d.data.quid = some query.quid →
        ∀ other, ((c.next proto (.deliver d)).worker other).reply proto query = some
          ((if other = host
            then (ds.find? fun d' => cropQuid d'.data.quid = some query.quid).map
              fun d' => buildQuery d'.data
            else if other = host' then some (buildQuery d.data) else none).getD
              (query.setResult .notfound)) := by
  have hspell := isSpelling_of_run hr
  have hds : ∀ d ∈ ds, IsSpelling d.data.quid :=
    fun d hd => hspell d (List.mem_append_left _ (List.mem_map_of_mem hd))
  have h := Refines.of_run hhosts hr
  rw [List.foldl_append, foldl_deliver, Directory.start, List.nil_append, List.foldl_cons,
    List.foldl_nil, Directory.next] at h
  dsimp only at h
  obtain ⟨t, hcrop⟩ := (hds d hd).crop
  obtain ⟨host, hhost⟩ := (hds d hd).exists_owner (ring_ringOf_ne_nil hhosts)
  obtain ⟨host', hhost', hcases⟩ := owner_concat node hhost
  have hown : owner (ringOf hosts) t.bare = some host :=
    ((hds d hd).owner_eq hcrop _).symm.trans hhost
  -- Before the restart only the worker that the old ring selects had records of the quid.
  have hkept : ∀ other, kept (ds.filterMap (place (ringOf hosts))) other t.bare =
      if other = host
      then (ds.find? fun d' => cropQuid d'.data.quid = some t.bare).map fun d' => buildQuery d'.data
      else none := by
    intro other
    rw [kept_filterMap_place hds, hown]
    simp only [Option.some_inj, eq_comm]
  have hfound : (ds.find? fun d' => cropQuid d'.data.quid = some t.bare) ≠ none := by
    rw [Ne, List.find?_eq_none]
    exact fun hnot => hnot d hd (decide_eq_true hcrop)
  have hplaced : Directory.next ⟨ringOf (hosts ++ [node]), ds.filterMap (place (ringOf hosts))⟩
        (.deliver d) =
      ⟨ringOf (hosts ++ [node]),
        ds.filterMap (place (ringOf hosts)) ++ [⟨host', t.bare, d.data⟩]⟩ := by
    rw [Directory.next]
    dsimp only
    rw [hhost', hcrop]
  have hnext := h.next hok
  rw [hplaced] at hnext
  refine ⟨host, host', hhost, hhost', hcases, fun query hselect hquid => ?_, ?_,
    fun query hselect hquid other => ?_⟩
  · have hbare : t.bare = query.quid := Option.some.inj (hcrop.symm.trans hquid)
    rw [(h.worker host').reply_select hselect, answer, ← hbare, upsKey_of_length t.length_bare, hkept]
  · have hmaster := hnext.master
    rw [replies_append, hkept] at hmaster
    rw [hmaster, h.master]
    by_cases hsame : host' = host
    · rw [if_pos hsame, if_pos hsame, if_neg (by simpa using hfound)]
    · rw [if_neg hsame, if_neg hsame, if_pos rfl]
  · have hbare : t.bare = query.quid := Option.some.inj (hcrop.symm.trans hquid)
    rw [(hnext.worker other).reply_select hselect, answer, ← hbare, upsKey_of_length t.length_bare,
      kept_append, hkept]
    by_cases hold : other = host
    · obtain ⟨first, hfirst⟩ := Option.ne_none_iff_exists'.mp hfound
      rw [if_pos hold, if_pos hold, hfirst, Option.map_some, Option.some_or]
    · rw [if_neg hold, if_neg hold, Option.none_or]
      simp only [and_true, eq_comm]

end Service

/-! ## One record, two workers -/

/-- A small record under the quid that `text` spells. -/
def delivery (text : Bytes) : Delivery :=
  ⟨⟨ascii "record", 7, text, [1, 2, 3], []⟩, List.replicate 20 0⟩

/-- A quid that a second worker takes from the first one. -/
def takenQuid : Bytes := ascii "11111111-0000-a080-8000-000000000000"

def oneHost : List Bytes := [ascii "localhost:5522"]

def secondHost : Bytes := ascii "localhost:5523"

/-- Small records with a quid are those of a well-behaved client. -/
theorem fits_delivery {text : Bytes} (h : IsSpelling text) (c : Cluster) :
    (Event.deliver (delivery text)).Fits c := by
  refine ⟨h, le_rfl, fun hlarge => absurd hlarge ?_⟩
  have hsmall : isLarge [1, 2, 3] = false := by decide
  exact fun htrue => Bool.false_ne_true (hsmall.symm.trans htrue)

theorem isSpelling_takenQuid : IsSpelling takenQuid := by
  obtain ⟨t, ht⟩ := strquidFormat_eq_two_iff.mp (by decide : strquidFormat takenQuid = 2)
  exact ⟨t, .inl ht⟩

theorem isSpelling_braced_takenQuid : IsSpelling (123 :: (takenQuid ++ [125])) := by
  obtain ⟨t, ht⟩ := strquidFormat_eq_two_iff.mp (by decide : strquidFormat takenQuid = 2)
  exact ⟨t, .inr (by rw [ht]; rfl)⟩

/-- The service with one worker. -/
def oneWorkerService : Cluster := .start (fun _ => ⟨0, 0, 0, 0, 0⟩) oneHost

/-- Events that fit in every state make a run. -/
theorem run_of_fits (es : List Event) (h : ∀ e ∈ es, ∀ c, e.Fits c) :
    Run (Cluster.next protobuf) (fun c e => e.Fits c) oneWorkerService es
      (es.foldl (Cluster.next protobuf) oneWorkerService) := by
  have hrun : Run (Cluster.next protobuf) (fun _ e => ∀ c, Event.Fits c e) oneWorkerService es
      (es.foldl (Cluster.next protobuf) oneWorkerService) := run_foldl h
  exact hrun.mono fun c e he => he c

/-- A record that is delivered, and again after a restart with a second worker, is kept twice. -/
theorem service_of_run_twice : ∃ c,
    Run (Cluster.next protobuf) (fun c e => e.Fits c) oneWorkerService
      [.deliver (delivery takenQuid), .restart (oneHost ++ [secondHost]),
        .deliver (delivery takenQuid)] c ∧
    c.master.sent = [doneReply, doneReply] := by
  have hrun := run_of_fits [.deliver (delivery takenQuid), .restart (oneHost ++ [secondHost]),
    .deliver (delivery takenQuid)] (by
      simp only [List.forall_mem_cons, List.not_mem_nil, IsEmpty.forall_iff, implies_true, and_true]
      exact ⟨fits_delivery isSpelling_takenQuid, fun _ => List.cons_ne_nil _ _,
        fits_delivery isSpelling_takenQuid⟩)
  refine ⟨_, hrun, ?_⟩
  rw [(service_of_run (List.cons_ne_nil _ _) hrun).1]
  decide +kernel

/-- Two spellings of one quid are one record. -/
theorem one_map_spellings : ∃ c,
    Run (Cluster.next protobuf) (fun c e => e.Fits c) oneWorkerService
      ([delivery takenQuid, delivery (123 :: (takenQuid ++ [125]))].map .deliver) c ∧
    c.master.sent = [doneReply, failReply] := by
  have hrun := run_of_fits
    ([delivery takenQuid, delivery (123 :: (takenQuid ++ [125]))].map .deliver) (by
      simp only [List.map_cons, List.map_nil, List.forall_mem_cons, List.not_mem_nil,
        IsEmpty.forall_iff, implies_true, and_true]
      exact ⟨fits_delivery isSpelling_takenQuid, fits_delivery isSpelling_braced_takenQuid⟩)
  refine ⟨_, hrun, ?_⟩
  rw [(one_map (List.cons_ne_nil _ _) hrun).1]
  decide +kernel

/-- The second worker accepts the record that the first one has, and both find it. -/
theorem scale_out_taken : ∃ c query,
    Run (Cluster.next protobuf) (fun c e => e.Fits c) oneWorkerService
      ([delivery takenQuid].map .deliver ++ [.restart (oneHost ++ [secondHost])]) c ∧
    (c.next protobuf (.deliver (delivery takenQuid))).master.sent = c.master.sent ++ [doneReply] ∧
    ∃ host host', host' ≠ host ∧ ∀ other, other = host ∨ other = host' →
      ((c.next protobuf (.deliver (delivery takenQuid))).worker other).reply protobuf query
        = some (buildQuery (delivery takenQuid).data) := by
  have hrun := run_of_fits
    ([delivery takenQuid].map .deliver ++ [.restart (oneHost ++ [secondHost])]) (by
      simp only [List.map_cons, List.map_nil, List.singleton_append, List.forall_mem_cons,
        List.not_mem_nil, IsEmpty.forall_iff, implies_true, and_true]
      exact ⟨fits_delivery isSpelling_takenQuid, fun _ => List.cons_ne_nil _ _⟩)
  have hcrop : cropQuid takenQuid = some takenQuid := cropQuid_of_length (by decide)
  let query : StorageQuery := { buildQuery (delivery takenQuid).data with queryaction := .select }
  refine ⟨_, query, hrun, ?_⟩
  obtain ⟨host, host', hhost, hhost', -, -, hsent, hboth⟩ :=
    scale_out (List.cons_ne_nil _ _) secondHost hrun List.mem_cons_self
      (fits_delivery isSpelling_takenQuid _)
  have hmoved : owner (ringOf oneHost) takenQuid
      ≠ owner (ringOf (oneHost ++ [secondHost])) takenQuid := by decide +kernel
  have hne : host' ≠ host := by
    rintro rfl
    exact hmoved (hhost.trans hhost'.symm)
  rw [if_neg hne] at hsent
  refine ⟨hsent, host, host', hne, fun other hother => ?_⟩
  have hreply := hboth query rfl hcrop other
  have hfind : ([delivery takenQuid].find? fun d => cropQuid d.data.quid = some query.quid)
      = some (delivery takenQuid) := by
    rw [List.find?_singleton]
    exact if_pos (decide_eq_true hcrop)
  rw [hreply, hfind]
  rcases hother with rfl | rfl
  · rw [if_pos rfl]
    rfl
  · rw [if_neg hne, if_pos rfl]
    rfl

end Mavicona.Cynder
