import Mavicona.Cynder.Message

/-!
# The storage master: from scraped data to a storage query

Reference: `cynder/cynder.cpp`, `initMaster`.

`copyMeta` copies a metadata tree into a node that already exists. The destination node of the
children is added once, before the loop over them, so all children of a node are copied into one
destination node; `copyForest` is that loop. `copyMeta_faithful_iff` says for which metadata the copy
is faithful all the same.
-/

namespace Mavicona.Cynder

/-- A node as `add_meta` creates it. -/
def MetaEntry.fresh : MetaEntry := ⟨[], none, []⟩

mutual

/-- `copyMeta` of `initMaster`: the destination node after copying `sourcekey` into it. -/
def copyMeta : MetaEntry → MetaEntry → MetaEntry
  | ⟨key, value, []⟩, destkey =>
    { destkey with key := key, value := some (value.getD []) }
  | ⟨key, _, m :: ms⟩, destkey =>
    { destkey with key := key, metas := destkey.metas ++ [copyForest (m :: ms) .fresh] }

/-- The loop of `copyMeta` over the children of a node, all into the same destination. -/
def copyForest : List MetaEntry → MetaEntry → MetaEntry
  | [], destkey => destkey
  | m :: ms, destkey => copyForest ms (copyMeta m destkey)

end

/-- The query `initMaster` builds from a message. -/
def buildQuery (data : ScrapeData) : StorageQuery where
  name := data.name
  id := data.id
  quid := data.quid
  content := some data.payload
  queryaction := .insert
  queryresult := .success
  metas := data.metas.map fun m => copyMeta m .fresh
  next := []

/-! ## Faithful copies -/

mutual

/-- Two metadata trees have the same shape, the same keys and the same values at the leaves. -/
def SameTree : MetaEntry → MetaEntry → Prop
  | ⟨key, value, ms⟩, d =>
    key = d.key ∧ SameForest ms d.metas ∧ (ms = [] → value.getD [] = d.getValue)

/-- Two metadata forests have the same trees in the same order. -/
def SameForest : List MetaEntry → List MetaEntry → Prop
  | [], ds => ds = []
  | _ :: _, [] => False
  | m :: ms, d :: ds => SameTree m d ∧ SameForest ms ds

end

mutual

/-- No node of the tree has more than one child. -/
def Unbranched : MetaEntry → Prop
  | ⟨_, _, ms⟩ => ms.length ≤ 1 ∧ UnbranchedForest ms

/-- No node of the forest has more than one child. -/
def UnbranchedForest : List MetaEntry → Prop
  | [] => True
  | m :: ms => Unbranched m ∧ UnbranchedForest ms

end

/-- One tree is copied faithfully exactly when no node in it has more than one child. -/
theorem sameTree_copyMeta_iff : (m : MetaEntry) → SameTree m (copyMeta m .fresh) ↔ Unbranched m
  | ⟨key, value, []⟩ => by
    simp [copyMeta, SameTree, SameForest, Unbranched, UnbranchedForest, MetaEntry.fresh,
      MetaEntry.getValue]
  | ⟨key, value, [m]⟩ => by
    have ih := sameTree_copyMeta_iff m
    simpa [copyMeta, copyForest, SameTree, SameForest, Unbranched, UnbranchedForest,
      MetaEntry.fresh] using ih
  | ⟨key, value, m :: m' :: ms⟩ => by
    -- the copy has a single child where the source has several
    simp [copyMeta, SameTree, SameForest, Unbranched, MetaEntry.fresh]

/-- A forest copied tree by tree is faithful exactly when every tree is. -/
theorem sameForest_map_copyMeta_iff (ms : List MetaEntry) :
    SameForest ms (ms.map fun m => copyMeta m .fresh) ↔ UnbranchedForest ms := by
  induction ms with
  | nil => simp [SameForest, UnbranchedForest]
  | cons m ms ih =>
    rw [List.map_cons, SameForest, UnbranchedForest, sameTree_copyMeta_iff, ih]

/-- **When metadata survives the hop to the storage.** The query built from a message carries the
message's metadata forest, with its shape, keys, order and leaf values, exactly when no node of the
forest has more than one child. -/
theorem copyMeta_faithful_iff (data : ScrapeData) :
    SameForest data.metas (buildQuery data).metas ↔ UnbranchedForest data.metas :=
  sameForest_map_copyMeta_iff data.metas

/-- The metadata the extractor emits for a detected type: a `mime` node with the leaves `name`, `type`
and `category`. -/
def mimeMeta : MetaEntry where
  key := Bytes.ascii "mime"
  value := none
  metas :=
    [⟨Bytes.ascii "name", some (Bytes.ascii "Text"), []⟩,
      ⟨Bytes.ascii "type", some (Bytes.ascii "text/plain"), []⟩,
      ⟨Bytes.ascii "category", some (Bytes.ascii "text"), []⟩]

/-- The three leaves of the extractor's `mime` node do not arrive. -/
theorem mimeMeta_not_copied :
    ¬ SameForest [mimeMeta] (buildQuery ⟨[], 0, [], [], [mimeMeta]⟩).metas := by
  rintro ⟨⟨-, htree, -⟩, -⟩
  exact htree.2

end Mavicona.Cynder
