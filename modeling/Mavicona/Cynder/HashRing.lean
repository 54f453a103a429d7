import Mathlib.Data.Set.Insert
import Mavicona.Common.CircularMap
import Mavicona.Common.Run
import Mavicona.Quid.Text

/-!
# Routing records to workers

Reference: `cynder/consistent_hash.h`, `cynder/cynder.cpp` (`main`, `performQueryRequest`),
`common/crc32.h`.

A worker is put on a ring at `spread` points, the hashes of its name followed by the numbers of its
replicas. A record goes to the worker at the first point at or above the hash of its key, or at the
first point of all. The points of all workers are in one map, so a worker that is added takes over the
points it shares with the others, and one that is removed takes them away.
-/

namespace Mavicona.Cynder

open OrderedMap Bytes Trace

/-! ## The ring -/

/-- `size_t`. -/
abbrev SizeT := Fin (2 ^ 64)

/-- `Stringify`: what a value is on a stream. -/
class Stringify (T : Type*) where
  stringify : T → Bytes

open Stringify

instance : Stringify Bytes := ⟨id⟩

instance : Stringify UInt32 := ⟨fun n => (Nat.toDigits 10 n.toNat).map fun c => UInt8.ofNat c.toNat⟩

instance : Stringify Quid.QuidT := ⟨fun u => u.toString false⟩

/-- `HashRing`; `ring` is a `std::map` in the order of its keys. -/
structure HashRing (Node : Type*) where
  ring : List (SizeT × Node)
  sorted : Sorted ring
  spread : UInt32
  hash : Bytes → SizeT

namespace HashRing

variable {Node Key : Type*}

/-- A ring with no node on it. -/
def empty (spread : UInt32) (hash : Bytes → SizeT) : HashRing Node := ⟨[], sorted_nil, spread, hash⟩

section Operations

variable [Stringify Node] [Stringify Key]

/-- The ring points of a node, in the order of the loops of `addNode` and `removeNode`. -/
def points (R : HashRing Node) (node : Node) : List SizeT :=
  (List.range R.spread.toNat).map fun r =>
    R.hash (cstr (stringify node ++ stringify (UInt32.ofNat r)))

/-- `addNode`. -/
def addNode (R : HashRing Node) (node : Node) : HashRing Node :=
  { R with ring := insertAll (R.points node) node R.ring, sorted := R.sorted.insertAll _ _ }

/-- `removeNode`. -/
def removeNode (R : HashRing Node) (node : Node) : HashRing Node :=
  { R with ring := eraseAll (R.points node) R.ring, sorted := R.sorted.eraseAll _ }

/-- The hash of a key. -/
def keyHash (R : HashRing Node) (key : Key) : SizeT := R.hash (cstr (stringify key))

/-- `getNode`; `none` is the exception of an empty ring. -/
def getNode (R : HashRing Node) (key : Key) : Option Node := (next (R.keyHash key) R.ring).map (·.2)

theorem mem_addNode {R : HashRing Node} {node : Node} {e : SizeT × Node} :
    e ∈ (R.addNode node).ring ↔ e.1 ∈ R.points node ∧ e.2 = node ∨ e ∈ R.ring ∧ e.1 ∉ R.points node :=
  mem_insertAll R.sorted

theorem mem_removeNode {R : HashRing Node} {node : Node} {e : SizeT × Node} :
    e ∈ (R.removeNode node).ring ↔ e ∈ R.ring ∧ e.1 ∉ R.points node := mem_eraseAll

/-! ## A node is added -/

/-- **A node that is added takes keys only for itself.** In every state of a ring that is not
empty, with any hash function and any spread, a key is routed after `addNode` to the new node or
to the node it was routed to before. -/
theorem getNode_addNode (R : HashRing Node) (hR : R.ring ≠ []) (node : Node) (key : Key) :
    ∃ owner, R.getNode key = some owner ∧
      ((R.addNode node).getNode key = some node ∨ (R.addNode node).getNode key = some owner) := by
  obtain ⟨e, hnext⟩ := Option.ne_none_iff_exists'.mp (mt next_eq_none_iff.mp hR)
  obtain ⟨f, hnext', hf⟩ := next_insertAll R.sorted hnext (R.points node) node
  refine ⟨e.2, by rw [getNode, hnext, Option.map_some], ?_⟩
  have howner : (R.addNode node).getNode key = some f.2 := congrArg (Option.map Prod.snd) hnext'
  rw [howner, Option.some_inj, Option.some_inj]
  rcases hf with hnew | rfl
  · exact Or.inl hnew
  · exact Or.inr rfl

/-! ## A node is removed -/

/-- An entry is at a point of its node. -/
def Placed (R : HashRing Node) : Prop := ∀ e ∈ R.ring, e.1 ∈ R.points e.2

/-- The calls of `addNode` for a list of nodes. -/
def addNodes (R : HashRing Node) (nodes : List Node) : HashRing Node := nodes.foldl addNode R

theorem Placed.addNode {R : HashRing Node} (h : R.Placed) (node : Node) :
    (R.addNode node).Placed := by
  intro e he
  rcases mem_addNode.mp he with ⟨hp, rfl⟩ | ⟨hold, -⟩
  · exact hp
  · exact h e hold

theorem Placed.addNodes {R : HashRing Node} (h : R.Placed) (nodes : List Node) :
    (R.addNodes nodes).Placed := by
  induction nodes generalizing R with
  | nil => exact h
  | cons node nodes ih => exact ih (h.addNode node)

theorem placed_empty (spread : UInt32) (hash : Bytes → SizeT) :
    (empty spread hash : HashRing Node).Placed := fun _ he => absurd he List.not_mem_nil

variable (Key) in
/-- Removing the node disturbs only its own keys: none is routed to it, and those of the other
nodes stay where they are. -/
structure RemovedAlone (R : HashRing Node) (node : Node) : Prop where
  gone : ∀ key : Key, (R.removeNode node).getNode key ≠ some node
  kept : ∀ (key : Key) (other : Node), other ≠ node → R.getNode key = some other →
    (R.removeNode node).getNode key = some other

/-- Where another node is at a point of this one, the first of the points upward that this one
does not have is also of that other node. -/
def SharedCovered (R : HashRing Node) (node : Node) : Prop :=
  ∀ e ∈ R.ring, e.1 ∈ R.points node → e.2 ≠ node →
    ∃ f ∈ R.ring, f.1 ∉ R.points node ∧ f.2 = e.2 ∧
      ∀ g ∈ R.ring, g.1 ∉ R.points node → Before e.1 f.1 g.1

/-- The entry that comes after a shared point once the node is removed. -/
theorem next_removeNode_iff {R : HashRing Node} {node : Node} {p : SizeT} {f : SizeT × Node} :
    next p (R.removeNode node).ring = some f ↔
      f ∈ R.ring ∧ f.1 ∉ R.points node ∧ ∀ g ∈ R.ring, g.1 ∉ R.points node → Before p f.1 g.1 := by
  rw [next_eq_some_iff (R.removeNode node).sorted]
  simp only [mem_removeNode, and_imp, and_assoc]

/-- Nothing is routed to a node whose points are erased. -/
theorem getNode_removeNode_ne {R : HashRing Node} (h : R.Placed) (node : Node) (key : Key) :
    (R.removeNode node).getNode key ≠ some node := by
  intro hgone
  obtain ⟨e, hnext, hnode⟩ := Option.map_eq_some_iff.mp hgone
  obtain ⟨he, hpoint⟩ := mem_removeNode.mp (before_of_next (R.removeNode node).sorted hnext).1
  exact hpoint (hnode ▸ h e he)

/-- A key whose point is erased goes on to the next point that is left. -/
theorem getNode_removeNode_of_next {R : HashRing Node} {node : Node} {key : Key} {e : SizeT × Node}
    (hnext : next (R.keyHash key) R.ring = some e) :
    (R.removeNode node).getNode key = (next e.1 (R.removeNode node).ring).map (·.2) := by
  have hkey : (R.removeNode node).keyHash key = R.keyHash key := rfl
  rw [getNode, hkey, next_of_subset R.sorted (R.removeNode node).sorted
    (fun f hf => (mem_removeNode.mp hf).1) hnext]

/-- **Removing a node disturbs only its own keys if its shared points are covered.** For every
hash function, spread and sequence of `addNode` calls: where a later node took over a point of
the one that is removed, the next point that is left must be of that later node as well. The
condition is also necessary as soon as some key has the hash of each point of the removed node. -/
theorem removedAlone_of_sharedCovered (spread : UInt32) (hash : Bytes → SizeT) (nodes : List Node)
    (node : Node) :
    (((empty spread hash).addNodes nodes).SharedCovered node →
      ((empty spread hash).addNodes nodes).RemovedAlone Key node) ∧
    ((∀ p ∈ ((empty spread hash).addNodes nodes).points node,
        ∃ key : Key, ((empty spread hash).addNodes nodes).keyHash key = p) →
      ((empty spread hash).addNodes nodes).RemovedAlone Key node →
      ((empty spread hash).addNodes nodes).SharedCovered node) := by
  have hplaced := (placed_empty spread hash).addNodes nodes
  generalize (empty spread hash).addNodes nodes = R at hplaced
  constructor
  · intro hcovered
    refine ⟨getNode_removeNode_ne hplaced node, fun key other hne howner => ?_⟩
    obtain ⟨e, hnext, rfl⟩ := Option.map_eq_some_iff.mp howner
    by_cases hp : e.1 ∈ R.points node
    · -- The point is taken away with the node.
      obtain ⟨f, hf, hleft, hother, hfirst⟩ := hcovered e (before_of_next R.sorted hnext).1 hp hne
      rw [getNode_removeNode_of_next hnext, next_removeNode_iff.mpr ⟨hf, hleft, hfirst⟩,
        Option.map_some, hother]
    · exact congrArg (Option.map Prod.snd) (next_eraseAll R.sorted hnext hp)
  · intro hhit halone e he hp hne
    obtain ⟨key, hkey⟩ := hhit e.1 hp
    have hnext : next (R.keyHash key) R.ring = some e := by rw [hkey, next_self R.sorted he]
    have howner : R.getNode key = some e.2 := by rw [getNode, hnext, Option.map_some]
    have hstays := halone.kept key e.2 hne howner
    rw [getNode_removeNode_of_next hnext] at hstays
    obtain ⟨f, hf, hother⟩ := Option.map_eq_some_iff.mp hstays
    obtain ⟨hmem, hleft, hfirst⟩ := next_removeNode_iff.mp hf
    exact ⟨f, hmem, hleft, hother, hfirst⟩

/-! ## Nodes come and go -/

/-- A call that changes the ring. -/
inductive Call (Node : Type*)
  | add (node : Node)
  | remove (node : Node)

/-- The node of a call. -/
def Call.node : Call Node → Node
  | .add node => node
  | .remove node => node

/-- The ring after a call. -/
def step (R : HashRing Node) : Call Node → HashRing Node
  | .add node => R.addNode node
  | .remove node => R.removeNode node

/-- The nodes that are present after one more call. -/
def presentStep (nodes : Set Node) : Call Node → Set Node
  | .add node => insert node nodes
  | .remove node => nodes \ {node}

/-- The nodes that are present after the calls. -/
def present (calls : List (Call Node)) : Set Node := calls.foldl presentStep ∅

/-- No two of the nodes have a ring point in common. -/
def PointsApart (R : HashRing Node) (nodes : Set Node) : Prop :=
  ∀ n ∈ nodes, ∀ n' ∈ nodes, ∀ p ∈ R.points n, p ∈ R.points n' → n = n'

/-- The ring holds exactly the points of the nodes that are present. -/
structure Holds (R₀ R : HashRing Node) (nodes : Set Node) : Prop where
  spread_eq : R.spread = R₀.spread
  hash_eq : R.hash = R₀.hash
  mem_iff : ∀ e, e ∈ R.ring ↔ e.2 ∈ nodes ∧ e.1 ∈ R₀.points e.2

variable {R₀ R R' : HashRing Node} {nodes S : Set Node}

theorem Holds.points_eq (h : Holds R₀ R nodes) (node : Node) : R.points node = R₀.points node := by
  simp only [points, h.spread_eq, h.hash_eq]

/-- What a call does to the nodes that are present it does to the points. -/
theorem Holds.step (h : Holds R₀ R nodes) (hapart : R₀.PointsApart S) (hnodes : nodes ⊆ S)
    {call : Call Node} (hcall : call.node ∈ S) :
    Holds R₀ (R.step call) (presentStep nodes call) := by
  cases call with
  | add node =>
    refine ⟨h.spread_eq, h.hash_eq, fun e => ?_⟩
    rw [HashRing.step, mem_addNode, h.mem_iff, h.points_eq, presentStep, Set.mem_insert_iff]
    -- A point of another node that is present is not written over.
    have hother : e.2 ∈ nodes → e.1 ∈ R₀.points e.2 → e.1 ∈ R₀.points node → e.2 = node :=
      fun hmem hp hp' => hapart e.2 (hnodes hmem) node hcall e.1 hp hp'
    constructor
    · rintro (⟨hp, rfl⟩ | ⟨⟨hmem, hp⟩, -⟩)
      · exact ⟨Or.inl rfl, hp⟩
      · exact ⟨Or.inr hmem, hp⟩
    · rintro ⟨rfl | hmem, hp⟩
      · exact Or.inl ⟨hp, rfl⟩
      · by_cases hp' : e.1 ∈ R₀.points node
        · exact Or.inl ⟨hp', hother hmem hp hp'⟩
        · exact Or.inr ⟨⟨hmem, hp⟩, hp'⟩
  | remove node =>
    refine ⟨h.spread_eq, h.hash_eq, fun e => ?_⟩
    rw [HashRing.step, mem_removeNode, h.mem_iff, h.points_eq, presentStep, Set.mem_sdiff,
      Set.mem_singleton_iff]
    constructor
    · rintro ⟨⟨hmem, hp⟩, hleft⟩
      exact ⟨⟨hmem, fun heq => hleft (heq ▸ hp)⟩, hp⟩
    · rintro ⟨⟨hmem, hne⟩, hp⟩
      exact ⟨⟨hmem, hp⟩, fun hp' => hne (hapart e.2 (hnodes hmem) node hcall e.1 hp hp')⟩

omit [Stringify Node] in
theorem presentStep_subset (hnodes : nodes ⊆ S) {call : Call Node} (hcall : call.node ∈ S) :
    presentStep nodes call ⊆ S := by
  cases call with
  | add node => exact Set.insert_subset hcall hnodes
  | remove node => exact Set.sdiff_subset.trans hnodes

/-- Every run of calls on such nodes ends with the points of the nodes that are present. -/
theorem holds_of_run {spread : UInt32} {hash : Bytes → SizeT} {calls : List (Call Node)}
    (hapart : (empty spread hash : HashRing Node).PointsApart S)
    (hrun : Run step (fun _ call => call.node ∈ S) (empty spread hash) calls R) :
    Holds (empty spread hash) R (present calls) := by
  have hinv : Holds (empty spread hash) R (present calls) ∧ present calls ⊆ S := by
    refine hrun.invariant (P := fun calls R => Holds (empty spread hash) R (present calls) ∧
      present calls ⊆ S) ⟨⟨rfl, rfl, fun e => ?_⟩, Set.empty_subset S⟩ ?_
    · exact iff_of_false List.not_mem_nil fun h => h.1
    · rintro calls R call ⟨hholds, hsub⟩ hcall
      rw [present, List.foldl_concat]
      exact ⟨hholds.step hapart hsub hcall, presentStep_subset hsub hcall⟩
  exact hinv.1

/-- **Routing depends only on the nodes that are present.** For every hash function and spread
and every set of nodes no two of which share a ring point, two histories of `addNode` and
`removeNode` calls on these nodes that leave the same nodes present route every key to the same
node. -/
theorem getNode_eq_of_present_eq {spread : UInt32} {hash : Bytes → SizeT}
    {calls calls' : List (Call Node)} (hapart : (empty spread hash : HashRing Node).PointsApart S)
    (hrun : Run step (fun _ call => call.node ∈ S) (empty spread hash) calls R)
    (hrun' : Run step (fun _ call => call.node ∈ S) (empty spread hash) calls' R')
    (hsame : present calls = present calls') (key : Key) : R.getNode key = R'.getNode key := by
  have hholds := holds_of_run hapart hrun
  have hholds' := holds_of_run hapart hrun'
  have hring : R.ring = R'.ring := by
    refine R.sorted.ext R'.sorted fun e => ?_
    rw [hholds.mem_iff, hholds'.mem_iff, hsame]
  rw [getNode, getNode, keyHash, keyHash, hring, hholds.hash_eq, hholds'.hash_eq]

end Operations

/-! ## The ring of the service -/

/-- `kCrc32Table`. -/
def kCrc32Table : List UInt32 :=
  [0x00000000, 0x77073096, 0xee0e612c, 0x990951ba, 0x076dc419, 0x706af48f, 0xe963a535, 0x9e6495a3,
    0x0edb8832, 0x79dcb8a4, 0xe0d5e91e, 0x97d2d988, 0x09b64c2b, 0x7eb17cbd, 0xe7b82d07, 0x90bf1d91,
    0x1db71064, 0x6ab020f2, 0xf3b97148, 0x84be41de, 0x1adad47d, 0x6ddde4eb, 0xf4d4b551, 0x83d385c7,
    0x136c9856, 0x646ba8c0, 0xfd62f97a, 0x8a65c9ec, 0x14015c4f, 0x63066cd9, 0xfa0f3d63, 0x8d080df5,
    0x3b6e20c8, 0x4c69105e, 0xd56041e4, 0xa2677172, 0x3c03e4d1, 0x4b04d447, 0xd20d85fd, 0xa50ab56b,
    0x35b5a8fa, 0x42b2986c, 0xdbbbc9d6, 0xacbcf940, 0x32d86ce3, 0x45df5c75, 0xdcd60dcf, 0xabd13d59,
    0x26d930ac, 0x51de003a, 0xc8d75180, 0xbfd06116, 0x21b4f4b5, 0x56b3c423, 0xcfba9599, 0xb8bda50f,
    0x2802b89e, 0x5f058808, 0xc60cd9b2, 0xb10be924, 0x2f6f7c87, 0x58684c11, 0xc1611dab, 0xb6662d3d,
    0x76dc4190, 0x01db7106, 0x98d220bc, 0xefd5102a, 0x71b18589, 0x06b6b51f, 0x9fbfe4a5, 0xe8b8d433,
    0x7807c9a2, 0x0f00f934, 0x9609a88e, 0xe10e9818, 0x7f6a0dbb, 0x086d3d2d, 0x91646c97, 0xe6635c01,
    0x6b6b51f4, 0x1c6c6162, 0x856530d8, 0xf262004e, 0x6c0695ed, 0x1b01a57b, 0x8208f4c1, 0xf50fc457,
    0x65b0d9c6, 0x12b7e950, 0x8bbeb8ea, 0xfcb9887c, 0x62dd1ddf, 0x15da2d49, 0x8cd37cf3, 0xfbd44c65,
    0x4db26158, 0x3ab551ce, 0xa3bc0074, 0xd4bb30e2, 0x4adfa541, 0x3dd895d7, 0xa4d1c46d, 0xd3d6f4fb,
    0x4369e96a, 0x346ed9fc, 0xad678846, 0xda60b8d0, 0x44042d73, 0x33031de5, 0xaa0a4c5f, 0xdd0d7cc9,
    0x5005713c, 0x270241aa, 0xbe0b1010, 0xc90c2086, 0x5768b525, 0x206f85b3, 0xb966d409, 0xce61e49f,
    0x5edef90e, 0x29d9c998, 0xb0d09822, 0xc7d7a8b4, 0x59b33d17, 0x2eb40d81, 0xb7bd5c3b, 0xc0ba6cad,
    0xedb88320, 0x9abfb3b6, 0x03b6e20c, 0x74b1d29a, 0xead54739, 0x9dd277af, 0x04db2615, 0x73dc1683,
    0xe3630b12, 0x94643b84, 0x0d6d6a3e, 0x7a6a5aa8, 0xe40ecf0b, 0x9309ff9d, 0x0a00ae27, 0x7d079eb1,
    0xf00f9344, 0x8708a3d2, 0x1e01f268, 0x6906c2fe, 0xf762575d, 0x806567cb, 0x196c3671, 0x6e6b06e7,
    0xfed41b76, 0x89d32be0, 0x10da7a5a, 0x67dd4acc, 0xf9b9df6f, 0x8ebeeff9, 0x17b7be43, 0x60b08ed5,
    0xd6d6a3e8, 0xa1d1937e, 0x38d8c2c4, 0x4fdff252, 0xd1bb67f1, 0xa6bc5767, 0x3fb506dd, 0x48b2364b,
    0xd80d2bda, 0xaf0a1b4c, 0x36034af6, 0x41047a60, 0xdf60efc3, 0xa867df55, 0x316e8eef, 0x4669be79,
    0xcb61b38c, 0xbc66831a, 0x256fd2a0, 0x5268e236, 0xcc0c7795, 0xbb0b4703, 0x220216b9, 0x5505262f,
    0xc5ba3bbe, 0xb2bd0b28, 0x2bb45a92, 0x5cb36a04, 0xc2d7ffa7, 0xb5d0cf31, 0x2cd99e8b, 0x5bdeae1d,
    0x9b64c2b0, 0xec63f226, 0x756aa39c, 0x026d930a, 0x9c0906a9, 0xeb0e363f, 0x72076785, 0x05005713,
    0x95bf4a82, 0xe2b87a14, 0x7bb12bae, 0x0cb61b38, 0x92d28e9b, 0xe5d5be0d, 0x7cdcefb7, 0x0bdbdf21,
    0x86d3d2d4, 0xf1d4e242, 0x68ddb3f8, 0x1fda836e, 0x81be16cd, 0xf6b9265b, 0x6fb077e1, 0x18b74777,
    0x88085ae6, 0xff0f6a70, 0x66063bca, 0x11010b5c, 0x8f659eff, 0xf862ae69, 0x616bffd3, 0x166ccf45,
    0xa00ae278, 0xd70dd2ee, 0x4e048354, 0x3903b3c2, 0xa7672661, 0xd06016f7, 0x4969474d, 0x3e6e77db,
    0xaed16a4a, 0xd9d65adc, 0x40df0b66, 0x37d83bf0, 0xa9bcae53, 0xdebb9ec5, 0x47b2cf7f, 0x30b5ffe9,
    0xbdbdf21c, 0xcabac28a, 0x53b39330, 0x24b4a3a6, 0xbad03605, 0xcdd70693, 0x54de5729, 0x23d967bf,
    0xb3667a2e, 0xc4614ab8, 0x5d681b02, 0x2a6f2b94, 0xb40bbe37, 0xc30c8ea1, 0x5a05df1b, 0x2d02ef8d]

/-- A turn of the loop of `Crc32`. -/
def crc32Step (crc : UInt32) (b : UInt8) : UInt32 :=
  (crc >>> 8) ^^^ kCrc32Table.getD ((crc ^^^ b.toUInt32) &&& 0xff).toNat 0

/-- `Crc32`; the argument is a C string. -/
def crc32 (str : Bytes) : SizeT := Fin.ofNat _ (~~~(str.foldl crc32Step (~~~0))).toNat

/-- `SHARDING_SPREAD`. -/
def shardingSpread : UInt32 := 10

/-- `nodeRing` at the start of the service. -/
def nodeRing : HashRing Bytes := empty shardingSpread crc32

/-- A second worker, beside one that owns the whole ring. -/
theorem getNode_addNode_localhost :
    ∃ owner, (nodeRing.addNode (ascii "localhost:5522")).getNode (ascii "record") = some owner ∧
      (((nodeRing.addNode (ascii "localhost:5522")).addNode (ascii "localhost:5523")).getNode
          (ascii "record") = some (ascii "localhost:5523") ∨
        ((nodeRing.addNode (ascii "localhost:5522")).addNode (ascii "localhost:5523")).getNode
          (ascii "record") = some owner) :=
  getNode_addNode (nodeRing.addNode (ascii "localhost:5522")) (by decide +kernel)
    (ascii "localhost:5523") (ascii "record")

/-- Three workers; the first two have four ring points in common. -/
def collidingWorkers : List Bytes :=
  [ascii "db5398:5522", ascii "10.0.114.102:5522", ascii "localhost:5522"]

/-- The key `{00000109-0000-a080-8000-000000000000}`. -/
def movedKey : Quid.QuidT := ⟨0x109, 0, 0xa080, 0x80, 0, Vector.replicate 6 0⟩

/-- Removing the first worker moves a record of the second one to the third. -/
theorem not_removedAlone_collidingWorkers :
    collidingWorkers.Nodup ∧ ascii "db5398:5522" ∈ collidingWorkers ∧
      ¬ (nodeRing.addNodes collidingWorkers).RemovedAlone Quid.QuidT (ascii "db5398:5522") := by
  refine ⟨by decide +kernel, by decide +kernel, fun halone => ?_⟩
  have hbefore : (nodeRing.addNodes collidingWorkers).getNode movedKey =
      some (ascii "10.0.114.102:5522") := by decide +kernel
  have hafter : ((nodeRing.addNodes collidingWorkers).removeNode
    (ascii "db5398:5522")).getNode movedKey =
      some (ascii "localhost:5522") := by decide +kernel
  have hkept := halone.kept movedKey _ (by decide +kernel) hbefore
  rw [hafter] at hkept
  exact absurd hkept (by decide +kernel)

/-- Two workers, in order. -/
def inOrder : List (Call Bytes) := [.add (ascii "localhost:5522"), .add (ascii "localhost:5523")]

/-- The same workers in another order, one of them away for a while. -/
def comeAndGone : List (Call Bytes) :=
  [.add (ascii "localhost:5523"), .add (ascii "localhost:5522"), .remove (ascii "localhost:5523"),
    .add (ascii "localhost:5523")]

/-- Both histories route a record to the same worker. -/
theorem getNode_inOrder_eq_comeAndGone :
    (inOrder.foldl step nodeRing).getNode movedKey =
      (comeAndGone.foldl step nodeRing).getNode movedKey := by
  have hdisjoint : ((nodeRing.points (ascii "localhost:5522")).all fun p =>
      !(nodeRing.points (ascii "localhost:5523")).contains p) = true := by decide +kernel
  have hapart : nodeRing.PointsApart {ascii "localhost:5522", ascii "localhost:5523"} := by
    have hleft : ∀ p ∈ nodeRing.points (ascii "localhost:5522"),
        p ∉ nodeRing.points (ascii "localhost:5523") := by
      intro p hp hp'
      have := List.all_eq_true.mp hdisjoint p hp
      rw [List.contains_iff_mem.mpr hp'] at this
      exact absurd this (by decide)
    rintro n (rfl | rfl) n' (rfl | rfl) p hp hp'
    · rfl
    · exact absurd hp' (hleft p hp)
    · exact absurd hp (hleft p hp')
    · rfl
  have hnodes : ∀ call ∈ inOrder ++ comeAndGone,
      call.node ∈ ({ascii "localhost:5522", ascii "localhost:5523"} : Set Bytes) := by
    simp [inOrder, comeAndGone, Call.node]
  refine getNode_eq_of_present_eq hapart
    (run_foldl fun call hcall => hnodes call (List.mem_append_left _ hcall))
    (run_foldl fun call hcall => hnodes call (List.mem_append_right _ hcall)) ?_ movedKey
  have hne : ascii "localhost:5522" ≠ ascii "localhost:5523" := by decide
  ext node
  simp only [inOrder, comeAndGone, present, presentStep, List.foldl_cons, List.foldl_nil,
    Set.mem_insert_iff, Set.mem_sdiff, Set.mem_singleton_iff, Set.mem_empty_iff_false, or_false]
  grind

end HashRing

end Mavicona.Cynder
