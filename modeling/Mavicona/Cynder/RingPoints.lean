import Mathlib.Data.List.Nodup
import Mathlib.Data.Nat.Bitwise
import Mavicona.Common.Crc
import Mavicona.Cynder.HashRing

/-!
# Which points a worker has on the ring

Reference: `cynder/consistent_hash.h`, `common/crc32.h`, `cynder/cynder.cpp` (`main`).

A point of the ring belongs to the last call that reached it. With the CRC of the service two
workers reach a point in common if and only if the CRCs of their names agree in all but the last
four bits, as the number of a replica is one digit and the ten digits differ in four bits only. So
the workers of one host whose names end in three different characters never do, and each of them
keeps its ten points whatever the order in which they come and go.
-/

namespace Mavicona.Cynder

open OrderedMap Bytes Trace Crc

namespace HashRing

/-! ## The last call that reaches a point -/

section Owner

variable {Node : Type*} [Stringify Node] {spread : UInt32} {hash : Bytes → SizeT}

theorem points_step (R : HashRing Node) (call : Call Node) (node : Node) :
    (R.step call).points node = R.points node := by
  cases call <;> rfl

theorem points_foldl (R : HashRing Node) (calls : List (Call Node)) (node : Node) :
    (calls.foldl step R).points node = R.points node := by
  induction calls generalizing R with
  | nil => rfl
  | cons call calls ih => rw [List.foldl_cons, ih, points_step]

/-- The last of the calls that reach the point adds the node. -/
def LastAdded (R : HashRing Node) (calls : List (Call Node)) (p : SizeT) (node : Node) : Prop :=
  ∃ before after, calls = before ++ .add node :: after ∧ p ∈ R.points node ∧
    ∀ call ∈ after, p ∉ R.points call.node

theorem lastAdded_concat {R : HashRing Node} {calls : List (Call Node)} {call : Call Node} {p : SizeT}
    {node : Node} :
    R.LastAdded (calls ++ [call]) p node ↔
      call = .add node ∧ p ∈ R.points node ∨
        R.LastAdded calls p node ∧ p ∉ R.points call.node := by
  constructor
  · rintro ⟨before, after, hcalls, hp, hafter⟩
    rcases List.eq_nil_or_concat after with rfl | ⟨after, last, rfl⟩
    · obtain ⟨-, hlast⟩ := List.append_inj' hcalls rfl
      exact Or.inl ⟨List.singleton_inj.mp hlast, hp⟩
    · rw [List.concat_eq_append, ← List.cons_append, ← List.append_assoc] at hcalls
      obtain ⟨hinit, hlast⟩ := List.append_inj' hcalls rfl
      obtain rfl := List.singleton_inj.mp hlast
      refine Or.inr ⟨⟨before, after, hinit, hp, fun c hc => hafter c ?_⟩, hafter call ?_⟩ <;> simp [*]
  · rintro (⟨rfl, hp⟩ | ⟨⟨before, after, rfl, hp, hafter⟩, hlast⟩)
    · exact ⟨calls, [], rfl, hp, fun _ h => absurd h List.not_mem_nil⟩
    · refine ⟨before, after ++ [call], by simp, hp, fun c hc => ?_⟩
      rcases List.mem_append.mp hc with hc | hc
      · exact hafter c hc
      · rwa [List.mem_singleton.mp hc]

/-- **A point belongs to the last call that reached it.** For every hash function and spread,
after every history of `addNode` and `removeNode` calls, a node has a point of the ring if and only if
the last call that reaches the point is one that adds this node. -/
theorem mem_ring_foldl (calls : List (Call Node)) (p : SizeT) (node : Node) :
    (p, node) ∈ (calls.foldl step (empty spread hash)).ring ↔
      (empty spread hash).LastAdded calls p node := by
  induction calls using List.reverseRecOn with
  | nil => simp [empty, LastAdded]
  | append_singleton calls call ih =>
    rw [List.foldl_concat, lastAdded_concat, ← ih]
    cases call with
    | add n =>
      rw [step, mem_addNode, points_foldl, Call.node, Call.add.injEq]
      constructor
      · rintro (⟨hp, rfl⟩ | hold)
        · exact Or.inl ⟨rfl, hp⟩
        · exact Or.inr hold
      · rintro (⟨rfl, hp⟩ | hold)
        · exact Or.inl ⟨hp, rfl⟩
        · exact Or.inr hold
    | remove n => simp [step, mem_removeNode, points_foldl, Call.node]

end Owner

/-! ## The CRC of a name -/

/-- The polynomial of `kCrc32Table`. -/
def crcPoly : BitVec 32 := 0xedb88320

/-- The register after a name. -/
def register (str : Bytes) : BitVec 32 :=
  feeds crcPoly (BitVec.allOnes 32) (str.map UInt8.toBitVec)

/-- Each word of the table is what eight turns make of its number. -/
theorem kCrc32Table_getD (i : Fin 256) :
    (kCrc32Table.getD i 0).toBitVec = turns crcPoly 8 (BitVec.ofNat 32 i) := by
  revert i
  decide +kernel

theorem toBitVec_crc32Step (crc : UInt32) (b : UInt8) :
    (crc32Step crc b).toBitVec = feed crcPoly crc.toBitVec b.toBitVec := by
  have hbyte : b.toUInt32.toBitVec = b.toBitVec.setWidth 32 := rfl
  set x : BitVec 32 := crc.toBitVec ^^^ b.toBitVec.setWidth 32 with hx
  have hindex : ((crc ^^^ b.toUInt32) &&& 0xff).toNat = (x.setWidth 8).toNat := by
    rw [UInt32.toNat_and, UInt32.toNat_xor, BitVec.toNat_setWidth, hx, BitVec.toNat_xor, ← hbyte]
    exact Nat.and_two_pow_sub_one_eq_mod _ 8
  have hhigh : x >>> 8 = crc.toBitVec >>> 8 := by
    have hzero : b.toBitVec.setWidth 32 >>> 8 = 0#32 := by
      apply BitVec.eq_of_toNat_eq
      have := b.toBitVec.isLt
      simp only [BitVec.toNat_ushiftRight, BitVec.toNat_setWidth, Nat.shiftRight_eq_div_pow]
      show _ = 0
      omega
    rw [hx, BitVec.ushiftRight_xor_distrib, hzero, BitVec.xor_zero]
  have htable := kCrc32Table_getD ⟨(x.setWidth 8).toNat, (x.setWidth 8).isLt⟩
  rw [crc32Step, hindex, feed, ← hx, turns_eight (by decide), hhigh, UInt32.toBitVec_xor, htable]
  congr 2
  apply BitVec.eq_of_toNat_eq
  simp

theorem toBitVec_foldl_crc32Step (crc : UInt32) (str : Bytes) :
    (str.foldl crc32Step crc).toBitVec =
      feeds crcPoly crc.toBitVec (str.map UInt8.toBitVec) := by
  induction str generalizing crc with
  | nil => rfl
  | cons b str ih => rw [List.foldl_cons, ih, toBitVec_crc32Step]; rfl

/-- The checksum is the complement of the register. -/
theorem crc32_val (str : Bytes) : (crc32 str).val = (~~~ register str).toNat := by
  have hreg : (~~~ (str.foldl crc32Step (~~~ 0))).toBitVec = ~~~ register str := by
    rw [UInt32.toBitVec_not, toBitVec_foldl_crc32Step]
    rfl
  rw [crc32, ← hreg]
  exact Nat.mod_eq_of_lt ((UInt32.toNat_lt _).trans (by decide))

theorem crc32_inj {str str' : Bytes} : crc32 str = crc32 str' ↔ register str = register str' := by
  rw [Fin.ext_iff, crc32_val, crc32_val, BitVec.toNat_inj]
  exact BitVec.not_inj

/-! ## The points of two workers -/

variable {n n' : Bytes} {r r' : ℕ}

theorem points_nodeRing (hn : (0 : UInt8) ∉ n) :
    nodeRing.points n = (List.range 10).map fun r => crc32 (n ++ [UInt8.ofNat (48 + r)]) := by
  refine List.map_congr_left fun r hr => ?_
  have hdigit : ∀ r < 10, Stringify.stringify (UInt32.ofNat r) = [UInt8.ofNat (48 + r)] ∧
      (0 : UInt8) ∉ [UInt8.ofNat (48 + r)] := by decide
  obtain ⟨htext, hzero⟩ := hdigit r (List.mem_range.mp hr)
  have hend : (0 : UInt8) ∉ n ++ [UInt8.ofNat (48 + r)] := by
    rw [List.mem_append, not_or]
    exact ⟨hn, hzero⟩
  show crc32 (cstr (n ++ _)) = _
  rw [htext, cstr_eq_self hend]

theorem register_digit (r : ℕ) :
    register (n ++ [UInt8.ofNat (48 + r)]) =
      feed crcPoly (register n) (UInt8.ofNat (48 + r)).toBitVec := by
  rw [register, List.map_append, feeds_append]
  rfl

/-- Two replicas are at one point if the registers of the names differ as their digits do. -/
theorem crc32_digit_eq_iff :
    crc32 (n ++ [UInt8.ofNat (48 + r)]) = crc32 (n' ++ [UInt8.ofNat (48 + r')]) ↔
      register n ^^^ register n' =
        ((UInt8.ofNat (48 + r)).toBitVec ^^^ (UInt8.ofNat (48 + r')).toBitVec).setWidth 32 := by
  rw [crc32_inj, register_digit, register_digit, feed, feed,
    (turns_injective (p := crcPoly) (by decide) 8).eq_iff, BitVec.setWidth_xor]
  generalize (UInt8.ofNat (48 + r)).toBitVec.setWidth 32 = d
  generalize (UInt8.ofNat (48 + r')).toBitVec.setWidth 32 = d'
  have hmove : register n ^^^ d ^^^ (register n' ^^^ d') =
      register n ^^^ register n' ^^^ (d ^^^ d') := by ac_rfl
  rw [← BitVec.xor_eq_zero_iff, hmove, BitVec.xor_eq_zero_iff]

/-- The digits of the replicas differ in the last four bits, and in any of them. -/
theorem digits_near : ∀ r < 10, ∀ r' < 10,
    (((UInt8.ofNat (48 + r)).toBitVec ^^^ (UInt8.ofNat (48 + r')).toBitVec).setWidth 32 :
      BitVec 32).toNat < 2 ^ 4 := by decide

theorem exists_digits : ∀ d < 2 ^ 4, ∃ r < 10, ∃ r' < 10,
    (((UInt8.ofNat (48 + r)).toBitVec ^^^ (UInt8.ofNat (48 + r')).toBitVec).setWidth 32 :
      BitVec 32).toNat = d := by decide

theorem crc32_near_iff :
    (crc32 n).val / 16 = (crc32 n').val / 16 ↔ (register n ^^^ register n').toNat < 2 ^ 4 := by
  have hxor : (crc32 n).val ^^^ (crc32 n').val = (register n ^^^ register n').toNat := by
    rw [crc32_val, crc32_val, ← BitVec.toNat_xor]
    congr 1
    ext i hi
    simp
  rw [← hxor, ← Nat.div_eq_zero_iff_lt (by decide : 0 < 2 ^ 4), ← Nat.shiftRight_eq_div_pow,
    Nat.shiftRight_xor_distrib, Nat.xor_eq_zero_iff, Nat.shiftRight_eq_div_pow,
    Nat.shiftRight_eq_div_pow]

/-- Two workers have a point in common if the CRCs of their names agree up to four bits. -/
theorem exists_mem_points_iff (hn : (0 : UInt8) ∉ n) (hn' : (0 : UInt8) ∉ n') :
    (∃ p, p ∈ nodeRing.points n ∧ p ∈ nodeRing.points n') ↔
      (crc32 n).val / 16 = (crc32 n').val / 16 := by
  rw [points_nodeRing hn, points_nodeRing hn', crc32_near_iff]
  simp only [List.mem_map, List.mem_range]
  constructor
  · rintro ⟨p, ⟨r, hr, rfl⟩, r', hr', heq⟩
    rw [crc32_digit_eq_iff.mp heq.symm]
    exact digits_near r hr r' hr'
  · intro hnear
    obtain ⟨r, hr, r', hr', hd⟩ := exists_digits _ hnear
    exact ⟨_, ⟨r, hr, rfl⟩, r', hr', (crc32_digit_eq_iff.mpr (BitVec.eq_of_toNat_eq hd.symm)).symm⟩

/-- **When workers have no point in common.** For every set of names without a zero byte: no two of
them reach one point of the ring of the service if and only if no two have CRCs that agree in all but
the last four bits. -/
theorem pointsApart_iff_crc32 (S : Set Bytes) (hS : ∀ n ∈ S, (0 : UInt8) ∉ n) :
    nodeRing.PointsApart S ↔
      ∀ n ∈ S, ∀ n' ∈ S, (crc32 n).val / 16 = (crc32 n').val / 16 → n = n' := by
  refine forall₂_congr fun n hn => forall₂_congr fun n' hn' => ?_
  rw [← exists_mem_points_iff (hS n hn) (hS n' hn')]
  constructor
  · rintro h ⟨p, hp, hp'⟩
    exact h p hp hp'
  · intro h p hp hp'
    exact h ⟨p, hp, hp'⟩

/-- The CRCs of two names of different hosts agree in all but one bit. -/
theorem not_pointsApart_db5398 :
    ¬ nodeRing.PointsApart {ascii "db5398:5522", ascii "10.0.114.102:5522"} := by
  have hzero : ∀ n ∈ ({ascii "db5398:5522", ascii "10.0.114.102:5522"} : Set Bytes),
      (0 : UInt8) ∉ n := by
    rintro n (rfl | rfl) <;> decide +kernel
  intro h
  have hsame := (pointsApart_iff_crc32 _ hzero).mp h (ascii "db5398:5522") (Or.inl rfl)
    (ascii "10.0.114.102:5522") (Or.inr rfl) (by decide +kernel)
  exact absurd hsame (by decide)

theorem nodup_points (hn : (0 : UInt8) ∉ n) : (nodeRing.points n).Nodup := by
  rw [points_nodeRing hn]
  refine List.Nodup.map_on (fun r hr r' hr' heq => ?_) List.nodup_range
  have hsame := crc32_digit_eq_iff.mp heq
  rw [BitVec.xor_self] at hsame
  have hdigits : ∀ r < 10, ∀ r' < 10, (0 : BitVec 32) =
      ((UInt8.ofNat (48 + r)).toBitVec ^^^ (UInt8.ofNat (48 + r')).toBitVec).setWidth 32 → r = r' := by
    decide
  exact hdigits r (List.mem_range.mp hr) r' (List.mem_range.mp hr') hsame

/-! ## The workers of one host -/

/-- The names that begin with a host and end in three bytes of their own. -/
def namesOf (host : Bytes) : Set Bytes :=
  {n | (0 : UInt8) ∉ n ∧ ∃ tail : Bytes, tail.length = 3 ∧ n = host ++ tail}

/-- Three bytes and a digit are too few for two CRCs to meet again. -/
theorem pointsApart_namesOf (host : Bytes) : nodeRing.PointsApart (namesOf host) := by
  intro n hn n' hn' p hp hp'
  obtain ⟨hzero, tail, hlen, rfl⟩ := hn
  obtain ⟨hzero', tail', hlen', rfl⟩ := hn'
  have hnear := crc32_near_iff.mp ((exists_mem_points_iff hzero hzero').mp ⟨p, hp, hp'⟩)
  simp only [register, List.map_append, feeds_append] at hnear
  have htails : tail.map UInt8.toBitVec = tail'.map UInt8.toBitVec := by
    refine eq_of_feeds_near (by decide) ?_ ?_ hnear
    · rw [List.length_map, List.length_map, hlen, hlen']
    · rw [List.length_map, hlen]
      decide
  rw [List.map_injective_iff.mpr (fun _ _ => UInt8.toBitVec_inj.mp) htails]

/-- The entries of a node in a ring that holds exactly the points of the nodes that are present. -/
theorem Holds.countP_eq {R : HashRing Bytes} {nodes : Set Bytes} (h : Holds nodeRing R nodes)
    (hn : (0 : UInt8) ∉ n) (hmem : n ∈ nodes) : R.ring.countP (fun e => e.2 = n) = 10 := by
  have hperm : (R.ring.filter fun e => e.2 = n).Perm ((nodeRing.points n).map fun p => (p, n)) := by
    rw [List.perm_ext_iff_of_nodup]
    · rintro ⟨p, node⟩
      simp only [List.mem_filter, List.mem_map, decide_eq_true_eq, h.mem_iff, Prod.mk.injEq]
      grind
    · exact (R.sorted.imp fun hlt heq => hlt.ne (congrArg Prod.fst heq)).filter _
    · exact (nodup_points hn).map fun p p' heq => congrArg Prod.fst heq
  rw [List.countP_eq_length_filter, hperm.length_eq, List.length_map, points_nodeRing hn,
    List.length_map, List.length_range]

/-- **The workers of one host never take points from each other.** In every history of `addNode`
and `removeNode` calls from the start of the service on workers whose names differ in the last
three bytes only, each worker that is present has ten points on the ring and the others have none,
and two histories that leave the same workers present leave the same ring. -/
theorem ring_of_host (host : Bytes) (calls : List (Call Bytes)) (R : HashRing Bytes)
    (hrun : Run step (fun _ call => call.node ∈ namesOf host) nodeRing calls R) :
    (∀ n ∈ present calls, R.ring.countP (fun e => e.2 = n) = 10) ∧
      (∀ e ∈ R.ring, e.2 ∈ present calls) ∧
      ∀ calls' R', Run step (fun _ call => call.node ∈ namesOf host) nodeRing calls' R' →
        present calls' = present calls → R'.ring = R.ring := by
  have hapart := pointsApart_namesOf host
  have hholds : Holds nodeRing R (present calls) := holds_of_run hapart hrun
  have hnames : present calls ⊆ namesOf host := by
    refine hrun.invariant (P := fun calls _ => present calls ⊆ namesOf host) ?_ ?_
    · exact Set.empty_subset _
    · intro calls R call ih hcall
      rw [present, List.foldl_concat]
      exact presentStep_subset ih hcall
  refine ⟨fun n hn => hholds.countP_eq (hnames hn).1 hn, fun e he => ((hholds.mem_iff e).mp he).1, ?_⟩
  intro calls' R' hrun' hsame
  have hholds' : Holds nodeRing R' (present calls') := holds_of_run hapart hrun'
  refine R'.sorted.ext R.sorted fun e => ?_
  rw [hholds'.mem_iff, hholds.mem_iff, hsame]

/-- Two workers of `localhost`, one of which leaves and comes back. -/
theorem ring_of_host_comeAndGone :
    (∀ n ∈ present comeAndGone,
        (comeAndGone.foldl step nodeRing).ring.countP (fun e => e.2 = n) = 10) ∧
      (∀ e ∈ (comeAndGone.foldl step nodeRing).ring, e.2 ∈ present comeAndGone) ∧
      ∀ calls' R',
        Run step (fun _ call => call.node ∈ namesOf (ascii "localhost:5")) nodeRing calls' R' →
        present calls' = present comeAndGone → R'.ring = (comeAndGone.foldl step nodeRing).ring := by
  have hnames : ∀ call ∈ comeAndGone, call.node ∈ namesOf (ascii "localhost:5") := by
    have h22 : ascii "localhost:5522" ∈ namesOf (ascii "localhost:5") :=
      ⟨by decide +kernel, ascii "522", by decide, by decide⟩
    have h23 : ascii "localhost:5523" ∈ namesOf (ascii "localhost:5") :=
      ⟨by decide +kernel, ascii "523", by decide, by decide⟩
    intro call hcall
    simp only [comeAndGone, List.mem_cons, List.not_mem_nil, or_false] at hcall
    rcases hcall with rfl | rfl | rfl | rfl
    exacts [h23, h22, h23, h23]
  exact ring_of_host (ascii "localhost:5") comeAndGone _ (run_foldl hnames)

end HashRing

end Mavicona.Cynder
