import Mavicona.Common.ChainedHash
import Mavicona.Par.Lists

/-!
# Hash tables of lists

Reference: `par/libtar_hash.c`, `par/libtar_listhash.h`.

A bucket is a list of nodes that is made when its first element is added, and a pointer into the table
is a bucket and a node of it. `HashOf` connects a table and a heap to the nodes of every bucket; every
call keeps it, and the data in the buckets are a table of `ChainedHash`, from which the elements of the
archives' tables are read and to which they are added.
-/

namespace Mavicona.Par

open LinkedList Trace

/-- `libtar_hash_t`. -/
structure LibtarHash where
  numbuckets : ℕ
  table : ℕ → Option LibtarList
  nents : UInt32

/-- `libtar_hashptr_t`, where bucket -1 is none. -/
@[ext]
structure HashPtr where
  bucket : Option ℕ
  node : Option ℕ
  deriving DecidableEq

/-- Another list in a bucket. -/
def LibtarHash.setList (H : LibtarHash) (b : ℕ) (l : LibtarList) : LibtarHash :=
  { H with table := Function.update H.table b (some l) }

section Calls

variable {α κ : Type} (strcmp : α → α → ℤ) (hashfunc : κ → ℕ) (key : α → κ) (fuel : ℕ)

/-- `libtar_hash_add`, where `calloc` tells whether there is memory for the list of the bucket, if it
has none yet. The table has no bucket from `numbuckets` on. -/
def libtarHashAdd (calloc : Bool) (malloc : Option ℕ) (data : α) (H : LibtarHash) (h : Heap α) :
    Option (Bool × LibtarHash × Heap α) :=
  let bucket := hashfunc (key data)
  if bucket < H.numbuckets then
    match (H.table bucket).or (if calloc then some (libtarListNew .queue) else none) with
    | some l => do
      let (ok, l, h) ← libtarListAdd strcmp fuel malloc data l h
      let H := H.setList bucket l
      some (ok, if ok then { H with nents := H.nents + 1 } else H, h)
    -- `libtar_list_add` of a null pointer, which it follows once it has a node
    | none => if malloc = none then some (false, H, h) else none
  else none

/-- `libtar_hash_del`. -/
def libtarHashDel (hp : HashPtr) (H : LibtarHash) (h : Heap α) :
    Option (Bool × HashPtr × LibtarHash × Heap α) :=
  match hp.bucket, hp.node with
  | some b, some n =>
    if b < H.numbuckets then
      match H.table b with
      | none => some (false, hp, H, h)
      | some l => do
        let (m, l, h) ← libtarListDel n l h
        let H := H.setList b l
        some (true, ⟨some b, m⟩, { H with nents := H.nents - 1 }, h)
    else some (false, hp, H, h)
  | _, _ => some (false, hp, H, h)

/-- A bucket is emptied by `libtar_hash_empty`. -/
def emptyBucket (s : LibtarHash × Heap α) (b : ℕ) : Option (LibtarHash × Heap α) :=
  match s.1.table b with
  | none => some s
  | some l => (libtarListEmpty fuel l s.2).map fun (l, h) => (s.1.setList b l, h)

/-- `libtar_hash_empty`. -/
def libtarHashEmpty (H : LibtarHash) (h : Heap α) : Option (LibtarHash × Heap α) := do
  let (H, h) ← (List.range H.numbuckets).foldlM (emptyBucket fuel) (H, h)
  some ({ H with nents := 0 }, h)

end Calls

/-! ## What a table has -/

section Tables

variable {α κ : Type}

/-- The table and the heap hold the nodes of every bucket. -/
structure HashOf (h : Heap α) (H : LibtarHash) (cells : ℕ → List (ℕ × α)) : Prop where
  lists : ∀ b l, H.table b = some l → ListOf h l (cells b) ∧ l.flags = .queue
  unused : ∀ b, H.table b = none → cells b = []
  outside : ∀ b, H.numbuckets ≤ b → H.table b = none
  apart : ∀ a b, a ≠ b → ∀ n ∈ (cells a).map Prod.fst, n ∉ (cells b).map Prod.fst

variable {h h' : Heap α} {H : LibtarHash} {cells : ℕ → List (ℕ × α)} {cs : List (ℕ × α)}
  {c : ℕ × α} {n b : ℕ} {l : LibtarList} {x : α} {fuel : ℕ}

theorem table_setList_self : (H.setList b l).table b = some l := Function.update_self ..

theorem table_setList_of_ne {a : ℕ} (hab : a ≠ b) : (H.setList b l).table a = H.table a :=
  Function.update_of_ne hab ..

theorem HashOf.listOf_getD (hH : HashOf h H cells) (b : ℕ) :
    ListOf h ((H.table b).getD (libtarListNew .queue)) (cells b) ∧
      ((H.table b).getD (libtarListNew .queue)).flags = .queue := by
  cases htable : H.table b with
  | some l => exact hH.lists b l htable
  | none =>
    rw [hH.unused b htable]
    exact ⟨⟨trivial, List.nodup_nil, rfl, fun hne => absurd rfl hne, rfl⟩, rfl⟩

theorem HashOf.exists_list (hH : HashOf h H cells) (hc : c ∈ cells b) :
    ∃ l, H.table b = some l := by
  refine Option.ne_none_iff_exists'.mp fun hnone => ?_
  rw [hH.unused b hnone] at hc
  exact List.not_mem_nil hc

theorem HashOf.lt_numbuckets (hH : HashOf h H cells) (htable : H.table b = some l) :
    b < H.numbuckets := by
  by_contra hnot
  rw [hH.outside b (Nat.le_of_not_lt hnot)] at htable
  exact absurd htable.symm (Option.some_ne_none l)

/-- Another list in one bucket, whose nodes are in no other one. -/
theorem HashOf.setList (hH : HashOf h H cells) (hb : b < H.numbuckets) (hl : ListOf h' l cs)
    (hflags : l.flags = .queue)
    (hothers : ∀ a, a ≠ b → ∀ n ∈ (cells a).map Prod.fst, n ∉ cs.map Prod.fst ∧ h' n = h n) :
    HashOf h' (H.setList b l) (Function.update cells b cs) where
  lists a l' htable := by
    by_cases hab : a = b
    · subst hab
      rw [table_setList_self] at htable
      rw [Function.update_self, ← Option.some.inj htable]
      exact ⟨hl, hflags⟩
    · rw [table_setList_of_ne hab] at htable
      rw [Function.update_of_ne hab]
      obtain ⟨hold, hflags'⟩ := hH.lists a l' htable
      exact ⟨{ hold with
        linked := hold.linked.frame fun c hc => (hothers a hab _ (List.mem_map_of_mem hc)).2 }, hflags'⟩
  unused a htable := by
    by_cases hab : a = b
    · subst hab
      rw [table_setList_self] at htable
      exact absurd htable (Option.some_ne_none l)
    · rw [table_setList_of_ne hab] at htable
      rw [Function.update_of_ne hab, hH.unused a htable]
  outside a ha := by
    have hab : a ≠ b := fun heq => Nat.not_lt_of_le ha (heq ▸ hb)
    rw [table_setList_of_ne hab]
    exact hH.outside a ha
  apart a a' hne m hm := by
    by_cases hab : a = b
    · subst hab
      rw [Function.update_self] at hm
      rw [Function.update_of_ne hne.symm]
      exact fun hm' => (hothers a' hne.symm m hm').1 hm
    · rw [Function.update_of_ne hab] at hm
      by_cases hab' : a' = b
      · subst hab'
        rw [Function.update_self]
        exact (hothers a hab m hm).1
      · rw [Function.update_of_ne hab']
        exact hH.apart a a' hne m hm

section Change

variable {strcmp : α → α → ℤ} {hashfunc : κ → ℕ} {key : α → κ}

/-- **An element is added** at the end of its bucket. -/
theorem libtarHashAdd_eq (strcmp : α → α → ℤ) (hH : HashOf h H cells)
    (hn : ∀ b, n ∉ (cells b).map Prod.fst) (hb : hashfunc (key x) < H.numbuckets)
    (hfuel : (cells (hashfunc (key x))).length ≤ fuel) :
    ∃ H' h', libtarHashAdd strcmp hashfunc key fuel true (some n) x H h = some (true, H', h') ∧
      HashOf h' H' (Function.update cells (hashfunc (key x)) (cells (hashfunc (key x)) ++ [(n, x)])) ∧
      H'.numbuckets = H.numbuckets ∧ H'.nents = H.nents + 1 ∧
      ∀ a ∉ (cells (hashfunc (key x)) ++ [(n, x)]).map Prod.fst, h' a = h a := by
  set b := hashfunc (key x) with hbucket
  obtain ⟨hl, hflags⟩ := hH.listOf_getD b
  obtain ⟨l', h', hadd, hl', hflags', hframe⟩ := libtarListAdd_eq strcmp x hl (hn b) hfuel
  rw [hflags] at hl' hframe hflags'
  have hothers : ∀ a, a ≠ b → ∀ m ∈ (cells a).map Prod.fst,
      m ∉ (cells b ++ [(n, x)]).map Prod.fst ∧ h' m = h m := by
    intro a hab m hm
    have hout : m ∉ (cells b ++ [(n, x)]).map Prod.fst := by
      rw [List.map_append, List.mem_append, not_or]
      refine ⟨hH.apart a b hab m hm, fun hmn => hn a ?_⟩
      obtain rfl : m = n := List.mem_singleton.mp hmn
      exact hm
    exact ⟨hout, hframe m hout⟩
  have hH' := hH.setList hb hl' hflags' hothers
  refine ⟨{ H.setList b l' with nents := H.nents + 1 }, h', ?_, ⟨hH'.1, hH'.2, hH'.3, hH'.4⟩, rfl, rfl,
    hframe⟩
  simp only [libtarHashAdd, ← hbucket, if_pos hb, if_true, Option.or_some, hadd, Option.bind_eq_bind,
    Option.bind_some]
  rfl

/-- Without memory for the node the call fails; the list of the bucket may have been made. -/
theorem libtarHashAdd_none (strcmp : α → α → ℤ) (fuel : ℕ) (calloc : Bool) (hH : HashOf h H cells)
    (hb : hashfunc (key x) < H.numbuckets) :
    ∃ H', libtarHashAdd strcmp hashfunc key fuel calloc none x H h = some (false, H', h) ∧
      HashOf h H' cells ∧ H'.numbuckets = H.numbuckets ∧ H'.nents = H.nents := by
  have hmade : ∀ l, ListOf h l (cells (hashfunc (key x))) → l.flags = .queue →
      HashOf h (H.setList (hashfunc (key x)) l) cells := by
    intro l hl hflags
    have hH' := hH.setList hb hl hflags fun a hab m hm => ⟨hH.apart a _ hab m hm, rfl⟩
    rwa [Function.update_eq_self] at hH'
  simp only [libtarHashAdd, if_pos hb, libtarListAdd, Option.bind_eq_bind, Option.bind_some]
  cases calloc with
  | true =>
    obtain ⟨hl, hflags⟩ := hH.listOf_getD (hashfunc (key x))
    simp only [if_true, Option.or_some]
    exact ⟨_, rfl, hmade _ hl hflags, rfl, rfl⟩
  | false =>
    cases htable : H.table (hashfunc (key x)) with
    | none => exact ⟨H, rfl, hH, rfl, rfl⟩
    | some l =>
      obtain ⟨hl, hflags⟩ := hH.lists _ l htable
      exact ⟨_, rfl, hmade l hl hflags, rfl, rfl⟩

/-- **An element is deleted.** -/
theorem libtarHashDel_eq {before behind : List (ℕ × α)} (hH : HashOf h H cells)
    (hcells : cells b = before ++ c :: behind) :
    ∃ H' h', libtarHashDel ⟨some b, some c.1⟩ H h = some (true, ⟨some b, first behind⟩, H', h') ∧
      HashOf h' H' (Function.update cells b (before ++ behind)) ∧ H'.numbuckets = H.numbuckets ∧
      H'.nents = H.nents - 1 ∧ h' c.1 = none ∧ ∀ a ∉ (cells b).map Prod.fst, h' a = h a := by
  obtain ⟨l, htable⟩ := hH.exists_list (show c ∈ cells b by rw [hcells]; simp)
  have hb := hH.lt_numbuckets htable
  obtain ⟨hl, hflags⟩ := hH.lists b l htable
  rw [hcells] at hl
  obtain ⟨l', h', hdel, hl', hflags', hgone, hframe⟩ := libtarListDel_eq hl
  rw [← hcells] at hframe
  have hothers : ∀ a, a ≠ b → ∀ m ∈ (cells a).map Prod.fst,
      m ∉ (before ++ behind).map Prod.fst ∧ h' m = h m := by
    intro a hab m hm
    have hout := hH.apart a b hab m hm
    refine ⟨fun hin => hout ?_, hframe m hout⟩
    rw [hcells, List.map_append, List.map_cons, List.mem_append, List.mem_cons, or_left_comm,
      ← List.mem_append, ← List.map_append]
    exact Or.inr hin
  have hH' := hH.setList hb hl' (hflags'.trans hflags) hothers
  refine ⟨{ H.setList b l' with nents := H.nents - 1 }, h', ?_, ⟨hH'.1, hH'.2, hH'.3, hH'.4⟩, rfl, rfl,
    hgone, hframe⟩
  simp only [libtarHashDel, if_pos hb, htable, hdel, Option.bind_eq_bind, Option.bind_some]
  rfl

/-- What a bucket has before and after the loop of `libtar_hash_empty`. -/
theorem emptyBucket_eq (hH : HashOf h H cells) (hfuel : (cells b).length ≤ fuel) :
    ∃ H' h', emptyBucket fuel (H, h) b = some (H', h') ∧
      HashOf h' H' (Function.update cells b []) ∧ H'.numbuckets = H.numbuckets ∧
      ∀ a, h' a = if a ∈ (cells b).map Prod.fst then none else h a := by
  cases htable : H.table b with
  | none =>
    have hcells := hH.unused b htable
    refine ⟨H, h, ?_, ?_, rfl, fun a => ?_⟩
    · simp only [emptyBucket, htable]
    · rwa [← hcells, Function.update_eq_self]
    · rw [hcells]
      rfl
  | some l =>
    have hb := hH.lt_numbuckets htable
    obtain ⟨hl, hflags⟩ := hH.lists b l htable
    obtain ⟨l', h', hempty, hl', hflags', hheap⟩ := libtarListEmpty_eq hl hfuel
    have hothers : ∀ a, a ≠ b → ∀ m ∈ (cells a).map Prod.fst,
        m ∉ ([] : List (ℕ × α)).map Prod.fst ∧ h' m = h m := by
      intro a hab m hm
      refine ⟨List.not_mem_nil, ?_⟩
      rw [hheap, if_neg (hH.apart a b hab m hm)]
    refine ⟨H.setList b l', h', ?_, hH.setList hb hl' (hflags'.trans hflags) hothers, rfl, hheap⟩
    simp only [emptyBucket, htable, hempty, Option.map_some]

/-- **A table is emptied.** -/
theorem libtarHashEmpty_eq (hH : HashOf h H cells) (hfuel : ∀ b, (cells b).length ≤ fuel) :
    ∃ H' h', libtarHashEmpty fuel H h = some (H', h') ∧ HashOf h' H' (fun _ => []) ∧
      H'.numbuckets = H.numbuckets ∧ H'.nents = 0 ∧
      (∀ b, ∀ a ∈ (cells b).map Prod.fst, h' a = none) ∧
      ∀ a, (∀ b, a ∉ (cells b).map Prod.fst) → h' a = h a := by
  have hloop : ∀ k, ∃ H' h', (List.range k).foldlM (emptyBucket fuel) (H, h) = some (H', h') ∧
      HashOf h' H' (fun b => if b < k then [] else cells b) ∧ H'.numbuckets = H.numbuckets ∧
      (∀ b < k, ∀ a ∈ (cells b).map Prod.fst, h' a = none) ∧
      ∀ a, (∀ b, a ∉ (cells b).map Prod.fst) → h' a = h a := by
    intro k
    induction k with
    | zero => exact ⟨H, h, rfl, by simpa using hH, rfl, nofun, fun _ _ => rfl⟩
    | succ k ih =>
      obtain ⟨H₁, h₁, hfold, hH₁, hnum, hfreed, hkept⟩ := ih
      have hk : (if k < k then [] else cells k) = cells k := if_neg (Nat.lt_irrefl k)
      obtain ⟨H', h', hempty, hH', hnum', hheap⟩ := emptyBucket_eq (b := k) hH₁
        ((congrArg List.length hk).trans_le (hfuel k))
      rw [hk] at hheap
      refine ⟨H', h', ?_, ?_, hnum'.trans hnum, fun b hb a ha => ?_, fun a ha => ?_⟩
      · rw [List.range_succ, List.foldlM_append, hfold]
        simp only [Option.bind_eq_bind, Option.bind_some, List.foldlM_cons, List.foldlM_nil, hempty]
        rfl
      · have hcells : Function.update (fun b => if b < k then [] else cells b) k [] =
            fun b => if b < k + 1 then [] else cells b := by
          funext b
          by_cases hb : b = k
          · subst hb
            rw [Function.update_self, if_pos (Nat.lt_succ_self b)]
          · rw [Function.update_of_ne hb]
            exact if_congr (by omega) rfl rfl
        rwa [← hcells]
      · rw [hheap]
        split_ifs with hak
        · rfl
        · rcases Nat.lt_succ_iff_lt_or_eq.mp hb with hlt | rfl
          · exact hfreed b hlt a ha
          · exact absurd ha hak
      · rw [hheap, if_neg (ha k), hkept a ha]
  obtain ⟨H', h', hfold, hH', hnum, hfreed, hkept⟩ := hloop H.numbuckets
  have houtside : ∀ b, H.numbuckets ≤ b → cells b = [] := fun b hb => hH.unused b (hH.outside b hb)
  have hcells : (fun b => if b < H.numbuckets then [] else cells b) = fun _ => [] := by
    funext b
    split_ifs with hb
    · rfl
    · exact houtside b (Nat.le_of_not_lt hb)
  rw [hcells] at hH'
  refine ⟨{ H' with nents := 0 }, h', ?_, ⟨hH'.1, hH'.2, hH'.3, hH'.4⟩, hnum, rfl, fun b a ha => ?_,
    hkept⟩
  · simp only [libtarHashEmpty, hfold, Option.bind_eq_bind, Option.bind_some]
  · refine hfreed b (Nat.lt_of_not_le fun hb => ?_) a ha
    rw [houtside b hb] at ha
    exact List.not_mem_nil ha

end Change

/-! ## Walks -/

section Walks

end Walks

/-! ## All calls -/

/-- A call that changes a table, with what `calloc` and `malloc` give; an element is deleted where a
pointer is. -/
inductive HashCall (α : Type)
  | add (calloc : Bool) (malloc : Option ℕ) (data : α)
  | del (b n : ℕ)
  | empty

section Runs

/-- The table after a call. -/
def HashCall.run (strcmp : α → α → ℤ) (hashfunc : κ → ℕ) (key : α → κ) (fuel : ℕ) :
    LibtarHash × Heap α → HashCall α → Option (LibtarHash × Heap α)
  | (H, h), .add calloc malloc data =>
    (libtarHashAdd strcmp hashfunc key fuel calloc malloc data H h).map fun res => res.2
  | (H, h), .del b n => (libtarHashDel ⟨some b, some n⟩ H h).map fun res => res.2.2
  | (H, h), .empty => libtarHashEmpty fuel H h

/-- The nodes of the buckets after a call. -/
def cellsAfter (hashfunc : κ → ℕ) (key : α → κ) (cells : ℕ → List (ℕ × α)) :
    HashCall α → ℕ → List (ℕ × α)
  | .add _ none _ => cells
  | .add _ (some n) x =>
    Function.update cells (hashfunc (key x)) (cells (hashfunc (key x)) ++ [(n, x)])
  | .del b n => Function.update cells b ((cells b).filter fun c => c.1 ≠ n)
  | .empty => fun _ => []

/-- Where `malloc` has memory for a node it is memory that nobody has, and `calloc` has memory for the
list; and a pointer is at a node of its bucket. -/
def HashAllowed (h₀ : Heap α) (cells : ℕ → List (ℕ × α)) : HashCall α → Prop
  | .add _ none _ => True
  | .add calloc (some n) _ => calloc = true ∧ h₀ n = none ∧ ∀ b, n ∉ (cells b).map Prod.fst
  | .del b n => n ∈ (cells b).map Prod.fst
  | .empty => True

variable {calloc : Bool} {hashfunc : κ → ℕ} {key : α → κ} {num : ℕ} {h₀ : Heap α} {calls : List (HashCall α)}
  {call : HashCall α}

/-- The nodes of all buckets, when those of one of them change. -/
theorem length_flatMap_update (cells : ℕ → List (ℕ × α)) (cs : List (ℕ × α)) {bs : List ℕ}
    (hb : b ∈ bs) (hnodup : bs.Nodup) :
    (bs.flatMap (Function.update cells b cs)).length + (cells b).length =
      (bs.flatMap cells).length + cs.length := by
  have hsame : ∀ as : List ℕ, b ∉ as → as.flatMap (Function.update cells b cs) = as.flatMap cells := by
    intro as has
    refine List.flatMap_congr fun a ha => Function.update_of_ne ?_ _ _
    rintro rfl
    exact has ha
  obtain ⟨before, behind, rfl⟩ := List.append_of_mem hb
  rw [List.nodup_middle, List.nodup_cons, List.mem_append, not_or] at hnodup
  obtain ⟨⟨hbefore, hbehind⟩, -⟩ := hnodup
  rw [List.flatMap_append, List.flatMap_append, List.flatMap_cons, List.flatMap_cons,
    hsame before hbefore, hsame behind hbehind, Function.update_self]
  simp only [List.length_append]
  omega

theorem mem_cellsAfter_add {m : ℕ} :
    m ∈ (cellsAfter hashfunc key cells (.add calloc (some n) x) b).map Prod.fst ↔
      m ∈ (cells b).map Prod.fst ∨ b = hashfunc (key x) ∧ m = n := by
  by_cases hb : b = hashfunc (key x)
  · subst hb
    rw [cellsAfter, Function.update_self, List.map_append, List.mem_append, List.map_singleton,
      List.mem_singleton, and_iff_right rfl]
  · rw [cellsAfter, Function.update_of_ne hb, or_iff_left fun h => hb h.1]

/-- What a table and a heap have after calls. -/
structure AfterHashCalls (num : ℕ) (h₀ : Heap α) (calls : List (HashCall α))
    (cells : ℕ → List (ℕ × α)) (H : LibtarHash) (h : Heap α) : Prop where
  hashOf : HashOf h H cells
  numbuckets : H.numbuckets = num
  nents : H.nents = UInt32.ofNat ((List.range' 0 num).flatMap cells).length
  length : ((List.range' 0 num).flatMap cells).length ≤ calls.length
  fresh : ∀ b, ∀ n ∈ (cells b).map Prod.fst, h₀ n = none
  frame : ∀ a, (∀ b, a ∉ (cells b).map Prod.fst) → h a = h₀ a

theorem mem_buckets (hb : b < num) : b ∈ List.range' 0 num :=
  List.mem_range'_1.mpr ⟨Nat.zero_le b, by rwa [Nat.zero_add]⟩

/-- No bucket has more nodes than there were calls. -/
theorem AfterHashCalls.length_cells {H : LibtarHash} {h : Heap α}
    (ha : AfterHashCalls num h₀ calls cells H h) (b : ℕ) : (cells b).length ≤ calls.length := by
  rcases Nat.lt_or_ge b num with hb | hb
  · have hlength := length_flatMap_update cells [] (mem_buckets hb) List.nodup_range'
    have htotal := ha.length
    rw [List.length_nil] at hlength
    omega
  · rw [ha.hashOf.unused b (ha.hashOf.outside b (ha.numbuckets ▸ hb))]
    exact Nat.zero_le _

/-- A call keeps it. -/
theorem AfterHashCalls.step {H : LibtarHash} {h : Heap α} (strcmp : α → α → ℤ)
    (ha : AfterHashCalls num h₀ calls cells H h) (hbound : ∀ k, hashfunc k < num)
    (hok : HashAllowed h₀ cells call) (hfuel : calls.length ≤ fuel) :
    ∃ H' h', HashCall.run strcmp hashfunc key fuel (H, h) call = some (H', h') ∧
      AfterHashCalls num h₀ (calls ++ [call]) (cellsAfter hashfunc key cells call) H' h' := by
  have hcalls : (calls ++ [call]).length = calls.length + 1 := List.length_append
  have hlength := ha.length
  have hbucket : ∀ b, (cells b).length ≤ fuel := fun b => (ha.length_cells b).trans hfuel
  cases call with
  | add calloc malloc x =>
    have hb : hashfunc (key x) < H.numbuckets := ha.numbuckets ▸ hbound (key x)
    cases malloc with
    | none =>
      obtain ⟨H', hadd, hH', hnum, hnents⟩ := libtarHashAdd_none strcmp fuel calloc ha.hashOf hb
      refine ⟨H', h, ?_, hH', hnum.trans ha.numbuckets, hnents.trans ha.nents, ?_, ha.fresh, ha.frame⟩
      · rw [HashCall.run, hadd, Option.map_some]
      · rw [hcalls]
        exact Nat.le_succ_of_le hlength
    | some n =>
      obtain ⟨rfl, hnew, hnode⟩ := hok
      obtain ⟨H', h', hadd, hH', hnum, hnents, hframe⟩ :=
        libtarHashAdd_eq strcmp ha.hashOf hnode hb (hbucket _)
      have hupdate := length_flatMap_update cells (cells (hashfunc (key x)) ++ [(n, x)])
        (mem_buckets (hbound (key x))) List.nodup_range'
      rw [List.length_append, List.length_singleton] at hupdate
      have htotal : ((List.range' 0 num).flatMap (cellsAfter hashfunc key cells
          (.add true (some n) x))).length = ((List.range' 0 num).flatMap cells).length + 1 := by
        rw [cellsAfter]
        omega
      refine ⟨H', h', ?_, hH', hnum.trans ha.numbuckets, ?_, ?_, fun b m hm => ?_, fun a hout => ?_⟩
      · rw [HashCall.run, hadd, Option.map_some]
      · rw [hnents, ha.nents, htotal, UInt32.ofNat_add]
        rfl
      · rw [htotal, hcalls]
        exact Nat.succ_le_succ hlength
      · rcases mem_cellsAfter_add.mp hm with hm | ⟨-, rfl⟩
        · exact ha.fresh b m hm
        · exact hnew
      · have hbucket' := hout (hashfunc (key x))
        rw [cellsAfter, Function.update_self] at hbucket'
        rw [hframe a hbucket', ha.frame a fun b hb => hout b (mem_cellsAfter_add.mpr (Or.inl hb))]
  | del b n =>
    obtain ⟨c, hc, rfl⟩ := List.mem_map.mp hok
    obtain ⟨before, behind, hcells⟩ := List.append_of_mem hc
    obtain ⟨H', h', hdel, hH', hnum, hnents, hgone, hframe⟩ := libtarHashDel_eq ha.hashOf hcells
    have hb : b < num := by
      by_contra hnot
      have hnone := ha.hashOf.outside b (ha.numbuckets.symm ▸ Nat.le_of_not_lt hnot)
      rw [ha.hashOf.unused b hnone] at hc
      exact List.not_mem_nil hc
    obtain ⟨l, htable⟩ := ha.hashOf.exists_list hc
    have hnodup := (ha.hashOf.lists b l htable).1.nodup
    rw [hcells] at hnodup
    have hafter : cellsAfter hashfunc key cells (.del b c.1) =
        Function.update cells b (before ++ behind) := by
      rw [cellsAfter, hcells, filter_ne_of_nodup hnodup]
    have hupdate := length_flatMap_update cells (before ++ behind) (mem_buckets hb) List.nodup_range'
    rw [hcells, List.length_append, List.length_append, List.length_cons] at hupdate
    have htotal : ((List.range' 0 num).flatMap
        (cellsAfter hashfunc key cells (.del b c.1))).length + 1 =
          ((List.range' 0 num).flatMap cells).length := by
      rw [hafter]
      omega
    have hmem : ∀ a m, m ∈ (cells a).map Prod.fst →
        m ∈ (cellsAfter hashfunc key cells (.del b c.1) a).map Prod.fst ∨ m = c.1 := by
      intro a m hm
      rw [hafter]
      by_cases hab : a = b
      · subst hab
        rw [hcells, List.map_append, List.map_cons, List.mem_append, List.mem_cons, or_left_comm,
          or_comm, ← List.mem_append, ← List.map_append] at hm
        rwa [Function.update_self]
      · rw [Function.update_of_ne hab]
        exact Or.inl hm
    have hsub : ∀ a m, m ∈ (cellsAfter hashfunc key cells (.del b c.1) a).map Prod.fst →
        m ∈ (cells a).map Prod.fst := by
      intro a m hm
      by_cases hab : a = b
      · subst hab
        rw [cellsAfter, Function.update_self] at hm
        exact (List.filter_sublist.map Prod.fst).subset hm
      · rwa [cellsAfter, Function.update_of_ne hab] at hm
    refine ⟨H', h', ?_, hafter ▸ hH', hnum.trans ha.numbuckets, ?_, ?_, fun a m hm => ?_,
      fun a hout => ?_⟩
    · rw [HashCall.run, hdel, Option.map_some]
    · rw [hnents, ha.nents, ← htotal, UInt32.ofNat_add]
      exact UInt32.add_sub_cancel _ _
    · rw [hcalls]
      omega
    · exact ha.fresh a m (hsub a m hm)
    · by_cases hac : a = c.1
      · rw [hac, hgone, ha.fresh b c.1 hok]
      · have hnone : ∀ b, a ∉ (cells b).map Prod.fst := fun b' hb' =>
          (hmem b' a hb').elim (hout b') hac
        rw [hframe a (hnone b), ha.frame a hnone]
  | empty =>
    obtain ⟨H', h', hempty, hH', hnum, hnents, hfreed, hkept⟩ := libtarHashEmpty_eq ha.hashOf hbucket
    have hnone : (List.range' 0 num).flatMap (fun _ => ([] : List (ℕ × α))) = [] :=
      List.flatMap_eq_nil_iff.mpr fun _ _ => rfl
    refine ⟨H', h', hempty, hH', hnum.trans ha.numbuckets, ?_, ?_, fun _ _ => nofun, fun a _ => ?_⟩
    · rw [hnents, cellsAfter, hnone]
      rfl
    · rw [cellsAfter, hnone]
      exact Nat.zero_le _
    · by_cases hout : ∀ b, a ∉ (cells b).map Prod.fst
      · rw [hkept a hout, ha.frame a hout]
      · obtain ⟨b, hb⟩ := not_forall_not.mp hout
        rw [hfreed b a hb, ha.fresh b a hb]

end Runs

end Tables

end Mavicona.Par
