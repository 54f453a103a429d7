import Mathlib.Data.Int.Notation
import Mathlib.Data.List.TakeWhile
import Mavicona.Common.LinkedList
import Mavicona.Common.Run

/-!
# Lists of nodes

Reference: `par/libtar_list.c`, `par/libtar_listhash.h`.

A list is a header that points to its first and its last node, and the nodes are linked both ways.
`Represents` connects a header and a heap to the nodes in their order; every call keeps it and does
not touch what is not in the list. `libtar_list_empty` leaves `last` as it was, so that it is only
known where the list has a node.
-/

namespace Mavicona.Par

open LinkedList Trace

/-- `flags` of a list. -/
inductive ListFlags
  | userfunc
  | stack
  | queue
  deriving DecidableEq

/-- `libtar_list_t`. -/
structure LibtarList where
  first : Option ℕ
  last : Option ℕ
  flags : ListFlags
  nents : UInt32

/-- `libtar_list_new`. -/
def libtarListNew (flags : ListFlags) : LibtarList := ⟨none, none, flags, 0⟩

section Calls

variable {α : Type} (cmpfunc : α → α → ℤ) (fuel : ℕ)

/-- `libtar_list_add`, where `malloc` gives the address of the node or fails. `none` is an access to an
address without a node. -/
def libtarListAdd (malloc : Option ℕ) (data : α) (l : LibtarList) (h : Heap α) :
    Option (Bool × LibtarList × Heap α) :=
  match malloc with
  | none => some (false, l, h)
  | some n =>
    let h := alloc n ⟨data, none, none⟩ h
    let l := { l with nents := l.nents + 1 }
    match l.first with
    | none => some (true, { l with first := some n, last := some n }, h)
    | some first =>
      match l.flags with
      | .stack => do
        let h ← setNext n (some first) h
        let h ← setPrev first (some n) h
        some (true, { l with first := some n }, h)
      | .queue => do
        let h ← setPrev n l.last h
        let h ← match l.last with
          | some last => setNext last (some n) h
          | none => some h
        some (true, { l with last := some n }, h)
      | .userfunc => do
        match ← scan (fun data' => cmpfunc data data' < 0) h fuel (some first) with
        | some m =>
          if m = first then
            let h ← setPrev m (some n) h
            let h ← setNext n (some m) h
            some (true, { l with first := some n }, h)
          else
            let node ← h m
            let p ← node.prev
            let h ← setNext p (some n) h
            let h ← setPrev n (some p) h
            let h ← setPrev m (some n) h
            let h ← setNext n (some m) h
            some (true, l, h)
        | none =>
          let last ← l.last
          let h ← setNext last (some n) h
          let h ← setPrev n (some last) h
          some (true, { l with last := some n }, h)

/-- `libtar_list_del`: the node behind the one that is deleted, and what is left. -/
def libtarListDel (n : ℕ) (l : LibtarList) (h : Heap α) : Option (Option ℕ × LibtarList × Heap α) := do
  let node ← h n
  let (l, h) ← match node.prev with
    | some p => (setNext p node.next h).map fun h => ({ l with nents := l.nents - 1 }, h)
    | none => some ({ l with nents := l.nents - 1, first := node.next }, h)
  let (l, h) ← match node.next with
    | some m => (setPrev m node.prev h).map fun h => (l, h)
    | none => some ({ l with last := node.prev }, h)
  some (node.next, l, free n h)

/-- `libtar_list_next`; the result is 1 if the pointer is not null. -/
def libtarListNext (l : LibtarList) (h : Heap α) : Option ℕ → Option (Option ℕ)
  | none => some l.first
  | some n => (h n).map Cell.next

/-- `libtar_list_prev`; the result is 1 if the pointer is not null. -/
def libtarListPrev (l : LibtarList) (h : Heap α) : Option ℕ → Option (Option ℕ)
  | none => some l.last
  | some n => (h n).map Cell.prev

/-- `libtar_list_search`; the result is 1 if the pointer is not null. -/
def libtarListSearch (matchfunc : α → Bool) (l : LibtarList) (h : Heap α) (n : Option ℕ) :
    Option (Option ℕ) :=
  (libtarListNext l h n).bind (scan matchfunc h fuel)

/-- The loop of `libtar_list_iterate`. -/
def iterateLoop {σ : Type} (plugin : α → σ → ℤ × σ) (h : Heap α) :
    ℕ → Option ℕ → σ → Option (ℤ × σ)
  | _, none, state => some (0, state)
  | 0, some _, _ => none
  | fuel + 1, some n, state => do
    let node ← h n
    let (res, state) := plugin node.data state
    if res = -1 then some (-1, state) else iterateLoop plugin h fuel node.next state

/-- `libtar_list_iterate`. -/
def libtarListIterate {σ : Type} (plugin : α → σ → ℤ × σ) (l : LibtarList) (h : Heap α) (state : σ) :
    Option (ℤ × σ) :=
  iterateLoop plugin h fuel l.first state

/-- The nodes of a loop `while (libtar_list_next(l, &n) != 0)`, or one with `libtar_list_prev`. -/
def nodesLoop (next : Option ℕ → Option (Option ℕ)) : ℕ → Option ℕ → Option (List ℕ)
  | 0, _ => none
  | fuel + 1, n => do
    match ← next n with
    | none => some []
    | some m => (nodesLoop next fuel (some m)).map (m :: ·)

/-- `libtar_list_empty`. -/
def libtarListEmpty (l : LibtarList) (h : Heap α) : Option (LibtarList × Heap α) :=
  (freeAll fuel l.first h).map fun h => ({ l with first := none, nents := 0 }, h)

end Calls

/-! ## What a list has -/

variable {α : Type}

/-- The header and the heap hold the nodes, in their order. -/
structure ListOf (h : Heap α) (l : LibtarList) (cs : List (ℕ × α)) : Prop where
  linked : Linked h none cs none
  nodup : (cs.map Prod.fst).Nodup
  first : l.first = first cs
  last : cs ≠ [] → l.last = last cs
  nents : l.nents = UInt32.ofNat cs.length

/-- Where a node is put: before the first one that `cmpfunc` finds greater, if the list is not a
stack or a queue. -/
def placed (cmpfunc : α → α → ℤ) (flags : ListFlags) (c : ℕ × α) (cs : List (ℕ × α)) : List (ℕ × α) :=
  match flags with
  | .stack => c :: cs
  | .queue => cs ++ [c]
  | .userfunc => cs.takeWhile (fun d => ¬ cmpfunc c.2 d.2 < 0) ++
      c :: cs.dropWhile fun d => ¬ cmpfunc c.2 d.2 < 0

/-- The heap with a node between two others. -/
def inserted (n : ℕ) (data : α) (p m : Option ℕ) (h : Heap α) : Heap α :=
  alloc n ⟨data, m, p⟩ (relink p m (some n) (some n) h)

section Add

variable {cmpfunc : α → α → ℤ} {fuel : ℕ} {h : Heap α} {l l' : LibtarList} {cs ds : List (ℕ × α)}
  {c d : ℕ × α} {n : ℕ} {x : α}

/-- The list with a node between two parts of it. -/
theorem ListOf.inserted (hl : ListOf h l (cs ++ ds)) (hn : n ∉ (cs ++ ds).map Prod.fst)
    (hfirst : l'.first = LinkedList.first (cs ++ (n, x) :: ds))
    (hlast : l'.last = LinkedList.last (cs ++ (n, x) :: ds)) (hnents : l'.nents = l.nents + 1) :
    ListOf (inserted n x (LinkedList.last cs) (LinkedList.first ds) h) l' (cs ++ (n, x) :: ds) where
  linked := by
    have hlinked := hl.linked.insert hl.nodup hn (x := x)
    rwa [Option.or_none, Option.or_none] at hlinked
  nodup := by
    rw [List.map_append, List.map_cons, List.nodup_middle, List.nodup_cons, ← List.map_append]
    exact ⟨hn, hl.nodup⟩
  first := hfirst
  last := fun _ => hlast
  nents := by
    rw [hnents, hl.nents, List.length_append, List.length_append, List.length_cons, ← Nat.add_assoc,
      UInt32.ofNat_add (_ + _)]
    rfl

/-- Nothing else is written to. -/
theorem inserted_of_notMem {b : ℕ} (hb : b ∉ (cs ++ (n, x) :: ds).map Prod.fst) :
    Par.inserted n x (LinkedList.last cs) (LinkedList.first ds) h b = h b := by
  rw [List.map_append, List.map_cons, List.mem_append, List.mem_cons, not_or, not_or] at hb
  obtain ⟨hcs, hn, hds⟩ := hb
  rw [Par.inserted, alloc_of_ne hn, relink_of_ne (fun h => hcs (mem_of_last h))]
  exact fun h => hds (mem_of_first h)

/-- What a call of `libtar_list_add` that puts a node between two parts of the list gives. -/
def AddedAt (n : ℕ) (x : α) (cs ds : List (ℕ × α)) (l : LibtarList) (h : Heap α)
    (res : Option (Bool × LibtarList × Heap α)) : Prop :=
  ∃ l', res = some (true, l', Par.inserted n x (LinkedList.last cs) (LinkedList.first ds) h) ∧
    l'.first = LinkedList.first (cs ++ (n, x) :: ds) ∧
    l'.last = LinkedList.last (cs ++ (n, x) :: ds) ∧ l'.nents = l.nents + 1 ∧ l'.flags = l.flags

theorem addedAt_nil (hl : ListOf h l []) :
    AddedAt n x [] [] l h (libtarListAdd cmpfunc fuel (some n) x l h) := by
  refine ⟨{ l with nents := l.nents + 1, first := some n, last := some n }, ?_, rfl, rfl, rfl, rfl⟩
  simp only [libtarListAdd, hl.first, first_nil]
  rfl

theorem addedAt_stack (hl : ListOf h l (d :: ds)) (hflags : l.flags = .stack) (hn : d.1 ≠ n) :
    AddedAt n x [] (d :: ds) l h (libtarListAdd cmpfunc fuel (some n) x l h) := by
  refine ⟨{ l with nents := l.nents + 1, first := some n }, ?_, rfl, ?_, rfl, rfl⟩
  · simp only [libtarListAdd, hl.first, first_cons, hflags, Option.bind_eq_bind, setNext_alloc_self,
      Option.bind_some, setPrev_alloc hn]
    rw [setPrev_eq_relink hl.linked.1]
    rfl
  · exact hl.last (List.cons_ne_nil d ds)

theorem addedAt_queue (hl : ListOf h l (cs ++ [c])) (hflags : l.flags = .queue) (hn : c.1 ≠ n) :
    AddedAt n x (cs ++ [c]) [] l h (libtarListAdd cmpfunc fuel (some n) x l h) := by
  have hlast : l.last = some c.1 := by rw [hl.last (by simp), last_concat]
  obtain ⟨m, hfirst⟩ : ∃ m, LinkedList.first (cs ++ [c]) = some m := by cases cs <;> exact ⟨_, rfl⟩
  refine ⟨{ l with nents := l.nents + 1, last := some n }, ?_, ?_, ?_, rfl, rfl⟩
  · simp only [libtarListAdd, hl.first, hfirst, hflags, hlast, Option.bind_eq_bind, setPrev_alloc_self,
      Option.bind_some, setNext_alloc hn]
    rw [setNext_eq_relink hl.linked.cell, last_concat]
    rfl
  · rw [first_append, hfirst, Option.some_or]
    exact hl.first.trans hfirst
  · rw [last_concat]

/-- The loop of `libtar_list_add` does not meet the new node. -/
theorem scan_alloc (hl : ListOf h l cs) (hn : n ∉ cs.map Prod.fst) (hfuel : cs.length ≤ fuel)
    (q : α → Bool) (c : Cell α) :
    scan q (alloc n c h) fuel (LinkedList.first cs) =
      some ((cs.find? fun d => q d.2).map Prod.fst) :=
  have hne : ∀ d ∈ cs, d.1 ≠ n := fun _ hd heq => hn (heq ▸ List.mem_map_of_mem hd)
  (hl.linked.frame fun d hd => alloc_of_ne (hne d hd)).scan_eq q hfuel

theorem find?_eq_none_of_not_lt (hcs : ∀ c ∈ cs, ¬ cmpfunc x c.2 < 0) :
    cs.find? (fun c => cmpfunc x c.2 < 0) = none :=
  List.find?_eq_none.mpr fun c hc => by rw [decide_eq_true_eq]; exact hcs c hc

theorem addedAt_before (hl : ListOf h l (cs ++ d :: ds)) (hflags : l.flags = .userfunc)
    (hn : n ∉ (cs ++ d :: ds).map Prod.fst) (hcs : ∀ c ∈ cs, ¬ cmpfunc x c.2 < 0)
    (hd : cmpfunc x d.2 < 0) (hfuel : (cs ++ d :: ds).length ≤ fuel) :
    AddedAt n x cs (d :: ds) l h (libtarListAdd cmpfunc fuel (some n) x l h) := by
  have hne : ∀ c ∈ cs ++ d :: ds, c.1 ≠ n := fun c hc heq => hn (heq ▸ List.mem_map_of_mem hc)
  have hdn : d.1 ≠ n := hne d (by simp)
  have hfind : (cs ++ d :: ds).find? (fun e => cmpfunc x e.2 < 0) = some d := by
    rw [List.find?_append, find?_eq_none_of_not_lt hcs, Option.none_or,
      List.find?_cons_of_pos (by rwa [decide_eq_true_eq])]
  have hscan : ∀ c, scan (fun y => decide (cmpfunc x y < 0)) (alloc n c h) fuel
      (LinkedList.first (cs ++ d :: ds)) = some (some d.1) := by
    intro c
    rw [scan_alloc hl hn hfuel, hfind, Option.map_some]
  have hcell := hl.linked.cell
  rcases List.eq_nil_or_concat cs with rfl | ⟨cs, c, rfl⟩
  · refine ⟨{ l with nents := l.nents + 1, first := some n }, ?_, rfl, ?_, rfl, rfl⟩
    · simp only [List.nil_append, first_cons] at hscan
      simp only [libtarListAdd, hl.first, List.nil_append, first_cons, hflags, hscan,
        Option.bind_eq_bind, Option.bind_some, if_true, setPrev_alloc hdn]
      rw [setPrev_eq_relink hcell]
      simp only [Option.map_some, Option.bind_some, setNext_alloc_self]
      rfl
    · exact hl.last (List.cons_ne_nil d ds)
  · rw [List.concat_eq_append] at *
    have hcn : c.1 ≠ n := hne c (by simp)
    have hcell' : h c.1 = some ⟨c.2, some d.1, LinkedList.last cs⟩ := by
      rw [List.append_assoc] at hl
      exact (Option.or_none (o := LinkedList.last cs)) ▸ hl.linked.cell
    obtain ⟨m, hfirst⟩ : ∃ m, LinkedList.first (cs ++ [c]) = some m := by cases cs <;> exact ⟨_, rfl⟩
    have hfirst' : LinkedList.first (cs ++ [c] ++ d :: ds) = some m := by
      rw [first_append, hfirst, Option.some_or]
    have hdm : d.1 ≠ m := fun heq =>
      first_ne_of_mem_before hl.nodup (mem_of_first hfirst) (congrArg some heq)
    refine ⟨{ l with nents := l.nents + 1 }, ?_, ?_, ?_, rfl, rfl⟩
    · simp only [hfirst'] at hscan
      simp only [libtarListAdd, hl.first, hfirst', hflags, hscan, Option.bind_eq_bind,
        Option.bind_some, if_neg hdm, alloc_of_ne hdn, hcell, last_concat]
      rw [Option.or_none, Option.bind_some, setNext_alloc hcn, setNext_eq_relink (v := some n) hcell']
      simp only [Option.map_some, Option.bind_some, setPrev_alloc_self]
      have hcd : some c.1 ≠ some d.1 := last_concat ▸ last_ne_of_mem_behind hl.nodup (by simp)
      rw [setPrev_alloc hdn, setPrev_relink hcell hcd]
      simp only [Option.map_some, Option.bind_some, setNext_alloc_self]
      rfl
    · rw [first_append, hfirst, Option.some_or]
      exact hl.first.trans hfirst'
    · rw [hl.last (by simp), last_append_cons, last_append_cons, last_cons (c := (n, x)), last_cons,
        Option.or_assoc, Option.some_or]

theorem addedAt_end (hl : ListOf h l (cs ++ [c])) (hflags : l.flags = .userfunc)
    (hn : n ∉ (cs ++ [c]).map Prod.fst) (hcs : ∀ d ∈ cs ++ [c], ¬ cmpfunc x d.2 < 0)
    (hfuel : (cs ++ [c]).length ≤ fuel) :
    AddedAt n x (cs ++ [c]) [] l h (libtarListAdd cmpfunc fuel (some n) x l h) := by
  have hlast : l.last = some c.1 := by rw [hl.last (by simp), last_concat]
  have hcn : c.1 ≠ n := fun heq => hn (heq ▸ List.mem_map_of_mem (by simp))
  obtain ⟨m, hfirst⟩ : ∃ m, LinkedList.first (cs ++ [c]) = some m := by cases cs <;> exact ⟨_, rfl⟩
  have hscan : ∀ c', scan (fun y => decide (cmpfunc x y < 0)) (alloc n c' h) fuel (some m) =
      some none := by
    intro c'
    rw [← hfirst, scan_alloc hl hn hfuel, find?_eq_none_of_not_lt hcs, Option.map_none]
  refine ⟨{ l with nents := l.nents + 1, last := some n }, ?_, ?_, ?_, rfl, rfl⟩
  · simp only [libtarListAdd, hl.first, hfirst, hflags, hscan, hlast, Option.bind_eq_bind,
      Option.bind_some, setNext_alloc hcn]
    rw [setNext_eq_relink hl.linked.cell, last_concat]
    simp only [Option.map_some, Option.bind_some, setPrev_alloc_self]
    rfl
  · rw [first_append, hfirst, Option.some_or]
    exact hl.first.trans hfirst
  · rw [last_concat]

/-- A node goes to its place. -/
theorem exists_addedAt (cmpfunc : α → α → ℤ) (x : α) (hl : ListOf h l cs)
    (hn : n ∉ cs.map Prod.fst) (hfuel : cs.length ≤ fuel) :
    ∃ as ds, cs = as ++ ds ∧ placed cmpfunc l.flags (n, x) cs = as ++ (n, x) :: ds ∧
      AddedAt n x as ds l h (libtarListAdd cmpfunc fuel (some n) x l h) := by
  have hne : ∀ c ∈ cs, c.1 ≠ n := fun _ hc heq => hn (heq ▸ List.mem_map_of_mem hc)
  rcases List.eq_nil_or_concat cs with rfl | ⟨init, z, rfl⟩
  · refine ⟨[], [], rfl, ?_, addedAt_nil hl⟩
    cases hflags : l.flags <;> rfl
  rw [List.concat_eq_append] at *
  cases hflags : l.flags with
  | stack =>
    obtain ⟨d, ds, hds⟩ := List.exists_cons_of_ne_nil (l := init ++ [z]) (by simp)
    rw [hds] at hl hne ⊢
    exact ⟨[], d :: ds, rfl, rfl, addedAt_stack hl hflags (hne d List.mem_cons_self)⟩
  | queue =>
    exact ⟨init ++ [z], [], (List.append_nil _).symm, rfl, addedAt_queue hl hflags (hne z (by simp))⟩
  | userfunc =>
    set q : ℕ × α → Bool := fun d => ¬ cmpfunc x d.2 < 0 with hq
    have hsplit := (List.takeWhile_append_dropWhile (p := q) (l := init ++ [z])).symm
    have hkept : ∀ c ∈ (init ++ [z]).takeWhile q, ¬ cmpfunc x c.2 < 0 := fun c hc =>
      of_decide_eq_true (p := ¬ cmpfunc x c.2 < 0) (List.mem_takeWhile_imp (p := q) hc)
    refine ⟨(init ++ [z]).takeWhile q, (init ++ [z]).dropWhile q, hsplit, rfl, ?_⟩
    cases hdrop : (init ++ [z]).dropWhile q with
    | nil =>
      rw [hdrop, List.append_nil] at hsplit
      rw [← hsplit] at hkept ⊢
      exact addedAt_end hl hflags hn hkept hfuel
    | cons d ds =>
      have hd : cmpfunc x d.2 < 0 := by
        have := List.head?_dropWhile_not q (init ++ [z])
        rw [hdrop] at this
        simpa [hq] using this
      rw [hsplit, hdrop] at hl hn hfuel
      exact addedAt_before hl hflags hn hkept hd hfuel

/-- **A node is added.** The new node is put into its place, and nothing else is written to. -/
theorem libtarListAdd_eq (cmpfunc : α → α → ℤ) (x : α) (hl : ListOf h l cs)
    (hn : n ∉ cs.map Prod.fst) (hfuel : cs.length ≤ fuel) :
    ∃ l' h', libtarListAdd cmpfunc fuel (some n) x l h = some (true, l', h') ∧
      ListOf h' l' (placed cmpfunc l.flags (n, x) cs) ∧ l'.flags = l.flags ∧
      ∀ b ∉ (placed cmpfunc l.flags (n, x) cs).map Prod.fst, h' b = h b := by
  obtain ⟨as, ds, rfl, hplaced, l', hres, hfirst, hlast, hnents, hflags⟩ :=
    exists_addedAt cmpfunc x hl hn hfuel
  rw [hplaced]
  exact ⟨l', _, hres, hl.inserted hn hfirst hlast hnents, hflags, fun b => inserted_of_notMem⟩

end Add

/-! ## The other calls -/

section Others

variable {fuel : ℕ} {h : Heap α} {l : LibtarList} {cs ds : List (ℕ × α)} {c d : ℕ × α} {n : ℕ} {x : α}

/-- **A node is deleted.** The pointer is at the node behind it. -/
theorem libtarListDel_eq (hl : ListOf h l (cs ++ c :: ds)) :
    ∃ l' h', libtarListDel c.1 l h = some (first ds, l', h') ∧ ListOf h' l' (cs ++ ds) ∧
      l'.flags = l.flags ∧ h' c.1 = none ∧
      ∀ b ∉ (cs ++ c :: ds).map Prod.fst, h' b = h b := by
  have hsub : ((cs ++ ds).map Prod.fst).Nodup :=
    hl.nodup.sublist (((List.sublist_cons_self c ds).append_left cs).map Prod.fst)
  have hcell := hl.linked.cell
  rw [Option.or_none, Option.or_none] at hcell
  have hres : libtarListDel c.1 l h = some (first ds,
      { l with nents := l.nents - 1, first := first (cs ++ ds), last := last (cs ++ ds) },
      free c.1 (relink (last cs) (first ds) (first ds) (last cs) h)) := by
    have hfirst : ∀ p init, cs = init ++ [p] → l.first = first (cs ++ ds) := by
      rintro p init rfl
      rw [hl.first, first_append, first_append]
      cases init <;> rfl
    have hlast : ∀ d rest, ds = d :: rest → l.last = last (cs ++ ds) := by
      rintro d rest rfl
      rw [hl.last (by simp), last_append_cons, last_append_cons, last_cons, last_cons, Option.or_assoc,
        Option.some_or]
    have hbefore : ∀ p init, cs = init ++ [p] → h p.1 = some ⟨p.2, some c.1, last init⟩ := by
      rintro p init rfl
      have hl' := hl.linked
      rw [List.append_assoc] at hl'
      exact (Option.or_none (o := last init)) ▸ hl'.cell
    have hbehind : ∀ d rest, ds = d :: rest → h d.1 = some ⟨d.2, first rest, some c.1⟩ := by
      rintro d rest rfl
      have hl' := hl.linked
      rw [List.append_cons] at hl'
      have hd := hl'.cell
      rwa [Option.or_none, Option.or_none, last_concat] at hd
    rcases List.eq_nil_or_concat cs with rfl | ⟨init, p, rfl⟩
    · cases ds with
      | nil =>
        simp only [libtarListDel, hcell, Option.bind_eq_bind, Option.bind_some, first_nil, last_nil]
        rfl
      | cons d ds =>
        simp only [libtarListDel, hcell, Option.bind_eq_bind, Option.bind_some, first_cons, last_nil]
        rw [setPrev_eq_relink (u := some d.1) (hbehind d ds rfl), ← hlast d ds rfl]
        rfl
    · rw [List.concat_eq_append] at *
      have hp := hbefore p init rfl
      cases ds with
      | nil =>
        simp only [libtarListDel, hcell, Option.bind_eq_bind, Option.bind_some, first_nil, last_concat]
        rw [setNext_eq_relink (v := some p.1) hp, ← hfirst p init rfl, List.append_nil, last_concat]
        rfl
      | cons d ds =>
        have hpd : some p.1 ≠ some d.1 := last_concat ▸ last_ne_of_mem_behind hsub (by simp)
        simp only [libtarListDel, hcell, Option.bind_eq_bind, Option.bind_some, first_cons, last_concat]
        rw [setNext_eq_relink (v := some p.1) hp, Option.map_some, Option.bind_some,
          setPrev_relink (hbehind d ds rfl) hpd, ← hfirst p init rfl, ← hlast d ds rfl]
        rfl
  refine ⟨_, _, hres, ⟨?_, hsub, rfl, fun _ => rfl, ?_⟩, rfl, free_self, fun b hb => ?_⟩
  · have hlinked := hl.linked.remove hl.nodup
    rwa [Option.or_none, Option.or_none] at hlinked
  · show l.nents - 1 = _
    rw [hl.nents, List.length_append, List.length_append, List.length_cons, ← Nat.add_assoc,
      UInt32.ofNat_add _ 1]
    exact UInt32.add_sub_cancel _ _
  · rw [List.map_append, List.map_cons, List.mem_append, List.mem_cons, not_or, not_or] at hb
    obtain ⟨hcs, hc, hds⟩ := hb
    rw [free_of_ne hc, relink_of_ne (fun h => hcs (mem_of_last h)) fun h => hds (mem_of_first h)]

/-- The next node. -/
theorem libtarListNext_eq (hl : ListOf h l (cs ++ ds)) :
    libtarListNext l h (last cs) = some (first ds) := by
  rcases List.eq_nil_or_concat cs with rfl | ⟨cs, c, rfl⟩
  · rw [last_nil, libtarListNext, hl.first, List.nil_append]
  · rw [List.concat_eq_append, List.append_assoc] at hl
    rw [List.concat_eq_append, last_concat, libtarListNext, hl.linked.cell, Option.map_some,
      Option.or_none]
    rfl

/-- The node before it. -/
theorem libtarListPrev_eq (hl : ListOf h l (cs ++ ds)) (hne : cs ++ ds ≠ []) :
    libtarListPrev l h (first ds) = some (last cs) := by
  cases ds with
  | nil => rw [first_nil, libtarListPrev, hl.last hne, List.append_nil]
  | cons d ds =>
    rw [first_cons, libtarListPrev, hl.linked.cell, Option.map_some, Option.or_none, Option.or_none]

/-- A search goes on behind the pointer. -/
theorem libtarListSearch_eq (hl : ListOf h l (cs ++ ds)) (matchfunc : α → Bool)
    (hfuel : ds.length ≤ fuel) :
    libtarListSearch fuel matchfunc l h (last cs) =
      some ((ds.find? fun d => matchfunc d.2).map Prod.fst) := by
  rw [libtarListSearch, libtarListNext_eq hl, Option.bind_some]
  exact (linked_append.mp hl.linked).2.scan_eq matchfunc hfuel

/-- The nodes behind the pointer. -/
theorem nodesLoop_next (hl : ListOf h l (cs ++ ds)) (hfuel : ds.length < fuel) :
    nodesLoop (libtarListNext l h) fuel (last cs) = some (ds.map Prod.fst) := by
  induction ds generalizing cs fuel with
  | nil =>
    obtain ⟨fuel, rfl⟩ := Nat.exists_eq_add_of_le' hfuel
    simp only [nodesLoop, libtarListNext_eq hl, Option.bind_eq_bind, Option.bind_some, first_nil,
      List.map_nil]
  | cons d ds ih =>
    obtain ⟨fuel, rfl⟩ := Nat.exists_eq_add_of_le' (Nat.one_le_of_lt hfuel)
    have hl' : ListOf h l (cs ++ [d] ++ ds) := List.append_cons cs d ds ▸ hl
    have hrest := ih hl' (Nat.lt_of_succ_lt_succ hfuel)
    rw [last_concat] at hrest
    simp only [nodesLoop, libtarListNext_eq hl, Option.bind_eq_bind, Option.bind_some, first_cons,
      hrest, Option.map_some, List.map_cons]

/-- The nodes before the pointer. -/
theorem nodesLoop_prev (hl : ListOf h l (cs ++ ds)) (hne : cs ++ ds ≠ []) (hfuel : cs.length < fuel) :
    nodesLoop (libtarListPrev l h) fuel (first ds) = some (cs.map Prod.fst).reverse := by
  induction cs using List.reverseRecOn generalizing ds fuel with
  | nil =>
    obtain ⟨fuel, rfl⟩ := Nat.exists_eq_add_of_le' hfuel
    simp only [nodesLoop, libtarListPrev_eq hl hne, Option.bind_eq_bind, Option.bind_some, last_nil,
      List.map_nil, List.reverse_nil]
  | append_singleton cs c ih =>
    obtain ⟨fuel, rfl⟩ := Nat.exists_eq_add_of_le' (Nat.one_le_of_lt hfuel)
    have hl' : ListOf h l (cs ++ c :: ds) := List.append_cons cs c ds ▸ hl
    rw [List.length_append] at hfuel
    have hrest := ih hl' (by simp) (Nat.lt_of_succ_lt_succ hfuel)
    rw [first_cons] at hrest
    simp only [nodesLoop, libtarListPrev_eq hl hne, Option.bind_eq_bind, Option.bind_some, last_concat,
      hrest, Option.map_some, List.map_append, List.map_cons, List.map_nil, List.reverse_append,
      List.reverse_singleton, List.singleton_append]

/-- The calls of a plugin for data in their order, up to the first one that fails. -/
def calledFor {σ : Type} (plugin : α → σ → ℤ × σ) : List α → σ → ℤ × σ
  | [], state => (0, state)
  | x :: xs, state =>
    let (res, state) := plugin x state
    if res = -1 then (-1, state) else calledFor plugin xs state

/-- The plugin is called for the data of the list. -/
theorem libtarListIterate_eq (hl : ListOf h l cs) (hfuel : cs.length ≤ fuel) {σ : Type}
    (plugin : α → σ → ℤ × σ) (state : σ) :
    libtarListIterate fuel plugin l h state = some (calledFor plugin (cs.map Prod.snd) state) := by
  have hloop : ∀ p, Linked h p cs none →
      iterateLoop plugin h fuel (first cs) state = some (calledFor plugin (cs.map Prod.snd) state) := by
    clear hl
    induction cs generalizing fuel state with
    | nil =>
      intro p _
      cases fuel <;> rfl
    | cons c cs ih =>
      rintro p ⟨hcell, hrest⟩
      obtain ⟨fuel, rfl⟩ := Nat.exists_eq_add_of_le' (Nat.one_le_of_lt hfuel)
      rw [Option.or_none] at hcell
      simp only [first_cons, iterateLoop, hcell, Option.bind_eq_bind, Option.bind_some, List.map_cons,
        calledFor]
      split_ifs with hres
      · rfl
      · exact ih (Nat.le_of_succ_le_succ hfuel) _ _ hrest
  rw [libtarListIterate, hl.first]
  exact hloop none hl.linked

/-- **A list is emptied.** All its nodes are freed, and nothing else. -/
theorem libtarListEmpty_eq (hl : ListOf h l cs) (hfuel : cs.length ≤ fuel) :
    ∃ l' h', libtarListEmpty fuel l h = some (l', h') ∧ ListOf h' l' [] ∧ l'.flags = l.flags ∧
      ∀ b, h' b = if b ∈ cs.map Prod.fst then none else h b := by
  obtain ⟨h', hfree, hh'⟩ := hl.linked.freeAll_eq hl.nodup hfuel
  refine ⟨{ l with first := none, nents := 0 }, h', ?_, ?_, rfl, hh'⟩
  · rw [libtarListEmpty, hl.first, hfree, Option.map_some]
  · exact ⟨trivial, List.nodup_nil, rfl, fun hne => absurd rfl hne, rfl⟩

end Others

/-! ## All calls -/

/-- A call that changes a list, with what `malloc` gives. -/
inductive ListCall (α : Type)
  | add (malloc : Option ℕ) (data : α)
  | del (n : ℕ)
  | empty

section Runs

variable (cmpfunc : α → α → ℤ) (fuel : ℕ) (flags : ListFlags)

/-- The list after a call. -/
def ListCall.run : LibtarList × Heap α → ListCall α → Option (LibtarList × Heap α)
  | (l, h), .add malloc data => (libtarListAdd cmpfunc fuel malloc data l h).map Prod.snd
  | (l, h), .del n => (libtarListDel n l h).map Prod.snd
  | (l, h), .empty => libtarListEmpty fuel l h

/-- The nodes after a call. -/
def nodesAfter : List (ℕ × α) → ListCall α → List (ℕ × α)
  | cs, .add none _ => cs
  | cs, .add (some n) data => placed cmpfunc flags (n, data) cs
  | cs, .del n => cs.filter fun c => c.1 ≠ n
  | _, .empty => []

/-- `malloc` gives memory that nobody has, and only a node of the list is deleted. -/
def CallAllowed (h₀ : Heap α) (cs : List (ℕ × α)) : ListCall α → Prop
  | .add none _ => True
  | .add (some n) _ => h₀ n = none ∧ n ∉ cs.map Prod.fst
  | .del n => n ∈ cs.map Prod.fst
  | .empty => True

/-- The function orders the data. -/
structure Orders : Prop where
  asymm : ∀ x y, cmpfunc x y < 0 → ¬ cmpfunc y x < 0
  trans : ∀ x y z, ¬ cmpfunc y x < 0 → ¬ cmpfunc z y < 0 → ¬ cmpfunc z x < 0

variable {cmpfunc fuel flags} {h₀ h : Heap α} {l : LibtarList} {cs : List (ℕ × α)}
  {calls : List (ListCall α)} {call : ListCall α} {c : ℕ × α}

theorem length_placed : (placed cmpfunc flags c cs).length = cs.length + 1 := by
  cases flags with
  | userfunc =>
    rw [placed, List.length_append, List.length_cons, ← Nat.add_assoc, ← List.length_append,
      List.takeWhile_append_dropWhile]
  | stack => rfl
  | queue => exact List.length_append

theorem mem_placed {d : ℕ × α} : d ∈ placed cmpfunc flags c cs ↔ d = c ∨ d ∈ cs := by
  cases flags with
  | userfunc =>
    rw [placed, List.mem_append, List.mem_cons, or_left_comm, ← List.mem_append,
      List.takeWhile_append_dropWhile]
  | stack => exact List.mem_cons
  | queue => rw [placed, List.mem_append, List.mem_singleton, or_comm]

/-- A node that is put before the first greater one keeps the order. -/
theorem Orders.placed (ho : Orders cmpfunc) (hcs : cs.Pairwise fun c d => ¬ cmpfunc d.2 c.2 < 0) :
    (placed cmpfunc .userfunc c cs).Pairwise fun c d => ¬ cmpfunc d.2 c.2 < 0 := by
  set q : ℕ × α → Bool := fun d => ¬ cmpfunc c.2 d.2 < 0 with hq
  rw [← List.takeWhile_append_dropWhile (p := q) (l := cs), List.pairwise_append] at hcs
  obtain ⟨hbefore, hbehind, hcross⟩ := hcs
  have hkept : ∀ d ∈ cs.takeWhile q, ¬ cmpfunc c.2 d.2 < 0 := fun d hd =>
    of_decide_eq_true (p := ¬ cmpfunc c.2 d.2 < 0) (List.mem_takeWhile_imp (p := q) hd)
  have hgreater : ∀ d ∈ cs.dropWhile q, ¬ cmpfunc d.2 c.2 < 0 := by
    cases hdrop : cs.dropWhile q with
    | nil => exact fun d hd => absurd hd List.not_mem_nil
    | cons d ds =>
      have hd : cmpfunc c.2 d.2 < 0 := by
        have := List.head?_dropWhile_not q cs
        rw [hdrop] at this
        simpa [hq] using this
      rw [hdrop, List.pairwise_cons] at hbehind
      rw [List.forall_mem_cons]
      exact ⟨ho.asymm _ _ hd, fun e he => ho.trans _ _ _ (ho.asymm _ _ hd) (hbehind.1 e he)⟩
  rw [Par.placed, List.pairwise_append, List.pairwise_cons]
  refine ⟨hbefore, ⟨hgreater, hbehind⟩, fun d hd e he => ?_⟩
  rcases List.mem_cons.mp he with rfl | he
  · exact hkept d hd
  · exact hcross d hd e he

/-- What a list and a heap have after calls. -/
structure AfterCalls (flags : ListFlags) (h₀ : Heap α) (calls : List (ListCall α)) (cs : List (ℕ × α))
    (l : LibtarList) (h : Heap α) : Prop where
  listOf : ListOf h l cs
  flags : l.flags = flags
  length : cs.length ≤ calls.length
  fresh : ∀ n ∈ cs.map Prod.fst, h₀ n = none
  frame : ∀ b ∉ cs.map Prod.fst, h b = h₀ b

theorem filter_ne_of_nodup {before behind : List (ℕ × α)}
    (hnodup : ((before ++ c :: behind).map Prod.fst).Nodup) :
    (before ++ c :: behind).filter (fun d => d.1 ≠ c.1) = before ++ behind := by
  rw [List.map_append, List.map_cons, List.nodup_middle, List.nodup_cons, ← List.map_append] at hnodup
  have hne : ∀ d ∈ before ++ behind, d.1 ≠ c.1 := fun d hd heq =>
    hnodup.1 (heq ▸ List.mem_map_of_mem hd)
  rw [List.filter_append, List.filter_cons_of_neg (by simp), ← List.filter_append, List.filter_eq_self]
  exact fun d hd => decide_eq_true (hne d hd)

/-- A call keeps it. -/
theorem AfterCalls.step (cmpfunc : α → α → ℤ) (ha : AfterCalls flags h₀ calls cs l h)
    (hok : CallAllowed h₀ cs call) (hfuel : calls.length ≤ fuel) :
    ∃ l' h', ListCall.run cmpfunc fuel (l, h) call = some (l', h') ∧
      AfterCalls flags h₀ (calls ++ [call]) (nodesAfter cmpfunc flags cs call) l' h' := by
  have hcalls : (calls ++ [call]).length = calls.length + 1 := List.length_append
  have hlength := ha.length
  cases call with
  | add malloc data =>
    cases malloc with
    | none => exact ⟨l, h, rfl, ha.listOf, ha.flags, by rw [hcalls]; exact Nat.le_succ_of_le hlength,
        ha.fresh, ha.frame⟩
    | some n =>
      obtain ⟨l', h', hadd, hlist, hflags, hframe⟩ :=
        libtarListAdd_eq cmpfunc data ha.listOf hok.2 (hlength.trans hfuel)
      rw [ha.flags] at hlist hframe
      refine ⟨l', h', ?_, hlist, hflags.trans ha.flags, ?_, ?_, ?_⟩
      · rw [ListCall.run, hadd, Option.map_some]
      · rw [nodesAfter, length_placed, hcalls]
        exact Nat.succ_le_succ hlength
      · rintro m hm
        obtain ⟨c, hc, rfl⟩ := List.mem_map.mp hm
        rcases mem_placed.mp hc with rfl | hc
        · exact hok.1
        · exact ha.fresh _ (List.mem_map_of_mem hc)
      · intro b hb
        refine (hframe b hb).trans (ha.frame b fun hold => hb ?_)
        obtain ⟨c, hc, rfl⟩ := List.mem_map.mp hold
        exact List.mem_map_of_mem (mem_placed.mpr (Or.inr hc))
  | del n =>
    obtain ⟨c, hc, rfl⟩ := List.mem_map.mp hok
    obtain ⟨before, behind, rfl⟩ := List.append_of_mem hc
    obtain ⟨l', h', hdel, hlist, hflags, hgone, hframe⟩ := libtarListDel_eq ha.listOf
    have hafter : nodesAfter cmpfunc flags (before ++ c :: behind) (.del c.1) = before ++ behind :=
      filter_ne_of_nodup ha.listOf.nodup
    rw [hafter]
    refine ⟨l', h', ?_, hlist, hflags.trans ha.flags, ?_, fun m hm => ha.fresh m ?_, fun b hb => ?_⟩
    · rw [ListCall.run, hdel, Option.map_some]
    · rw [List.length_append, List.length_cons] at hlength
      rw [List.length_append, hcalls]
      omega
    · rw [List.map_append, List.mem_append] at hm
      rw [List.map_append, List.map_cons, List.mem_append, List.mem_cons]
      exact hm.imp_right Or.inr
    · by_cases hbc : b = c.1
      · rw [hbc, hgone, ha.fresh c.1 hok]
      · have hout : b ∉ (before ++ c :: behind).map Prod.fst := by
          rw [List.map_append, List.map_cons, List.mem_append, List.mem_cons, or_left_comm,
            ← List.mem_append, ← List.map_append]
          exact not_or.mpr ⟨hbc, hb⟩
        rw [hframe b hout, ha.frame b hout]
  | empty =>
    obtain ⟨l', h', hempty, hlist, hflags, hheap⟩ := libtarListEmpty_eq ha.listOf (hlength.trans hfuel)
    refine ⟨l', h', hempty, hlist, hflags.trans ha.flags, Nat.zero_le _, nofun, fun b _ => ?_⟩
    rw [hheap]
    split_ifs with hb
    · exact (ha.fresh b hb).symm
    · exact ha.frame b hb

/-- Calls that are allowed all succeed. -/
theorem afterCalls_of_run
    (hrun : Run (nodesAfter cmpfunc flags) (CallAllowed h₀) [] calls cs) (hfuel : calls.length ≤ fuel) :
    ∃ l h, calls.foldlM (ListCall.run cmpfunc fuel) (libtarListNew flags, h₀) = some (l, h) ∧
      AfterCalls flags h₀ calls cs l h := by
  induction hrun with
  | nil =>
    exact ⟨_, h₀, rfl, ⟨trivial, List.nodup_nil, rfl, fun hne => absurd rfl hne, rfl⟩, rfl, le_rfl,
      nofun, fun _ _ => rfl⟩
  | @snoc calls cs call _ hok ih =>
    have hcalls : (calls ++ [call]).length = calls.length + 1 := List.length_append
    rw [hcalls] at hfuel
    obtain ⟨l, h, hfold, hafter⟩ := ih (Nat.le_of_succ_le hfuel)
    obtain ⟨l', h', hcall, hafter'⟩ := hafter.step cmpfunc hok (Nat.le_of_succ_le hfuel)
    refine ⟨l', h', ?_, hafter'⟩
    rw [List.foldlM_append, hfold]
    simp only [Option.bind_eq_bind, Option.bind_some, List.foldlM_cons, List.foldlM_nil, hcall]
    rfl

/-- The nodes of an ordered list are in order. -/
theorem pairwise_of_run (ho : Orders cmpfunc)
    (hrun : Run (nodesAfter cmpfunc .userfunc) (CallAllowed h₀) [] calls cs) :
    cs.Pairwise fun c d => ¬ cmpfunc d.2 c.2 < 0 := by
  refine hrun.invariant (P := fun _ cs => cs.Pairwise fun c d => ¬ cmpfunc d.2 c.2 < 0) .nil ?_
  intro _ cs call hcs _
  match call with
  | .add none _ => exact hcs
  | .add (some _) _ => exact ho.placed hcs
  | .del _ => exact hcs.sublist List.filter_sublist
  | .empty => exact .nil

/-- **A list of nodes is its abstract list.** After every history of `libtar_list_add`,
`libtar_list_del` and `libtar_list_empty` calls, where `malloc` fails or gives memory that nobody has
and only nodes of the list are deleted, no call has touched anything but the nodes of the list. A walk
with `libtar_list_next` meets them in their order and one with `libtar_list_prev` backwards; the other
calls are those of a list, and a list with an ordering is sorted. -/
theorem list_of_run (hrun : Run (nodesAfter cmpfunc flags) (CallAllowed h₀) [] calls cs)
    (hfuel : calls.length ≤ fuel) :
    ∃ l h, calls.foldlM (ListCall.run cmpfunc fuel) (libtarListNew flags, h₀) = some (l, h) ∧
      (∀ b ∉ cs.map Prod.fst, h b = h₀ b) ∧ l.nents = UInt32.ofNat cs.length ∧
      nodesLoop (libtarListNext l h) (fuel + 1) none = some (cs.map Prod.fst) ∧
      (cs ≠ [] → nodesLoop (libtarListPrev l h) (fuel + 1) none = some (cs.map Prod.fst).reverse) ∧
      (∀ matchfunc, libtarListSearch fuel matchfunc l h none =
        some ((cs.find? fun c => matchfunc c.2).map Prod.fst)) ∧
      (∀ (σ : Type) (plugin : α → σ → ℤ × σ) state,
        libtarListIterate fuel plugin l h state = some (calledFor plugin (cs.map Prod.snd) state)) ∧
      (flags = .userfunc → Orders cmpfunc → cs.Pairwise fun c d => ¬ cmpfunc d.2 c.2 < 0) := by
  obtain ⟨l, h, hfold, hafter⟩ := afterCalls_of_run hrun hfuel
  have hl := hafter.listOf
  have hlength := hafter.length.trans hfuel
  refine ⟨l, h, hfold, hafter.frame, hl.nents, ?_, fun hne => ?_, fun matchfunc => ?_,
    fun σ plugin state => libtarListIterate_eq hl hlength plugin state, ?_⟩
  · exact nodesLoop_next (show ListOf h l ([] ++ cs) from hl) (Nat.lt_succ_of_le hlength)
  · have hl' : ListOf h l (cs ++ []) := (List.append_nil cs).symm ▸ hl
    exact nodesLoop_prev hl' (by rwa [List.append_nil]) (Nat.lt_succ_of_le hlength)
  · exact libtarListSearch_eq (show ListOf h l ([] ++ cs) from hl) matchfunc hlength
  · rintro rfl ho
    exact pairwise_of_run ho hrun

/-- Three numbers in an ordered list, of which one is deleted. -/
theorem list_of_run_three :
    ∃ l h, [ListCall.add (some 10) (3 : ℤ), .add (some 11) 1, .add (some 12) 2, .del 11].foldlM
        (ListCall.run (fun x y => x - y) 4) (libtarListNew .userfunc, fun _ => none) = some (l, h) ∧
      nodesLoop (libtarListNext l h) 5 none = some [12, 10] := by
  have hrun : Run (nodesAfter (fun x y => x - y) .userfunc) (CallAllowed fun _ => none) []
      ([.add (some 10) (3 : ℤ)] ++ [.add (some 11) 1] ++ [.add (some 12) 2] ++ [.del 11])
      [(12, 2), (10, 3)] := by
    refine .snoc (.snoc (.snoc (.snoc .nil ?_) ?_) ?_) ?_
    · exact ⟨rfl, by decide⟩
    · exact ⟨rfl, by decide⟩
    · exact ⟨rfl, by decide⟩
    · exact (by decide : 11 ∈ [11, 12, 10])
  obtain ⟨l, h, hfold, -, -, hnext, -⟩ := list_of_run hrun (Nat.le_refl 4)
  exact ⟨l, h, hfold, hnext⟩

end Runs

end Mavicona.Par
