import Mathlib.Data.List.Nodup
import Mathlib.Logic.Function.Basic

/-!
# Doubly linked lists on a heap

A heap has cells at some of its addresses, each with the addresses of its two neighbours. `Linked`
says that the cells of a list are linked both ways, between a cell before the first one and one
behind the last one, if there are any. A list is cut where another cell is put in or taken out
(`linked_append`), and only the cells at the cut are written to (`relink`).

An access to an address without a cell fails; so does a walk that takes more steps than it was
given.
-/

namespace LinkedList

/-- A cell: its data and its neighbours. -/
structure Cell (α : Type*) where
  data : α
  next : Option ℕ
  prev : Option ℕ

/-- The cells by their addresses. -/
abbrev Heap (α : Type*) := ℕ → Option (Cell α)

variable {α : Type*}

/-! ## Access -/

/-- `a->next = n`. -/
def setNext (a : ℕ) (n : Option ℕ) (h : Heap α) : Option (Heap α) :=
  (h a).map fun c => Function.update h a (some { c with next := n })

/-- `a->prev = p`. -/
def setPrev (a : ℕ) (p : Option ℕ) (h : Heap α) : Option (Heap α) :=
  (h a).map fun c => Function.update h a (some { c with prev := p })

/-- A cell at a new address. -/
def alloc (a : ℕ) (c : Cell α) (h : Heap α) : Heap α := Function.update h a (some c)

/-- No cell any more. -/
def free (a : ℕ) (h : Heap α) : Heap α := Function.update h a none

/-- The first cell from an address on whose data has the property, in a number of steps. -/
def scan (q : α → Bool) (h : Heap α) : ℕ → Option ℕ → Option (Option ℕ)
  | _, none => some none
  | 0, some _ => none
  | fuel + 1, some a => (h a).bind fun c => if q c.data then some (some a) else scan q h fuel c.next

/-- Free all cells from an address on, in a number of steps. -/
def freeAll : ℕ → Option ℕ → Heap α → Option (Heap α)
  | _, none, h => some h
  | 0, some _, _ => none
  | fuel + 1, some a, h => (h a).bind fun c => freeAll fuel c.next (free a h)

/-- `p->next = u` and `m->prev = v`, where there are cells. -/
def relink (p m u v : Option ℕ) (h : Heap α) : Heap α := fun b =>
  if p = some b then (h b).map fun c => { c with next := u }
  else if m = some b then (h b).map fun c => { c with prev := v }
  else h b

section Access

variable {h : Heap α} {a b m : ℕ} {c : Cell α} {p u v w : Option ℕ}

theorem alloc_self : alloc a c h a = some c := Function.update_self ..

theorem alloc_of_ne (hb : b ≠ a) : alloc a c h b = h b := Function.update_of_ne hb ..

theorem free_self : free a h a = none := Function.update_self ..

theorem free_of_ne (hb : b ≠ a) : free a h b = h b := Function.update_of_ne hb ..

theorem setNext_alloc_self : setNext a u (alloc a c h) = some (alloc a { c with next := u } h) := by
  rw [setNext, alloc_self, Option.map_some, alloc, alloc, Function.update_idem]

theorem setPrev_alloc_self : setPrev a v (alloc a c h) = some (alloc a { c with prev := v } h) := by
  rw [setPrev, alloc_self, Option.map_some, alloc, alloc, Function.update_idem]

theorem setNext_alloc (hb : b ≠ a) : setNext b u (alloc a c h) = (setNext b u h).map (alloc a c) := by
  rw [setNext, setNext, alloc_of_ne hb, Option.map_map]
  congr 1
  funext d
  exact Function.update_comm hb.symm _ _ _

theorem setPrev_alloc (hb : b ≠ a) : setPrev b v (alloc a c h) = (setPrev b v h).map (alloc a c) := by
  rw [setPrev, setPrev, alloc_of_ne hb, Option.map_map]
  congr 1
  funext d
  exact Function.update_comm hb.symm _ _ _

theorem relink_none : relink none none u v h = h := rfl

theorem relink_of_ne (hp : p ≠ some b) {q : Option ℕ} (hq : q ≠ some b) : relink p q u v h b = h b := by
  rw [relink, if_neg hp, if_neg hq]

theorem relink_none_of_ne (hp : p ≠ some b) : relink p none u v h b = h b :=
  relink_of_ne hp (Option.some_ne_none b).symm

theorem setNext_eq_relink (ha : h a = some c) : setNext a u h = some (relink (some a) none u v h) := by
  rw [setNext, ha, Option.map_some]
  congr 1
  funext b
  by_cases hb : b = a
  · subst hb
    rw [Function.update_self, relink, if_pos rfl, ha, Option.map_some]
  · rw [Function.update_of_ne hb, relink_none_of_ne fun heq => hb (Option.some.inj heq).symm]

theorem setPrev_relink (hm : h m = some c) (hp : p ≠ some m) :
    setPrev m v (relink p none u w h) = some (relink p (some m) u v h) := by
  rw [setPrev, relink_none_of_ne hp, hm, Option.map_some]
  congr 1
  funext b
  by_cases hb : b = m
  · subst hb
    rw [Function.update_self, relink, if_neg hp, if_pos rfl, hm, Option.map_some]
  · have hmb : some m ≠ some b := fun heq => hb (Option.some.inj heq).symm
    rw [Function.update_of_ne hb]
    by_cases hpb : p = some b
    · rw [relink, relink, if_pos hpb, if_pos hpb]
    · rw [relink_none_of_ne hpb, relink_of_ne hpb hmb]

theorem setPrev_eq_relink (hm : h m = some c) : setPrev m v h = some (relink none (some m) u v h) := by
  have hrelink := setPrev_relink (u := u) (v := v) (w := v) hm (Option.some_ne_none m).symm
  rwa [relink_none] at hrelink

end Access

/-! ## Lists -/

/-- The address of the first cell. -/
def first (cs : List (ℕ × α)) : Option ℕ := cs.head?.map Prod.fst

/-- The address of the last cell. -/
def last (cs : List (ℕ × α)) : Option ℕ := cs.getLast?.map Prod.fst

/-- The cells of the list are linked, behind the cell at `p` and before the one at `n`. -/
def Linked (h : Heap α) : Option ℕ → List (ℕ × α) → Option ℕ → Prop
  | _, [], _ => True
  | p, c :: cs, n => h c.1 = some ⟨c.2, (first cs).or n, p⟩ ∧ Linked h (some c.1) cs n

section Lists

variable {h h' : Heap α} {p n : Option ℕ} {cs ds : List (ℕ × α)} {c : ℕ × α} {a : ℕ} {x : α}

@[simp] theorem first_nil : first ([] : List (ℕ × α)) = none := rfl

@[simp] theorem last_nil : last ([] : List (ℕ × α)) = none := rfl

@[simp] theorem first_cons : first (c :: cs) = some c.1 := rfl

@[simp] theorem last_concat : last (cs ++ [c]) = some c.1 := by rw [last, List.getLast?_concat]; rfl

theorem first_append : first (cs ++ ds) = (first cs).or (first ds) := by cases cs <;> rfl

theorem last_append : last (cs ++ ds) = (last ds).or (last cs) := by
  rcases List.eq_nil_or_concat ds with rfl | ⟨ds, d, rfl⟩
  · rw [List.append_nil, last_nil, Option.none_or]
  · rw [List.concat_eq_append, ← List.append_assoc, last_concat, last_concat, Option.some_or]

theorem last_cons : last (c :: cs) = (last cs).or (some c.1) := by
  rw [← List.singleton_append, last_append]
  rfl

theorem last_append_cons : last (cs ++ c :: ds) = last (c :: ds) := by
  rw [last_append, last_cons, Option.or_assoc, Option.some_or]

/-- A list is cut. -/
theorem linked_append : Linked h p (cs ++ ds) n ↔
    Linked h p cs ((first ds).or n) ∧ Linked h ((last cs).or p) ds n := by
  induction cs generalizing p with
  | nil => exact (and_iff_right trivial).symm
  | cons c cs ih =>
    rw [List.cons_append, Linked, Linked, ih, first_append, last_cons, Option.or_assoc,
      Option.or_assoc, Option.some_or, and_assoc]

theorem linked_singleton : Linked h p [c] n ↔ h c.1 = some ⟨c.2, n, p⟩ :=
  and_iff_left trivial

/-- A cell of a list. -/
theorem Linked.cell (hl : Linked h p (cs ++ c :: ds) n) :
    h c.1 = some ⟨c.2, (first ds).or n, (last cs).or p⟩ := (linked_append.mp hl).2.1

/-- What happens at other addresses does not matter. -/
theorem Linked.frame (hl : Linked h p cs n) (hsame : ∀ c ∈ cs, h' c.1 = h c.1) :
    Linked h' p cs n := by
  induction cs generalizing p with
  | nil => trivial
  | cons c cs ih =>
    rw [List.forall_mem_cons] at hsame
    exact ⟨hsame.1.trans hl.1, ih hl.2 hsame.2⟩

theorem mem_of_first (ha : first cs = some a) : a ∈ cs.map Prod.fst := by
  cases cs with
  | nil => exact absurd ha.symm (Option.some_ne_none a)
  | cons c cs => exact Option.some.inj ha ▸ List.mem_cons_self

theorem mem_of_last (ha : last cs = some a) : a ∈ cs.map Prod.fst := by
  rcases List.eq_nil_or_concat cs with rfl | ⟨cs, c, rfl⟩
  · exact absurd ha.symm (Option.some_ne_none a)
  · rw [List.concat_eq_append] at *
    rw [last_concat] at ha
    exact Option.some.inj ha ▸ List.mem_map_of_mem (List.mem_append_right cs List.mem_cons_self)

/-- The last cell gets another one behind it. -/
theorem Linked.before_relink (hl : Linked h p cs n) (hnodup : (cs.map Prod.fst).Nodup)
    {m u v : Option ℕ} (hm : ∀ b ∈ cs.map Prod.fst, m ≠ some b) :
    Linked (relink (last cs) m u v h) p cs u := by
  rcases List.eq_nil_or_concat cs with rfl | ⟨cs, c, rfl⟩
  · trivial
  · rw [List.concat_eq_append] at *
    rw [List.map_append, List.nodup_append] at hnodup
    rw [linked_append, linked_singleton] at hl ⊢
    rw [last_concat]
    refine ⟨hl.1.frame fun d hd => relink_of_ne ?_ (hm d.1 ?_), ?_⟩
    · intro heq
      exact hnodup.2.2 d.1 (List.mem_map_of_mem hd) c.1 List.mem_cons_self (Option.some.inj heq).symm
    · rw [List.map_append]
      exact List.mem_append_left _ (List.mem_map_of_mem hd)
    · rw [relink, if_pos rfl, hl.2, Option.map_some]

/-- The first cell gets another one before it. -/
theorem Linked.behind_relink (hl : Linked h p cs n) (hnodup : (cs.map Prod.fst).Nodup)
    {q u v : Option ℕ} (hq : ∀ b ∈ cs.map Prod.fst, q ≠ some b) :
    Linked (relink q (first cs) u v h) v cs n := by
  cases cs with
  | nil => trivial
  | cons c cs =>
    rw [List.map_cons, List.nodup_cons] at hnodup
    refine ⟨?_, hl.2.frame fun d hd => relink_of_ne (hq d.1 ?_) ?_⟩
    · rw [relink, if_neg (hq c.1 List.mem_cons_self), first_cons, if_pos rfl, hl.1, Option.map_some]
    · exact List.mem_cons_of_mem _ (List.mem_map_of_mem hd)
    · intro heq
      exact hnodup.1 (Option.some.inj heq ▸ List.mem_map_of_mem hd)

section Cut

variable (hnodup : ((cs ++ ds).map Prod.fst).Nodup)
include hnodup

theorem first_ne_of_mem_before {b : ℕ} (hb : b ∈ cs.map Prod.fst) : first ds ≠ some b := by
  rw [List.map_append, List.nodup_append] at hnodup
  exact fun hfirst => hnodup.2.2 b hb b (mem_of_first hfirst) rfl

theorem last_ne_of_mem_behind {b : ℕ} (hb : b ∈ ds.map Prod.fst) : last cs ≠ some b := by
  rw [List.map_append, List.nodup_append] at hnodup
  exact fun hlast => hnodup.2.2 b (mem_of_last hlast) b hb rfl

/-- Two parts of a list, with other cells between them. -/
theorem linked_relink {q m u v : Option ℕ} (hcs : Linked h p cs q) (hds : Linked h m ds n) :
    Linked (relink (last cs) (first ds) u v h) p cs u ∧
      Linked (relink (last cs) (first ds) u v h) v ds n := by
  have hparts := hnodup
  rw [List.map_append, List.nodup_append] at hparts
  exact ⟨hcs.before_relink hparts.1 fun b => first_ne_of_mem_before hnodup,
    hds.behind_relink hparts.2.1 fun b => last_ne_of_mem_behind hnodup⟩

end Cut

/-- **A cell is put in.** It points to its neighbours, and they to it. -/
theorem Linked.insert (hl : Linked h p (cs ++ ds) n) (hnodup : ((cs ++ ds).map Prod.fst).Nodup)
    (ha : a ∉ (cs ++ ds).map Prod.fst) :
    Linked (alloc a ⟨x, (first ds).or n, (last cs).or p⟩
      (relink (last cs) (first ds) (some a) (some a) h)) p (cs ++ (a, x) :: ds) n := by
  have hne : ∀ c ∈ cs ++ ds, c.1 ≠ a := fun c hc heq => ha (heq ▸ List.mem_map_of_mem hc)
  rw [linked_append] at hl ⊢
  obtain ⟨hcs, hds⟩ := linked_relink hnodup hl.1 hl.2 (u := some a) (v := some a)
  refine ⟨hcs.frame fun c hc => alloc_of_ne (hne c (List.mem_append_left _ hc)), alloc_self, ?_⟩
  exact hds.frame fun c hc => alloc_of_ne (hne c (List.mem_append_right _ hc))

/-- **A cell is taken out.** Its neighbours point to each other. -/
theorem Linked.remove (hl : Linked h p (cs ++ c :: ds) n)
    (hnodup : ((cs ++ c :: ds).map Prod.fst).Nodup) :
    Linked (free c.1 (relink (last cs) (first ds) ((first ds).or n) ((last cs).or p) h)) p
      (cs ++ ds) n := by
  have hsub : ((cs ++ ds).map Prod.fst).Nodup :=
    hnodup.sublist (((List.sublist_cons_self c ds).append_left cs).map Prod.fst)
  have hne : ∀ d ∈ cs ++ ds, d.1 ≠ c.1 := by
    rw [List.map_append, List.map_cons, List.nodup_middle, List.nodup_cons, ← List.map_append] at hnodup
    exact fun d hd heq => hnodup.1 (heq ▸ List.mem_map_of_mem hd)
  rw [linked_append] at hl ⊢
  obtain ⟨hcs, hds⟩ := linked_relink hsub hl.1 hl.2.2
    (u := (first ds).or n) (v := (last cs).or p)
  exact ⟨hcs.frame fun d hd => free_of_ne (hne d (List.mem_append_left _ hd)),
    hds.frame fun d hd => free_of_ne (hne d (List.mem_append_right _ hd))⟩

/-! ## Walks -/

/-- A walk finds what the list has. -/
theorem Linked.scan_eq (hl : Linked h p cs none) (q : α → Bool) {fuel : ℕ}
    (hfuel : cs.length ≤ fuel) :
    scan q h fuel (first cs) = some ((cs.find? fun c => q c.2).map Prod.fst) := by
  induction cs generalizing p fuel with
  | nil => cases fuel <;> rfl
  | cons c cs ih =>
    obtain ⟨fuel, rfl⟩ := Nat.exists_eq_add_of_le' (Nat.one_le_of_lt hfuel)
    obtain ⟨hcell, hrest⟩ := hl
    rw [first_cons, scan, hcell, Option.bind_some, List.find?_cons, Option.or_none]
    cases q c.2 with
    | true => rfl
    | false => exact ih hrest (Nat.le_of_succ_le_succ hfuel)

/-- A whole list is freed, and nothing else. -/
theorem Linked.freeAll_eq (hl : Linked h p cs none) (hnodup : (cs.map Prod.fst).Nodup) {fuel : ℕ}
    (hfuel : cs.length ≤ fuel) :
    ∃ h', freeAll fuel (first cs) h = some h' ∧
      ∀ b, h' b = if b ∈ cs.map Prod.fst then none else h b := by
  induction cs generalizing h p fuel with
  | nil => exact ⟨h, by cases fuel <;> rfl, fun b => rfl⟩
  | cons c cs ih =>
    obtain ⟨fuel, rfl⟩ := Nat.exists_eq_add_of_le' (Nat.one_le_of_lt hfuel)
    obtain ⟨hcell, hrest⟩ := hl
    rw [List.map_cons, List.nodup_cons] at hnodup
    have hkept : Linked (free c.1 h) (some c.1) cs none := by
      refine hrest.frame fun d hd => Function.update_of_ne ?_ _ _
      rintro heq
      exact hnodup.1 (heq ▸ List.mem_map_of_mem hd)
    obtain ⟨h', hfree, hh'⟩ := ih hkept hnodup.2 (Nat.le_of_succ_le_succ hfuel)
    refine ⟨h', ?_, fun b => ?_⟩
    · rw [first_cons, freeAll, hcell, Option.bind_some, Option.or_none]
      exact hfree
    · rw [hh', List.map_cons]
      by_cases hb : b = c.1
      · subst hb
        rw [if_neg hnodup.1, if_pos List.mem_cons_self]
        exact Function.update_self ..
      · have hsame : free c.1 h b = h b := Function.update_of_ne hb ..
        simp only [List.mem_cons, hb, false_or, hsame]

end Lists

end LinkedList
