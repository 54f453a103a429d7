import Mathlib.Data.List.Nodup
import Mathlib.Data.List.Infix

/-!
# Trees with named edges

A tree whose inner nodes have children under names, in an order. A node is known by its path, the
names from the root down to it, and `paths` lists the nodes in preorder. If siblings have different
names, every node is listed once (`nodup_paths`) and none before one above it (`listed_before`).
-/

namespace NamedTree

universe u v

mutual

/-- A tree with labelled leaves. -/
inductive Tree (κ : Type u) (α : Type v)
  | leaf (label : α)
  | node (children : Forest κ α)

/-- The children of a node. -/
inductive Forest (κ : Type u) (α : Type v)
  | nil
  | cons (name : κ) (child : Tree κ α) (rest : Forest κ α)

end

variable {κ : Type u} {α : Type v}

/-- The children with their names. -/
def Forest.toList : Forest κ α → List (κ × Tree κ α)
  | .nil => []
  | .cons name child rest => (name, child) :: rest.toList

/-- The names of the children. -/
def Forest.names (ts : Forest κ α) : List κ := ts.toList.map Prod.fst

mutual

/-- The paths of the nodes, in preorder. -/
def Tree.paths : Tree κ α → List (List κ)
  | .leaf _ => [[]]
  | .node children => [] :: children.paths

def Forest.paths : Forest κ α → List (List κ)
  | .nil => []
  | .cons name child rest => child.paths.map (name :: ·) ++ rest.paths

end

mutual

/-- Siblings have different names. -/
def Tree.Distinct : Tree κ α → Prop
  | .leaf _ => True
  | .node children => children.names.Nodup ∧ children.Distinct

def Forest.Distinct : Forest κ α → Prop
  | .nil => True
  | .cons _ child rest => child.Distinct ∧ rest.Distinct

end

mutual

/-- How many nodes a path of the tree goes through at most. -/
def Tree.height : Tree κ α → ℕ
  | .leaf _ => 1
  | .node children => children.height + 1

def Forest.height : Forest κ α → ℕ
  | .nil => 0
  | .cons _ child rest => max child.height rest.height

end

/-- `At t p u`: the path `p` leads from the root of `t` to `u`. -/
inductive At : Tree κ α → List κ → Tree κ α → Prop
  | root (t : Tree κ α) : At t [] t
  | down {ts : Forest κ α} {name : κ} {t u : Tree κ α} {p : List κ} :
      (name, t) ∈ ts.toList → At t p u → At (.node ts) (name :: p) u

/-! ## The nodes are listed -/

mutual

theorem Tree.mem_paths_iff {p : List κ} : (t : Tree κ α) → (p ∈ t.paths ↔ ∃ u, At t p u)
  | .leaf label => by
    rw [Tree.paths, List.mem_singleton]
    constructor
    · rintro rfl
      exact ⟨_, .root _⟩
    · rintro ⟨u, hu⟩
      cases hu
      rfl
  | .node children => by
    rw [Tree.paths, List.mem_cons, children.mem_paths_iff]
    constructor
    · rintro (rfl | ⟨name, t, q, u, hmem, rfl, hat⟩)
      · exact ⟨_, .root _⟩
      · exact ⟨u, .down hmem hat⟩
    · rintro ⟨u, hu⟩
      cases hu with
      | root => exact .inl rfl
      | down hmem hat => exact .inr ⟨_, _, _, u, hmem, rfl, hat⟩

theorem Forest.mem_paths_iff {p : List κ} : (ts : Forest κ α) →
    (p ∈ ts.paths ↔ ∃ name t q u, (name, t) ∈ ts.toList ∧ p = name :: q ∧ At t q u)
  | .nil => by simp [Forest.paths, Forest.toList]
  | .cons name child rest => by
    rw [Forest.paths, List.mem_append, List.mem_map, rest.mem_paths_iff]
    simp only [Forest.toList, List.mem_cons]
    constructor
    · rintro (⟨q, hq, rfl⟩ | ⟨name', t, q, u, hmem, hp, hat⟩)
      · obtain ⟨u, hu⟩ := child.mem_paths_iff.mp hq
        exact ⟨name, child, q, u, .inl rfl, rfl, hu⟩
      · exact ⟨name', t, q, u, .inr hmem, hp, hat⟩
    · rintro ⟨name', t, q, u, hmem | hmem, hp, hat⟩
      · obtain ⟨hname, hchild⟩ := Prod.mk.inj hmem
        rw [hchild] at hat
        rw [hname] at hp
        exact .inl ⟨q, child.mem_paths_iff.mpr ⟨u, hat⟩, hp.symm⟩
      · exact .inr ⟨name', t, q, u, hmem, hp, hat⟩

end

/-- A path below a forest starts with one of its names. -/
theorem Forest.exists_name {ts : Forest κ α} {p : List κ} (h : p ∈ ts.paths) :
    ∃ name q, name ∈ ts.names ∧ p = name :: q := by
  obtain ⟨name, t, q, u, hmem, rfl, -⟩ := ts.mem_paths_iff.mp h
  exact ⟨name, q, List.mem_map_of_mem hmem, rfl⟩

/-! ## Once, and from above -/

mutual

theorem Tree.nodup_paths : (t : Tree κ α) → t.Distinct → t.paths.Nodup
  | .leaf _, _ => by simp [Tree.paths]
  | .node children, h => by
    refine List.nodup_cons.mpr ⟨?_, children.nodup_paths h.1 h.2⟩
    intro hmem
    obtain ⟨name, q, -, hp⟩ := Forest.exists_name hmem
    exact absurd hp (List.cons_ne_nil name q).symm

theorem Forest.nodup_paths : (ts : Forest κ α) → ts.names.Nodup → ts.Distinct → ts.paths.Nodup
  | .nil, _, _ => List.nodup_nil
  | .cons name child rest, hnames, h => by
    obtain ⟨hname, hrest⟩ := List.nodup_cons.mp hnames
    refine List.Nodup.append ?_ (rest.nodup_paths hrest h.2) ?_
    · exact (child.nodup_paths h.1).map (List.cons_injective)
    · intro p hp hp'
      obtain ⟨q, -, rfl⟩ := List.mem_map.mp hp
      obtain ⟨name', q', hmem, heq⟩ := Forest.exists_name hp'
      obtain ⟨rfl, -⟩ := List.cons.inj heq
      exact hname hmem

end

mutual

theorem Tree.pairwise_paths : (t : Tree κ α) → t.Distinct → t.paths.Pairwise fun p q => ¬ q <+: p
  | .leaf _, _ => List.pairwise_singleton _ _
  | .node children, h => by
    refine List.pairwise_cons.mpr ⟨?_, children.pairwise_paths h.1 h.2⟩
    intro q hq hle
    obtain ⟨name, q', -, rfl⟩ := Forest.exists_name hq
    exact absurd (List.prefix_nil.mp hle) (List.cons_ne_nil _ _)

theorem Forest.pairwise_paths : (ts : Forest κ α) → ts.names.Nodup → ts.Distinct →
    ts.paths.Pairwise fun p q => ¬ q <+: p
  | .nil, _, _ => List.Pairwise.nil
  | .cons name child rest, hnames, h => by
    obtain ⟨hname, hrest⟩ := List.nodup_cons.mp hnames
    refine List.pairwise_append.mpr ⟨?_, rest.pairwise_paths hrest h.2, ?_⟩
    · refine List.pairwise_map.mpr ((child.pairwise_paths h.1).imp ?_)
      intro p q hpq hle
      exact hpq (List.cons_prefix_cons.mp hle).2
    · intro p hp q hq hle
      obtain ⟨p', -, rfl⟩ := List.mem_map.mp hp
      obtain ⟨name', q', hmem, rfl⟩ := Forest.exists_name hq
      obtain ⟨rfl, -⟩ := List.cons_prefix_cons.mp hle
      exact hname hmem

end

/-- A node is listed before all nodes below it. -/
theorem Tree.listed_before {t : Tree κ α} (h : t.Distinct) {p q : List κ} (hp : p ∈ t.paths)
    (hq : q ∈ t.paths) (hle : p <+: q) (hne : p ≠ q) :
    ∃ before after, t.paths = before ++ q :: after ∧ p ∈ before := by
  obtain ⟨before, after, hpaths⟩ := List.append_of_mem hq
  have hpair := t.pairwise_paths h
  rw [hpaths] at hp hpair
  refine ⟨before, after, hpaths, ?_⟩
  rcases List.mem_append.mp hp with hp | hp
  · exact hp
  · rcases List.mem_cons.mp hp with hp | hp
    · exact absurd hp hne
    · have hrest := List.pairwise_cons.mp (List.pairwise_append.mp hpair).2.1
      exact absurd hle (hrest.1 p hp)

end NamedTree
