import Mavicona.Common.Path

/-!
# A file system

Directories and regular files, without symbolic links. A name leads to a place, the steps of the
name without the ones that stay where they are; an absolute name starts at a place of its own. A
file is an inode with a content, and several places can lead to the same inode.
-/

open Path

/-- A directory or a regular file. -/
inductive Node
  | dir
  | file (ino : ℕ)
  deriving DecidableEq

/-- The nodes, the contents of the inodes, and the first inode that is free. -/
structure Disk where
  node : List Bytes → Option Node
  data : ℕ → Bytes
  next : ℕ

namespace Disk

/-! ## Places -/

/-- The steps of a name that lead on. -/
def walk (name : Bytes) : List Bytes := (steps name).filter (· ≠ [46])

/-- The place a name leads to. -/
def place (name : Bytes) : List Bytes := if name.head? = some 47 then [47] :: walk name else walk name

/-- The last component of a name. -/
def leaf (name : Bytes) : Bytes := (components name).getLastD []

/-- The last component of a name is the name of a file. -/
def IsLeaf (name : Bytes) : Prop := leaf name ≠ [] ∧ leaf name ≠ [46]

instance (name : Bytes) : Decidable (IsLeaf name) := inferInstanceAs (Decidable (_ ∧ _))

section Place

variable {c s t : Bytes}

theorem walk_append (s t : Bytes) : walk (s ++ 47 :: t) = walk s ++ walk t := by
  rw [walk, steps_append, List.filter_append]
  rfl

theorem place_append (hs : s ≠ []) (t : Bytes) : place (s ++ 47 :: t) = place s ++ walk t := by
  rw [place, place, List.head?_append_of_ne_nil _ hs, walk_append]
  split_ifs <;> rfl

theorem components_eq_concat (s : Bytes) : ∃ front last, components s = front ++ [last] :=
  ⟨_, _, (List.dropLast_append_getLast components_ne_nil).symm⟩

theorem steps_eq_of_leaf (h : leaf s ≠ []) : ∃ front, steps s = front ++ [leaf s] := by
  obtain ⟨front, last, hsplit⟩ := components_eq_concat s
  have hleaf : leaf s = last := by rw [leaf, hsplit, List.getLastD_concat]
  refine ⟨front.filter (· ≠ []), ?_⟩
  rw [hleaf] at h ⊢
  rw [steps, hsplit, List.filter_append, List.filter_cons_of_pos (by simpa using h), List.filter_nil]

/-- The place of a file is one step from its directory. -/
theorem walk_eq_of_isLeaf (h : IsLeaf s) :
    walk s = ((steps s).dropLast.filter (· ≠ [46])) ++ [leaf s] := by
  obtain ⟨front, hfront⟩ := steps_eq_of_leaf h.1
  rw [walk, hfront, List.dropLast_concat, List.filter_append,
    List.filter_cons_of_pos (by simpa using h.2), List.filter_nil]

theorem place_dirname (hslash : 47 ∈ trim s) (h : IsLeaf s) :
    place (dirname s) = (place s).dropLast := by
  have hwalk : walk (dirname s) = (walk s).dropLast := by
    rw [walk_eq_of_isLeaf h, List.dropLast_concat, walk, steps_dirname hslash]
  have hne : walk s ≠ [] := by
    rw [walk_eq_of_isLeaf h]
    simp
  rw [place, place, hwalk]
  by_cases habs : s.head? = some 47
  · rw [if_pos ((head?_dirname hslash).mpr habs), if_pos habs, List.dropLast_cons_of_ne_nil hne]
  · rw [if_neg (habs ∘ (head?_dirname hslash).mp), if_neg habs]

theorem leaf_append (s t : Bytes) : leaf (s ++ 47 :: t) = leaf t := by
  rw [leaf, leaf, components_append]
  obtain ⟨front, last, hsplit⟩ := components_eq_concat t
  rw [hsplit, ← List.append_assoc, List.getLastD_concat, List.getLastD_concat]

end Place

/-! ## Calls -/

/-- Why a call fails. -/
inductive Fault
  | exists
  | missing
  deriving DecidableEq

/-- The start of a relative or an absolute name, or a directory. -/
def IsDir (d : Disk) (p : List Bytes) : Prop := p = [] ∨ p = [[47]] ∨ d.node p = some .dir

/-- There is something at a place. -/
def Present (d : Disk) (p : List Bytes) : Prop := d.IsDir p ∨ d.node p ≠ none

instance (d : Disk) (p : List Bytes) : Decidable (d.IsDir p) :=
  inferInstanceAs (Decidable (_ ∨ _ ∨ _))

instance (d : Disk) (p : List Bytes) : Decidable (d.Present p) := inferInstanceAs (Decidable (_ ∨ _))

/-- Make a directory. -/
def mkdir (name : Bytes) (d : Disk) : Option Fault × Disk :=
  if d.Present (place name) then (some .exists, d)
  else if d.IsDir (place name).dropLast then
    (none, { d with node := Function.update d.node (place name) (some .dir) })
  else (some .missing, d)

/-- Make a file, or cut the one that is there, and give its inode. -/
def create (name : Bytes) (d : Disk) : Option ℕ × Disk :=
  if ¬ IsLeaf name ∨ ¬ d.IsDir (place name).dropLast then (none, d)
  else
    match d.node (place name) with
    | some .dir => (none, d)
    | some (.file i) => (some i, { d with data := Function.update d.data i [] })
    | none => (some d.next, ⟨Function.update d.node (place name) (some (.file d.next)),
        Function.update d.data d.next [], d.next + 1⟩)

/-- Write at the end of a file. -/
def append (i : ℕ) (bytes : Bytes) (d : Disk) : Disk :=
  { d with data := Function.update d.data i (d.data i ++ bytes) }

/-- Give a file another name. -/
def link (target name : Bytes) (d : Disk) : Option Fault × Disk :=
  match d.node (place target) with
  | some (.file i) =>
    if d.Present (place name) then (some .exists, d)
    else if IsLeaf name ∧ d.IsDir (place name).dropLast then
      (none, { d with node := Function.update d.node (place name) (some (.file i)) })
    else (some .missing, d)
  | _ => (some .missing, d)

/-- Take a name from a file. -/
def unlink (name : Bytes) (d : Disk) : Option Fault × Disk :=
  match d.node (place name) with
  | some (.file _) => (none, { d with node := Function.update d.node (place name) none })
  | _ => (some .missing, d)

/-- Change what a disk does not keep, the owner, the times or the permissions. -/
def touch (name : Bytes) (d : Disk) : Option Fault × Disk :=
  (if d.Present (place name) then none else some .missing, d)

/-- The content of a file. -/
def read (name : Bytes) (d : Disk) : Option Bytes :=
  match d.node (place name) with
  | some (.file i) => some (d.data i)
  | _ => none

/-! ## Growing -/

/-- The second disk has directories more than the first, at places with `P`. -/
structure Grows (P : List Bytes → Prop) (d e : Disk) : Prop where
  data : e.data = d.data
  next : e.next = d.next
  node : ∀ q, e.node q = d.node q ∨ d.node q = none ∧ e.node q = some .dir ∧ P q

section Grows

variable {P Q : List Bytes → Prop} {d e g : Disk} {p : List Bytes} {name : Bytes}

theorem Grows.refl (d : Disk) : Grows P d d := ⟨rfl, rfl, fun _ => .inl rfl⟩

theorem Grows.trans (h : Grows P d e) (h' : Grows P e g) : Grows P d g := by
  refine ⟨h'.data.trans h.data, h'.next.trans h.next, fun q => ?_⟩
  rcases h.node q with hq | ⟨hnone, hdir, hP⟩
  · rcases h'.node q with hq' | ⟨hnone', hdir', hP'⟩
    · exact .inl (hq'.trans hq)
    · exact .inr ⟨hq ▸ hnone', hdir', hP'⟩
  · rcases h'.node q with hq' | ⟨hnone', -, -⟩
    · exact .inr ⟨hnone, hq'.trans hdir, hP⟩
    · rw [hdir] at hnone'
      exact absurd hnone' (Option.some_ne_none _)

theorem Grows.mono (h : Grows P d e) (hPQ : ∀ q, P q → Q q) : Grows Q d e :=
  ⟨h.data, h.next, fun q => (h.node q).imp_right fun hq => ⟨hq.1, hq.2.1, hPQ q hq.2.2⟩⟩

theorem Grows.keeps (h : Grows P d e) {a : Node} (ha : d.node p = some a) : e.node p = some a := by
  rcases h.node p with hp | ⟨hnone, -, -⟩
  · exact hp.trans ha
  · exact absurd (ha.symm.trans hnone) (Option.some_ne_none _)

theorem Grows.file (h : Grows P d e) {i : ℕ} (hfile : e.node p = some (.file i)) :
    d.node p = some (.file i) := by
  rcases h.node p with hp | ⟨-, hdir, -⟩
  · exact hp.symm.trans hfile
  · exact absurd (hdir.symm.trans hfile) (by simp)

theorem IsDir.grows (hp : d.IsDir p) (h : Grows P d e) : e.IsDir p :=
  hp.imp_right fun hp => hp.imp_right h.keeps

theorem mkdir_grows (name : Bytes) (d : Disk) : Grows (· = place name) d (mkdir name d).2 := by
  rw [mkdir]
  split_ifs with hpresent hparent
  · exact .refl d
  · refine ⟨rfl, rfl, fun q => ?_⟩
    by_cases hq : q = place name
    · refine .inr ⟨?_, by rw [hq]; exact Function.update_self .., hq⟩
      rw [hq]
      exact not_not.mp fun hne => hpresent (.inr hne)
    · exact .inl (Function.update_of_ne hq ..)
  · exact .refl d

theorem Present.grows (hp : d.Present p) (h : Grows P d e) : e.Present p := by
  rcases hp with hdir | hnode
  · exact .inl (hdir.grows h)
  · obtain ⟨a, ha⟩ := Option.ne_none_iff_exists'.mp hnode
    exact .inr (by rw [h.keeps ha]; exact Option.some_ne_none a)

/-- A directory that was made is there. -/
theorem present_mkdir (h : (mkdir name d).1 = none ∨ (mkdir name d).1 = some .exists) :
    (mkdir name d).2.Present (place name) := by
  rw [mkdir] at h ⊢
  split_ifs at h ⊢ with hpresent hparent
  · exact hpresent
  · exact .inl (.inr (.inr (Function.update_self ..)))
  · exact absurd h (by simp)

/-- A directory is made in a directory, unless there is a file in its place. -/
theorem isDir_mkdir (hparent : d.IsDir (place name) ∨ d.IsDir (place name).dropLast)
    (hclear : d.IsDir (place name) ∨ d.node (place name) = none) :
    ((mkdir name d).1 = none ∨ (mkdir name d).1 = some .exists) ∧
    (mkdir name d).2.IsDir (place name) := by
  rw [mkdir]
  by_cases hdir : d.IsDir (place name)
  · rw [if_pos (.inl hdir)]
    exact ⟨.inr rfl, hdir⟩
  · have hpresent : ¬ d.Present (place name) := by
      rintro (h | h)
      · exact hdir h
      · exact h (hclear.resolve_left hdir)
    rw [if_neg hpresent, if_pos (hparent.resolve_left hdir)]
    exact ⟨.inl rfl, .inr (.inr (Function.update_self ..))⟩

end Grows

/-! ## Files -/

section Files

variable {d e : Disk} {i : ℕ} {name target : Bytes}

/-- The disk with a file in a free place. -/
def newFile (d : Disk) (p : List Bytes) : Disk :=
  ⟨Function.update d.node p (some (.file d.next)), Function.update d.data d.next [], d.next + 1⟩

/-- The disk with another name of an inode. -/
def newName (d : Disk) (p : List Bytes) (i : ℕ) : Disk :=
  { d with node := Function.update d.node p (some (.file i)) }

theorem create_eq_some : create name d = (some i, e) ↔
    (IsLeaf name ∧ d.IsDir (place name).dropLast) ∧
      ((d.node (place name) = none ∧ i = d.next ∧ e = d.newFile (place name)) ∨
        (d.node (place name) = some (.file i) ∧
          e = { d with data := Function.update d.data i [] })) := by
  rw [create]
  by_cases hgood : IsLeaf name ∧ d.IsDir (place name).dropLast
  · rw [if_neg (by tauto)]
    match hat : d.node (place name) with
    | none =>
      simp only [Prod.mk.injEq, Option.some.injEq, hgood, true_and, reduceCtorEq, false_and,
        or_false, newFile]
      exact and_congr eq_comm eq_comm
    | some .dir => simp [hgood]
    | some (.file j) =>
      simp only [Prod.mk.injEq, Option.some.injEq, hgood, true_and, reduceCtorEq, false_and, false_or,
        Node.file.injEq]
      constructor
      · rintro ⟨rfl, rfl⟩
        exact ⟨rfl, rfl⟩
      · rintro ⟨rfl, rfl⟩
        exact ⟨rfl, rfl⟩
  · rw [if_pos (by tauto)]
    simp [hgood]

theorem link_eq_none : link target name d = (none, e) ↔
    ∃ i, d.node (place target) = some (.file i) ∧ ¬ d.Present (place name) ∧ IsLeaf name ∧
      d.IsDir (place name).dropLast ∧ e = d.newName (place name) i := by
  rw [link]
  match hat : d.node (place target) with
  | none => simp
  | some .dir => simp
  | some (.file i) =>
    dsimp only
    split_ifs with hpresent hgood
    · simp [hpresent]
    · simp [hpresent, hgood, newName, eq_comm]
    · simp only [Prod.mk.injEq, reduceCtorEq, false_and, false_iff]
      rintro ⟨-, -, -, hleaf, hdir, -⟩
      exact hgood ⟨hleaf, hdir⟩

theorem present_of_update {p : List Bytes} {a : Node}
    (h : e.node = Function.update d.node p (some a)) : e.Present p := by
  right
  rw [h, Function.update_self]
  exact Option.some_ne_none a

theorem append_append (i : ℕ) (a b : Bytes) (d : Disk) :
    (d.append i a).append i b = d.append i (a ++ b) := by
  simp [append]

theorem append_nil (i : ℕ) (d : Disk) : d.append i [] = d := by
  simp [append]

end Files

end Disk
