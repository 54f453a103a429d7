import Mathlib.Logic.Function.Basic
import Mathlib.Data.Option.Basic
import Mathlib.Data.Nat.Notation

/-!
# Hash tables with chaining

A table is a list of elements for every bucket, in the order in which they were added. The hash
function sees the key of an element only, so a key is searched in the bucket its elements were added
to, and the table behaves as the list of all its elements: the first one with the key is found.
-/

namespace ChainedHash

/-- The elements of every bucket. -/
abbrev Table (α : Type*) := ℕ → List α

variable {α κ : Type*} [DecidableEq κ] (hash : κ → ℕ) (key : α → κ)

/-- No element. -/
def empty : Table α := fun _ => []

/-- Add an element at the end of its bucket. -/
def add (x : α) (h : Table α) : Table α := Function.update h (hash (key x)) (h (hash (key x)) ++ [x])

/-- The first element with a key. -/
def getkey (k : κ) (h : Table α) : Option α := (h (hash k)).find? fun x => k = key x

/-- Change the first element of a list with a key. -/
def modifyFirst (k : κ) (f : α → α) : List α → List α
  | [] => []
  | x :: xs => if k = key x then f x :: xs else x :: modifyFirst k f xs

/-- Change the first element with a key, in its place. -/
def modify (k : κ) (f : α → α) (h : Table α) : Table α :=
  Function.update h (hash k) (modifyFirst key k f (h (hash k)))

variable {hash key}

/-- An element that is added is found behind the others of its key. -/
theorem getkey_add (k : κ) (x : α) (h : Table α) :
    getkey hash key k (add hash key x h) =
      (getkey hash key k h).or (if k = key x then some x else none) := by
  rw [getkey, getkey, add]
  by_cases hbucket : hash k = hash (key x)
  · rw [hbucket, Function.update_self, List.find?_append]
    by_cases hk : k = key x
    · rw [if_pos hk, List.find?_cons_of_pos (by simpa using hk)]
    · rw [if_neg hk, List.find?_cons_of_neg (by simpa using hk), List.find?_nil]
  · have hk : k ≠ key x := fun hk => hbucket (congrArg hash hk)
    rw [Function.update_of_ne hbucket, if_neg hk, Option.or_none]

theorem find?_modifyFirst {k : κ} {f : α → α} (hf : ∀ x, key (f x) = key x) (j : κ) (xs : List α) :
    (modifyFirst key k f xs).find? (fun x => j = key x) =
      if j = k then (xs.find? fun x => j = key x).map f else xs.find? fun x => j = key x := by
  induction xs with
  | nil =>
    rw [modifyFirst, List.find?_nil, Option.map_none, ite_self]
  | cons x xs ih =>
    rw [modifyFirst]
    by_cases hx : k = key x
    · rw [if_pos hx]
      by_cases hj : j = k
      · have hjx : j = key x := hj.trans hx
        rw [if_pos hj, List.find?_cons_of_pos (by simpa [hf] using hjx),
          List.find?_cons_of_pos (by simpa using hjx)]
        rfl
      · have hjx : j ≠ key x := fun h => hj (h.trans hx.symm)
        rw [if_neg hj, List.find?_cons_of_neg (by simpa [hf] using hjx),
          List.find?_cons_of_neg (by simpa using hjx)]
    · rw [if_neg hx]
      by_cases hjx : j = key x
      · have hj : j ≠ k := fun h => hx (h.symm.trans hjx)
        rw [if_neg hj, List.find?_cons_of_pos (by simpa using hjx),
          List.find?_cons_of_pos (by simpa using hjx)]
      · rw [List.find?_cons_of_neg (by simpa using hjx), ih,
          List.find?_cons_of_neg (by simpa using hjx)]

/-- A change of an element that keeps its key. -/
theorem getkey_modify {k : κ} {f : α → α} (hf : ∀ x, key (f x) = key x) (j : κ) (h : Table α) :
    getkey hash key j (modify hash key k f h) =
      if j = k then (getkey hash key j h).map f else getkey hash key j h := by
  rw [getkey, modify, getkey]
  by_cases hbucket : hash j = hash k
  · rw [hbucket, Function.update_self, find?_modifyFirst hf]
  · have hj : j ≠ k := fun hj => hbucket (congrArg hash hj)
    rw [Function.update_of_ne hbucket, if_neg hj]

end ChainedHash
