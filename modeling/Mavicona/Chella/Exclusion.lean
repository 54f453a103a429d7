import Mavicona.Common.Run
import Mathlib.Logic.Function.Basic

/-!
# Concurrent runs in one job home

Reference: `chella/exec.cpp` (`Execute::run`), `chella/localenv.cpp`, `chella/localenv.h`.

A worker forks for every job, so that runs of one package share a home. Each of them tests for
`MXLOCK`, makes the home ready, creates `MXLOCK`, runs the job, and removes it. The test and the
creation are two steps, with the extraction of the package between them, and the file has no owner.
The runs are indexed by any type, and their steps interleave in any order.
-/

namespace Mavicona.Chella

open Trace

/-! ## The steps of the runs -/

/-- Where a run is: in its loop on `isLocked`, behind it, in a home that is ready, in the body of the
job, before its teardown, or at its end. From `setLock` on the place records whether `MXLOCK` could be
created. -/
inductive Place
  | waiting
  | tested
  | ready
  | body (marked : Bool)
  | teardown (marked : Bool)
  | ended
deriving DecidableEq, Repr

/-- The home of a package, and the runs in it. -/
structure Home (ι : Type*) where
  locked : Bool
  hasHome : Bool
  place : ι → Place

/-- A step of a run. `setupHome`, `opens` and `unlinks` say whether the call succeeds, `returns` whether
the job leaves by one of the early returns, and a run may die anywhere. -/
inductive HomeStep (ι : Type*)
  | isLocked (i : ι)
  | prepare (i : ι) (setupHome : Bool)
  | setLock (i : ι) (opens : Bool)
  | body (i : ι) (returns : Bool)
  | teardown (i : ι) (unlinks : Bool)
  | die (i : ι)

namespace Home

variable {ι : Type*} [DecidableEq ι]

/-- All runs are before their first test. -/
def start (locked hasHome : Bool) : Home ι := ⟨locked, hasHome, fun _ => .waiting⟩

/-- One run changes its place. -/
def move (h : Home ι) (i : ι) (p : Place) : Home ι := { h with place := Function.update h.place i p }

theorem place_move (h : Home ι) (i j : ι) (p : Place) :
    (h.move i p).place j = if j = i then p else h.place j := Function.update_apply _ _ _ _

/-- One step of one run. A step the run is not at does nothing. -/
def step (h : Home ι) : HomeStep ι → Home ι
  | .isLocked i =>
    if h.place i = .waiting then
      if h.locked then h else h.move i .tested
    else h
  | .prepare i setupHome =>
    if h.place i = .tested then
      if h.hasHome then h.move i .ready
      else if setupHome then { h.move i .ready with hasHome := true }
      else h.move i .ended
    else h
  | .setLock i opens =>
    if h.place i = .ready then { h.move i (.body opens) with locked := h.locked || opens } else h
  | .body i returns =>
    match h.place i with
    | .body marked => h.move i (if returns then .ended else .teardown marked)
    | _ => h
  | .teardown i unlinks =>
    match h.place i with
    | .teardown _ => { h.move i .ended with locked := h.locked && !unlinks }
    | _ => h
  | .die i => h.move i .ended

end Home

/-! ## Exclusion -/

/-- Between the end of the wait and the teardown. -/
def Place.Inside : Place → Prop
  | .waiting | .ended => False
  | _ => True

/-- Inside, behind a `setLock` that has created `MXLOCK`. -/
def Place.Marked : Place → Prop
  | .body marked | .teardown marked => marked = true
  | _ => False

/-- At most one run is inside. -/
def Home.Exclusive {ι : Type*} (h : Home ι) : Prop :=
  ∀ i j, (h.place i).Inside → (h.place j).Inside → i = j

/-- A run that passes its test finds no run that is inside and has not created `MXLOCK`: none between
its own test and its `setLock`, and none whose `setLock` has failed. -/
def Home.Guard {ι : Type*} (h : Home ι) : HomeStep ι → Prop
  | .isLocked i => h.place i = .waiting → h.locked = false →
      ∀ j, (h.place j).Inside → (h.place j).Marked
  | _ => True

namespace Home

variable {ι : Type*} [DecidableEq ι] {h : Home ι}

/-- What holds as long as the guard is met: the run inside is the only one, and the lock it has
created is there. -/
structure Held (h : Home ι) : Prop where
  exclusive : h.Exclusive
  locked : ∀ i, (h.place i).Marked → h.locked = true

omit [DecidableEq ι] in
theorem held_start (locked hasHome : Bool) : (start locked hasHome : Home ι).Held :=
  ⟨fun _ _ hi => hi.elim, fun _ hi => hi.elim⟩

/-- A run that changes its place without entering. -/
theorem Exclusive.move (hh : h.Exclusive) {i : ι} {p : Place} (hp : p.Inside → (h.place i).Inside) :
    (h.move i p).Exclusive := by
  have hinside : ∀ j, ((h.move i p).place j).Inside → (h.place j).Inside := by
    intro j hj
    rw [place_move] at hj
    split_ifs at hj with heq
    · rw [heq]
      exact hp hj
    · exact hj
  exact fun j k hj hk => hh j k (hinside j hj) (hinside k hk)

/-- A run that changes its place without entering and without creating the lock. -/
theorem Held.move (hh : h.Held) {i : ι} {p : Place} (hp : p.Inside → (h.place i).Inside)
    (hmarked : p.Marked → (h.place i).Marked) : (h.move i p).Held := by
  refine ⟨hh.exclusive.move hp, fun j hj => ?_⟩
  rw [place_move] at hj
  split_ifs at hj with heq
  · exact hh.locked i (hmarked hj)
  · exact hh.locked j hj

/-- A run enters an empty home. -/
theorem Held.enter (hh : h.Held) (hempty : ∀ j, ¬ (h.place j).Inside) (i : ι) :
    (h.move i .tested).Held := by
  have honly : ∀ j, ((h.move i .tested).place j).Inside → j = i := by
    intro j hj
    rw [place_move] at hj
    split_ifs at hj with heq
    · exact heq
    · exact absurd hj (hempty j)
  refine ⟨fun j k hj hk => (honly j hj).trans (honly k hk).symm, fun j hj => ?_⟩
  rw [place_move] at hj
  split_ifs at hj
  · exact hj.elim
  · exact hh.locked j hj

/-- The run inside creates the lock. -/
theorem Held.setLock (hh : h.Held) {i : ι} (hi : h.place i = .ready) (opens : Bool) :
    ({ h.move i (.body opens) with locked := h.locked || opens } : Home ι).Held := by
  refine ⟨hh.exclusive.move fun _ => by rw [hi]; trivial, fun j hj => ?_⟩
  rw [place_move] at hj
  split_ifs at hj
  · have hopens : opens = true := hj
    simp [hopens]
  · simp [hh.locked j hj]

/-- The run inside removes the lock and leaves. -/
theorem Held.teardown (hh : h.Held) {i : ι} (hi : (h.place i).Inside) (locked : Bool) :
    ({ h.move i .ended with locked := locked } : Home ι).Held := by
  refine ⟨hh.exclusive.move False.elim, fun j hj => ?_⟩
  rw [place_move] at hj
  split_ifs at hj with heq
  · exact hj.elim
  -- Another run that has created the lock would be inside as well.
  · have hinside : (h.place j).Inside := by
      cases hplace : h.place j <;> simp_all [Place.Marked, Place.Inside]
    exact absurd (hh.exclusive j i hinside hi) heq

/-- A guarded step. -/
theorem Held.step (hh : h.Held) (a : HomeStep ι) (hguard : h.Guard a) : (h.step a).Held := by
  cases a with
  | isLocked i =>
    rw [Home.step]
    split_ifs with hwaiting hlocked
    · exact hh
    · have hfree : h.locked = false := by simpa using hlocked
      -- A run inside would have created the lock, which the test has not seen.
      refine hh.enter (fun j hj => ?_) i
      rw [hh.locked j (hguard hwaiting hfree j hj)] at hfree
      exact absurd hfree (by decide)
    · exact hh
  | prepare i setupHome =>
    rw [Home.step]
    split_ifs with htested
    · exact hh.move (fun _ => by rw [htested]; trivial) False.elim
    · have hready : (h.move i .ready).Held := hh.move (fun _ => by rw [htested]; trivial) False.elim
      exact ⟨hready.exclusive, hready.locked⟩
    · exact hh.move False.elim False.elim
    · exact hh
  | setLock i opens =>
    rw [Home.step]
    split_ifs with hready
    · exact hh.setLock hready opens
    · exact hh
  | body i returns =>
    rw [Home.step]
    split
    · rename_i marked hbody
      refine hh.move (fun _ => by rw [hbody]; trivial) fun hmarked => ?_
      rw [hbody]
      cases returns with
      | true => exact hmarked.elim
      | false => exact hmarked
    · exact hh
  | teardown i unlinks =>
    rw [Home.step]
    split
    · rename_i marked hteardown
      exact hh.teardown (by rw [hteardown]; trivial) _
    · exact hh
  | die i => exact hh.move False.elim False.elim

/-- A run that passes its test while another one is inside. -/
theorem not_exclusive_step {a : HomeStep ι} (hguard : ¬ h.Guard a) : ¬ (h.step a).Exclusive := by
  cases a with
  | isLocked i =>
    simp only [Guard, not_forall] at hguard
    obtain ⟨hwaiting, hfree, j, hinside, -⟩ := hguard
    have hne : j ≠ i := by
      rintro rfl
      rw [hwaiting] at hinside
      exact hinside
    intro hexclusive
    rw [Home.step, if_pos hwaiting, hfree, if_neg Bool.false_ne_true] at hexclusive
    refine hne (hexclusive j i ?_ ?_)
    · rw [place_move, if_neg hne]
      exact hinside
    · rw [place_move, if_pos rfl]
      trivial
  | prepare | setLock | body | teardown | die => exact absurd trivial hguard

end Home

/-- **When the lock of the job home excludes.** For any number of runs of a package and every
interleaving of their steps: at most one run is between the end of its wait and its teardown, at every
point, if and only if no run passes its `isLocked` test while another one is inside that has not
created `MXLOCK`, either because it is still before its `setLock` or because its `setLock` failed. -/
theorem always_exclusive_iff {ι : Type*} [DecidableEq ι] (locked hasHome : Bool)
    (steps : List (HomeStep ι)) :
    Always Home.step Home.Exclusive (Home.start locked hasHome) steps ↔
      ∃ h, Run Home.step Home.Guard (Home.start locked hasHome) steps h :=
  always_iff_exists_run (Home.held_start locked hasHome) (fun _ hh => hh.exclusive)
    (fun _ a hh hguard => hh.step a hguard) (fun _ _ _ hguard => Home.not_exclusive_step hguard)

/-- Two runs that both test before either creates the lock. -/
theorem not_always_exclusive_two :
    ¬ Always Home.step Home.Exclusive (Home.start false true : Home Bool)
      [.isLocked true, .isLocked false] := by
  intro halways
  have hexclusive := halways 2
  exact absurd (hexclusive true false trivial trivial) (by decide)

end Mavicona.Chella
