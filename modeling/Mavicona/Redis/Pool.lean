import Mathlib
import Mavicona.Common.Run

/-!
# The connections of a database slice

Reference: `lib/mavredis/xRedisPool.cpp`, `lib/mavredis/xRedisPool.h`.

A slice has a list of free connections to its master and one to each of its slaves. A thread takes a
connection for a command and puts it back, and every call runs under the lock of the list that it
changes. `GetSlaveConn` takes the first connection of a slave's list without a look whether there is
one.
-/

namespace Mavicona.Redis

open Trace
open scoped List

/-- `ROLE`. -/
inductive Role
  | master
  | slave
  deriving DecidableEq

/-- The status of a database. -/
inductive DBStatus
  | unconn
  | working
  | dead
  deriving DecidableEq

/-- `RedisConn`, by its address. -/
structure RedisConn where
  addr : ℕ
  role : Role
  slaveIdx : ℕ
  deriving DecidableEq

/-- The connections of a list. -/
def RedisConn.Goes (role : Role) (idx : ℕ) (c : RedisConn) : Prop :=
  c.role = role ∧ (role = .slave → c.slaveIdx = idx)

instance (role : Role) (idx : ℕ) : DecidablePred (RedisConn.Goes role idx) := fun c =>
  inferInstanceAs (Decidable (c.role = role ∧ (role = .slave → c.slaveIdx = idx)))

/-- `RedisDBSlice`. -/
structure RedisDBSlice where
  masterConn : List RedisConn
  slaveConn : List (List RedisConn)
  haveSlave : Bool
  status : DBStatus

namespace RedisDBSlice

/-- The constructor. -/
def new : RedisDBSlice := ⟨[], [], false, .unconn⟩

/-- The objects that `RedisConnect` connected. -/
def connected (role : Role) (slaveIdx : ℕ) (attempts : List (ℕ × Bool)) : List RedisConn :=
  (attempts.filter Prod.snd).map fun a => ⟨a.1, role, slaveIdx⟩

/-- `ConnectRedisNodes`, with the new objects and whether they were connected. -/
def connectRedisNodes (role : Role) (attempts : List (ℕ × Bool)) (s : RedisDBSlice) : RedisDBSlice :=
  match role with
  | .master =>
    { s with
      masterConn := s.masterConn ++ connected .master 0 attempts
      status := if connected .master 0 attempts = [] then s.status else .working }
  | .slave =>
    { s with
      slaveConn := s.slaveConn ++ [connected .slave s.slaveConn.length attempts]
      haveSlave := true }

/-- `GetMasterConn`. -/
def getMasterConn (s : RedisDBSlice) : Option RedisConn × RedisDBSlice :=
  match s.masterConn with
  | c :: rest => (some c, { s with masterConn := rest })
  | [] => (none, { s with status := .dead })

/-- `GetSlaveConn`, for a value of `rand`. An empty list has no first connection. -/
def getSlaveConn (rand : ℕ) (s : RedisDBSlice) : Option (Option RedisConn × RedisDBSlice) :=
  if s.slaveConn = [] then some (none, s)
  else
    let idx := rand % s.slaveConn.length
    match s.slaveConn.getD idx [] with
    | c :: rest => some (some c, { s with slaveConn := s.slaveConn.set idx rest })
    | [] => none

/-- `GetConn`. -/
def getConn (ioRole : Role) (rand : ℕ) (s : RedisDBSlice) : Option (Option RedisConn × RedisDBSlice) :=
  match if s.haveSlave then ioRole else .master with
  | .master => some s.getMasterConn
  | .slave => s.getSlaveConn rand

/-- `FreeConn`. The list of a slave has to be there. -/
def freeConn (c : RedisConn) (s : RedisDBSlice) : Option RedisDBSlice :=
  match c.role with
  | .master => some { s with masterConn := s.masterConn ++ [c] }
  | .slave =>
    if c.slaveIdx < s.slaveConn.length then
      some { s with slaveConn := s.slaveConn.modify c.slaveIdx (· ++ [c]) }
    else none

/-- The connections that no thread has. -/
def free (s : RedisDBSlice) : List RedisConn := s.masterConn ++ s.slaveConn.flatten

end RedisDBSlice

/-! ## Threads -/

section Threads

variable {T : Type} [DecidableEq T]

/-- A slice and the threads that have a connection. -/
structure PoolState (T : Type) where
  slice : RedisDBSlice
  held : List (T × RedisConn)

/-- What happens to a slice: a thread begins or ends a command. -/
inductive PoolStep (T : Type)
  | connect (role : Role) (attempts : List (ℕ × Bool))
  | get (t : T) (ioRole : Role) (rand : ℕ)
  | free (t : T)

/-- All connections. -/
def PoolState.conns (s : PoolState T) : List RedisConn := s.slice.free ++ s.held.map Prod.snd

/-- Their addresses. -/
def PoolState.addrs (s : PoolState T) : List ℕ := s.conns.map RedisConn.addr

/-- One step. The lists of the slice are locked, so a step is not interrupted. -/
def PoolStep.run (s : PoolState T) : PoolStep T → Option (PoolState T)
  | .connect role attempts => some { s with slice := s.slice.connectRedisNodes role attempts }
  | .get t ioRole rand =>
    (s.slice.getConn ioRole rand).map fun (c, slice) =>
      ⟨slice, (c.map fun c => (t, c)).toList ++ s.held⟩
  | .free t =>
    match s.held.find? fun p => p.1 = t with
    | none => some s
    | some p => (s.slice.freeConn p.2).map fun slice => ⟨slice, s.held.erase p⟩

/-- A new object has an address of its own, and a thread runs one command at a time. -/
def StepOk (s : PoolState T) : PoolStep T → Prop
  | .connect _ attempts => (s.addrs ++ (attempts.filter Prod.snd).map Prod.fst).Nodup
  | .get t _ _ => t ∉ s.held.map Prod.fst
  | .free _ => True

/-- The addresses of the connections that the steps opened. -/
def openedBy (steps : List (PoolStep T)) : List ℕ :=
  steps.flatMap fun
    | .connect _ attempts => (attempts.filter Prod.snd).map Prod.fst
    | _ => []

/-- A step, unless one before it failed. -/
def stepOption (o : Option (PoolState T)) (step : PoolStep T) : Option (PoolState T) :=
  o.bind fun s => step.run s

/-- A guard for a state that was reached. -/
def OkOption (o : Option (PoolState T)) (step : PoolStep T) : Prop := ∀ s, o = some s → StepOk s step

end Threads

/-! ## The calls of a slice -/

section Slices

variable {α : Type*} {L : List (List α)} {i : ℕ} {c : α} {rest : List α}

theorem perm_flatten_set (hi : L.getD i [] = c :: rest) :
    (c :: (L.set i rest).flatten).Perm L.flatten := by
  induction L generalizing i with
  | nil => simp at hi
  | cons l L ih =>
    cases i with
    | zero =>
      obtain rfl : l = c :: rest := hi
      exact .refl _
    | succ i =>
      rw [List.set_cons_succ, List.flatten_cons, List.flatten_cons]
      exact List.perm_middle.symm.trans ((ih hi).append_left l)

theorem perm_flatten_modify (hi : i < L.length) :
    (L.modify i (· ++ [c])).flatten.Perm (c :: L.flatten) := by
  induction L generalizing i with
  | nil => exact absurd hi (Nat.not_lt_zero i)
  | cons l L ih =>
    cases i with
    | zero =>
      rw [List.modify_zero_cons, List.flatten_cons, List.flatten_cons, List.append_assoc]
      exact List.perm_middle
    | succ i =>
      rw [List.modify_succ_cons, List.flatten_cons, List.flatten_cons]
      exact ((ih (Nat.lt_of_succ_lt_succ hi)).append_left l).trans List.perm_middle

theorem mem_getD_modify {j : ℕ} {d : α} (hi : i < L.length)
    (hd : d ∈ (L.modify i (· ++ [c])).getD j []) : d ∈ L.getD j [] ∨ j = i ∧ d = c := by
  by_cases hj : j = i
  · subst hj
    rw [List.getD_eq_getElem _ _ (by rwa [List.length_modify]), List.getElem_modify_eq] at hd
    rw [List.getD_eq_getElem _ _ hi]
    exact (List.mem_append.mp hd).imp_right fun hd => ⟨rfl, List.mem_singleton.mp hd⟩
  · rw [List.getD_eq_getElem?_getD, List.getElem?_modify] at hd
    simp only [if_neg (Ne.symm hj), Option.map_eq_map, Option.map_id'] at hd
    rw [← List.getD_eq_getElem?_getD] at hd
    exact Or.inl hd

theorem mem_getD_concat {l : List α} {j : ℕ} {d : α} (hd : d ∈ (L ++ [l]).getD j []) :
    d ∈ L.getD j [] ∨ j = L.length ∧ d ∈ l := by
  rcases Nat.lt_trichotomy j L.length with hj | rfl | hj
  · rw [List.getD_append _ _ _ _ hj] at hd
    exact Or.inl hd
  · rw [List.getD_append_right _ _ _ _ le_rfl, Nat.sub_self] at hd
    exact Or.inr ⟨rfl, hd⟩
  · rw [List.getD_eq_default _ _ (by rw [List.length_append, List.length_singleton]; exact hj)] at hd
    exact absurd hd List.not_mem_nil

namespace RedisDBSlice

/-- Every free connection is in its list. -/
structure Placed (s : RedisDBSlice) : Prop where
  masters : ∀ c ∈ s.masterConn, c.role = .master
  slaves : ∀ i, ∀ c ∈ s.slaveConn.getD i [], c.role = .slave ∧ c.slaveIdx = i
  haveSlave : s.haveSlave = true ↔ s.slaveConn ≠ []

variable {s s' : RedisDBSlice} {o : Option RedisConn} {ioRole : Role} {rand : ℕ}

/-- The list of the slave that `GetSlaveConn` takes is empty. -/
def Exhausted (ioRole : Role) (rand : ℕ) (s : RedisDBSlice) : Prop :=
  s.haveSlave = true ∧ ioRole = .slave ∧ s.slaveConn ≠ [] ∧
    s.slaveConn.getD (rand % s.slaveConn.length) [] = []

theorem getSlaveConn_eq_none_iff : s.getSlaveConn rand = none ↔
    s.slaveConn ≠ [] ∧ s.slaveConn.getD (rand % s.slaveConn.length) [] = [] := by
  rw [getSlaveConn]
  by_cases hnil : s.slaveConn = []
  · rw [if_pos hnil]
    exact iff_of_false (Option.some_ne_none _) fun h => h.1 hnil
  · rw [if_neg hnil, and_iff_right hnil]
    dsimp only
    cases s.slaveConn.getD (rand % s.slaveConn.length) [] with
    | nil => exact iff_of_true rfl rfl
    | cons c rest => exact iff_of_false (Option.some_ne_none _) (List.cons_ne_nil c rest)

theorem getConn_eq_none_iff : s.getConn ioRole rand = none ↔ Exhausted ioRole rand s := by
  rw [RedisDBSlice.getConn, Exhausted]
  cases s.haveSlave with
  | false => exact iff_of_false (Option.some_ne_none _) fun h => Bool.false_ne_true h.1
  | true =>
    cases ioRole with
    | master => exact iff_of_false (Option.some_ne_none _) fun h => nomatch h.2.1
    | slave =>
      rw [and_iff_right rfl, and_iff_right rfl]
      exact getSlaveConn_eq_none_iff

theorem Placed.getMasterConn (hs : s.Placed) :
    s.getMasterConn.2.Placed ∧ (s.getMasterConn.1.toList ++ s.getMasterConn.2.free).Perm s.free ∧
      s.getMasterConn.2.slaveConn = s.slaveConn ∧ ∀ c ∈ s.getMasterConn.1, c.role = .master := by
  obtain ⟨masters, slaves, haveSlave, status⟩ := s
  cases masters with
  | nil => exact ⟨⟨hs.masters, hs.slaves, hs.haveSlave⟩, .refl _, rfl, nofun⟩
  | cons c rest =>
    refine ⟨⟨fun d hd => hs.masters d (List.mem_cons_of_mem c hd), hs.slaves, hs.haveSlave⟩, .refl _,
      rfl, fun d hd => ?_⟩
    rw [← Option.some.inj hd]
    exact hs.masters c List.mem_cons_self

theorem Placed.getSlaveConn (hs : s.Placed) (h : s.getSlaveConn rand = some (o, s')) :
    s'.Placed ∧ (o.toList ++ s'.free).Perm s.free ∧ s'.slaveConn.length = s.slaveConn.length ∧
      ∀ c ∈ o, c.role = .slave → c.slaveIdx < s.slaveConn.length := by
  rw [RedisDBSlice.getSlaveConn] at h
  split_ifs at h with hnil
  · obtain ⟨rfl, rfl⟩ := Prod.mk.inj (Option.some.inj h)
    exact ⟨hs, .refl _, rfl, nofun⟩
  have hidx : rand % s.slaveConn.length < s.slaveConn.length :=
    Nat.mod_lt _ (List.length_pos_iff.mpr hnil)
  generalize rand % s.slaveConn.length = idx at h hidx
  cases hlist : s.slaveConn.getD idx [] with
  | nil => simp only [hlist, reduceCtorEq] at h
  | cons c rest =>
    simp only [hlist, Option.some.injEq, Prod.mk.injEq] at h
    obtain ⟨rfl, rfl⟩ := h
    have hold : ∀ d ∈ c :: rest, d.role = .slave ∧ d.slaveIdx = idx := hlist ▸ hs.slaves idx
    refine ⟨⟨hs.masters, fun i d hd => ?_, ?_⟩, ?_, List.length_set, fun d hd _ => ?_⟩
    · by_cases hi : i = idx
      · subst hi
        rw [List.getD_eq_getElem?_getD, List.getElem?_set_self hidx, Option.getD_some] at hd
        exact hold d (List.mem_cons_of_mem c hd)
      · rw [List.getD_eq_getElem?_getD, List.getElem?_set_ne (Ne.symm hi),
          ← List.getD_eq_getElem?_getD] at hd
        exact hs.slaves i d hd
    · rw [hs.haveSlave, ← List.length_pos_iff, ← List.length_pos_iff, List.length_set]
    · show (c :: (s.masterConn ++ (s.slaveConn.set idx rest).flatten)).Perm
        (s.masterConn ++ s.slaveConn.flatten)
      exact List.perm_middle.symm.trans ((perm_flatten_set hlist).append_left s.masterConn)
    · rw [← Option.some.inj hd, (hold c List.mem_cons_self).2]
      exact hidx

/-- **A connection is taken** from its list. -/
theorem Placed.getConn (hs : s.Placed) (h : s.getConn ioRole rand = some (o, s')) :
    s'.Placed ∧ (o.toList ++ s'.free).Perm s.free ∧ s'.slaveConn.length = s.slaveConn.length ∧
      ∀ c ∈ o, c.role = .slave → c.slaveIdx < s.slaveConn.length := by
  rw [RedisDBSlice.getConn] at h
  cases hrole : (if s.haveSlave then ioRole else .master) with
  | master =>
    rw [hrole] at h
    obtain ⟨hplaced, hperm, hslaves, hmaster⟩ := hs.getMasterConn
    obtain ⟨rfl, rfl⟩ := Prod.mk.inj (Option.some.inj h)
    refine ⟨hplaced, hperm, congrArg List.length hslaves, fun c hc hslave => ?_⟩
    rw [hmaster c hc] at hslave
    exact nomatch hslave
  | slave =>
    rw [hrole] at h
    exact hs.getSlaveConn h

/-- **A connection is put back** into its list. -/
theorem Placed.freeConn {c : RedisConn} (hs : s.Placed)
    (hc : c.role = .slave → c.slaveIdx < s.slaveConn.length) :
    ∃ s', s.freeConn c = some s' ∧ s'.Placed ∧ s'.free.Perm (c :: s.free) ∧
      s'.slaveConn.length = s.slaveConn.length := by
  cases hrole : c.role with
  | master =>
    refine ⟨{ s with masterConn := s.masterConn ++ [c] }, ?_, ⟨fun d hd => ?_, hs.slaves, hs.haveSlave⟩,
      ?_, rfl⟩
    · simp only [RedisDBSlice.freeConn, hrole]
    · rcases List.mem_append.mp hd with hd | hd
      · exact hs.masters d hd
      · rw [List.mem_singleton.mp hd, hrole]
    · rw [free, List.append_assoc]
      exact List.perm_middle
  | slave =>
    have hidx := hc hrole
    refine ⟨{ s with slaveConn := s.slaveConn.modify c.slaveIdx (· ++ [c]) }, ?_,
      ⟨hs.masters, fun i d hd => ?_, ?_⟩, ?_, List.length_modify ..⟩
    · simp only [RedisDBSlice.freeConn, hrole, if_pos hidx]
    · change d ∈ (s.slaveConn.modify c.slaveIdx (· ++ [c])).getD i [] at hd
      rcases mem_getD_modify hidx hd with hd | ⟨rfl, rfl⟩
      · exact hs.slaves i d hd
      · exact ⟨hrole, rfl⟩
    · rw [hs.haveSlave, ← List.length_pos_iff, ← List.length_pos_iff, List.length_modify]
    · exact ((perm_flatten_modify hidx).append_left s.masterConn).trans List.perm_middle

/-- New connections go to the end of their list. -/
theorem Placed.connectRedisNodes (hs : s.Placed) (role : Role) (attempts : List (ℕ × Bool)) :
    (s.connectRedisNodes role attempts).Placed ∧
      (s.connectRedisNodes role attempts).free.Perm
        (connected role (if role = .slave then s.slaveConn.length else 0) attempts ++ s.free) ∧
      (s.connectRedisNodes role attempts).slaveConn.length =
        s.slaveConn.length + if role = .slave then 1 else 0 := by
  have hnew : ∀ slaveIdx, ∀ c ∈ connected role slaveIdx attempts,
      c.role = role ∧ c.slaveIdx = slaveIdx := by
    rintro slaveIdx c hc
    obtain ⟨a, -, rfl⟩ := List.mem_map.mp hc
    exact ⟨rfl, rfl⟩
  cases role with
  | master =>
    refine ⟨⟨fun c hc => ?_, hs.slaves, hs.haveSlave⟩, ?_, rfl⟩
    · rcases List.mem_append.mp hc with hc | hc
      · exact hs.masters c hc
      · exact (hnew 0 c hc).1
    · show (s.masterConn ++ connected .master 0 attempts ++ s.slaveConn.flatten).Perm
        (connected .master 0 attempts ++ (s.masterConn ++ s.slaveConn.flatten))
      rw [← List.append_assoc]
      exact List.perm_append_comm.append_right _
  | slave =>
    refine ⟨⟨hs.masters, fun i c hc => ?_, ?_⟩, ?_, List.length_append⟩
    · rcases mem_getD_concat hc with hold | ⟨hi, hconnected⟩
      · exact hs.slaves i c hold
      · rw [hi]
        exact hnew _ c hconnected
    · exact iff_of_true rfl (List.append_ne_nil_of_right_ne_nil _ (List.cons_ne_nil _ _))
    · show s.masterConn ++ (s.slaveConn ++ [connected .slave s.slaveConn.length attempts]).flatten ~
        connected .slave s.slaveConn.length attempts ++ (s.masterConn ++ s.slaveConn.flatten)
      rw [List.flatten_append, List.flatten_singleton, ← List.append_assoc]
      exact List.perm_append_comm

theorem Placed.of_mem_flatten (hs : s.Placed) {c : RedisConn} (hc : c ∈ s.slaveConn.flatten) :
    c.role = .slave ∧ c ∈ s.slaveConn.getD c.slaveIdx [] := by
  obtain ⟨l, hl, hcl⟩ := List.mem_flatten.mp hc
  obtain ⟨i, hi, rfl⟩ := List.mem_iff_getElem.mp hl
  have hci : c ∈ s.slaveConn.getD i [] := by rwa [List.getD_eq_getElem _ _ hi]
  obtain ⟨hrole, hidx⟩ := hs.slaves i c hci
  rw [hidx]
  exact ⟨hrole, hci⟩

theorem Placed.mem_free_slave (hs : s.Placed) {c : RedisConn} (hc : c ∈ s.free)
    (hrole : c.role = .slave) : c ∈ s.slaveConn.getD c.slaveIdx [] := by
  rcases List.mem_append.mp hc with hmaster | hslave
  · rw [hs.masters c hmaster] at hrole
    cases hrole
  · exact (hs.of_mem_flatten hslave).2

theorem Placed.mem_free_master (hs : s.Placed) {c : RedisConn} (hc : c ∈ s.free)
    (hrole : c.role = .master) : c ∈ s.masterConn := by
  refine (List.mem_append.mp hc).resolve_right fun hslave => ?_
  rw [(hs.of_mem_flatten hslave).1] at hrole
  cases hrole

theorem mem_free_of_mem_getD {i : ℕ} {c : RedisConn} (hc : c ∈ s.slaveConn.getD i []) : c ∈ s.free := by
  refine List.mem_append_right _ (List.mem_flatten.mpr ?_)
  by_cases hi : i < s.slaveConn.length
  · rw [List.getD_eq_getElem _ _ hi] at hc
    exact ⟨s.slaveConn[i], List.getElem_mem hi, hc⟩
  · rw [List.getD_eq_default _ _ (Nat.le_of_not_lt hi)] at hc
    exact absurd hc List.not_mem_nil

/-- A free connection of its list is found. -/
theorem Placed.getConn_of_mem (hs : s.Placed) (hslaves : ioRole = .slave → s.slaveConn ≠ [])
    {d : RedisConn} (hd : d ∈ s.free) (hgoes : d.Goes ioRole (rand % s.slaveConn.length)) :
    ∃ c slice, s.getConn ioRole rand = some (some c, slice) ∧
      c.Goes ioRole (rand % s.slaveConn.length) := by
  cases ioRole with
  | master =>
    have hmaster := hs.mem_free_master hd hgoes.1
    obtain ⟨c, rest, hrest⟩ := List.exists_cons_of_ne_nil (List.ne_nil_of_mem hmaster)
    refine ⟨c, { s with masterConn := rest }, ?_, hs.masters c (hrest ▸ List.mem_cons_self), nofun⟩
    rw [RedisDBSlice.getConn, ite_self, RedisDBSlice.getMasterConn, hrest]
  | slave =>
    have hlist : d ∈ s.slaveConn.getD (rand % s.slaveConn.length) [] :=
      hgoes.2 rfl ▸ hs.mem_free_slave hd hgoes.1
    obtain ⟨c, rest, hrest⟩ := List.exists_cons_of_ne_nil (List.ne_nil_of_mem hlist)
    obtain ⟨hrole, hidx⟩ := hs.slaves _ c (hrest ▸ List.mem_cons_self)
    refine ⟨c, { s with slaveConn := s.slaveConn.set (rand % s.slaveConn.length) rest }, ?_, hrole,
      fun _ => hidx⟩
    rw [RedisDBSlice.getConn, if_pos (hs.haveSlave.mpr (hslaves rfl)), RedisDBSlice.getSlaveConn,
      if_neg (hslaves rfl)]
    simp only [hrest]

end RedisDBSlice

end Slices

/-! ## Runs -/

section Runs

variable {T : Type} {s s' : PoolState T} {step : PoolStep T} {steps : List (PoolStep T)}
  {o : Option (PoolState T)} {t : T} {ioRole : Role} {rand : ℕ}

/-- Every connection is in its list or goes back to one. -/
structure PoolState.Placed (s : PoolState T) : Prop where
  slice : s.slice.Placed
  held : ∀ p ∈ s.held, p.2.role = .slave → p.2.slaveIdx < s.slice.slaveConn.length

/-- The connections that a step opens. -/
def connectedBy (s : PoolState T) : PoolStep T → List RedisConn
  | .connect role attempts =>
    RedisDBSlice.connected role (if role = .slave then s.slice.slaveConn.length else 0) attempts
  | _ => []

/-- The slaves that a step adds. -/
def slavesBy : PoolStep T → ℕ
  | .connect .slave _ => 1
  | _ => 0

/-- What is kept over a run. -/
structure PoolInv (steps : List (PoolStep T)) (s : PoolState T) : Prop where
  placed : s.Placed
  threads : (s.held.map Prod.fst).Nodup
  addrs : s.addrs.Perm (openedBy steps)
  nodup : s.addrs.Nodup

theorem addr_connectedBy : (connectedBy s step).map RedisConn.addr = openedBy [step] := by
  cases step with
  | connect role attempts =>
    rw [connectedBy, RedisDBSlice.connected, List.map_map]
    exact (List.append_nil _).symm
  | get t ioRole rand => rfl
  | free t => rfl

theorem PoolInv.not_mem_free {c : RedisConn} (hs : PoolInv steps s) (hc : c ∈ s.held.map Prod.snd) :
    c ∉ s.slice.free := fun hfree =>
  List.disjoint_of_nodup_append (List.Nodup.of_map _ hs.nodup) hfree hc

theorem PoolInv.exhausted_iff (hs : PoolInv steps s) :
    s.slice.Exhausted ioRole rand ↔ ioRole = .slave ∧ s.slice.slaveConn ≠ [] ∧
      ∀ c ∈ s.conns, c.Goes .slave (rand % s.slice.slaveConn.length) → c ∈ s.held.map Prod.snd := by
  constructor
  · rintro ⟨-, hrole, hne, hempty⟩
    refine ⟨hrole, hne, fun c hc hgoes => (List.mem_append.mp hc).resolve_left fun hfree => ?_⟩
    have hlist := hs.placed.slice.mem_free_slave hfree hgoes.1
    rw [hgoes.2 rfl, hempty] at hlist
    exact absurd hlist List.not_mem_nil
  · rintro ⟨hrole, hne, hheld⟩
    refine ⟨hs.placed.slice.haveSlave.mpr hne, hrole, hne, ?_⟩
    refine List.eq_nil_iff_forall_not_mem.mpr fun c hc => ?_
    obtain ⟨hslave, hidx⟩ := hs.placed.slice.slaves _ c hc
    have hfree := RedisDBSlice.mem_free_of_mem_getD hc
    exact hs.not_mem_free (hheld c (List.mem_append_left _ hfree) ⟨hslave, fun _ => hidx⟩) hfree

variable [DecidableEq T]

/-- **One step** moves connections, and only opens new ones. -/
theorem PoolState.Placed.next (hs : s.Placed) (h : step.run s = some s') :
    s'.Placed ∧ s'.conns.Perm (connectedBy s step ++ s.conns) ∧
      s'.slice.slaveConn.length = s.slice.slaveConn.length + slavesBy step := by
  cases step with
  | connect role attempts =>
    obtain rfl := Option.some.inj h
    obtain ⟨hplaced, hperm, hlength⟩ := hs.slice.connectRedisNodes role attempts
    refine ⟨⟨hplaced, fun p hp hrole => ?_⟩, ?_, ?_⟩
    · exact (hs.held p hp hrole).trans_le (hlength.symm ▸ Nat.le_add_right _ _)
    · show _ ~ RedisDBSlice.connected role _ attempts ++ (s.slice.free ++ s.held.map Prod.snd)
      rw [← List.append_assoc]
      exact hperm.append_right _
    · cases role <;> exact hlength
  | get t ioRole rand =>
    obtain ⟨⟨o, slice⟩, hget, rfl⟩ := Option.map_eq_some_iff.mp h
    obtain ⟨hplaced, hperm, hlength, hslot⟩ := hs.slice.getConn hget
    refine ⟨⟨hplaced, fun p hp hrole => ?_⟩, ?_, hlength⟩
    · rw [hlength]
      cases o with
      | none => exact hs.held p hp hrole
      | some c =>
        rcases List.mem_cons.mp hp with rfl | hp
        · exact hslot c rfl hrole
        · exact hs.held p hp hrole
    · cases o with
      | none => exact hperm.append_right _
      | some c => exact List.perm_middle.trans (hperm.append_right _)
  | free t =>
    rw [PoolStep.run] at h
    cases hfind : s.held.find? fun p => p.1 = t with
    | none =>
      rw [hfind] at h
      obtain rfl := Option.some.inj h
      exact ⟨hs, .refl _, rfl⟩
    | some p =>
      rw [hfind] at h
      have hp : p ∈ s.held := List.mem_of_find?_eq_some hfind
      obtain ⟨slice, hfree, hplaced, hperm, hlength⟩ := hs.slice.freeConn (hs.held p hp)
      obtain ⟨slice', hfree', rfl⟩ := Option.map_eq_some_iff.mp h
      obtain rfl := Option.some.inj (hfree.symm.trans hfree')
      refine ⟨⟨hplaced, fun q hq hrole => ?_⟩, ?_, hlength⟩
      · rw [hlength]
        exact hs.held q (List.mem_of_mem_erase hq) hrole
      · calc slice.free ++ (s.held.erase p).map Prod.snd
          _ ~ p.2 :: s.slice.free ++ (s.held.erase p).map Prod.snd := hperm.append_right _
          _ ~ s.slice.free ++ (p :: s.held.erase p).map Prod.snd := List.perm_middle.symm
          _ ~ s.slice.free ++ s.held.map Prod.snd :=
            ((List.perm_cons_erase hp).symm.map Prod.snd).append_left _

/-- A connection can always be put back. -/
theorem PoolState.Placed.free_ne_none (hs : s.Placed) : (PoolStep.free t).run s ≠ none := by
  rw [PoolStep.run]
  split
  · exact Option.some_ne_none _
  · rename_i p hfind
    obtain ⟨slice, hfree, -⟩ := hs.slice.freeConn (hs.held p (List.mem_of_find?_eq_some hfind))
    rw [hfree]
    exact Option.some_ne_none _

theorem threads_step (hthreads : (s.held.map Prod.fst).Nodup) (hok : StepOk s step)
    (h : step.run s = some s') : (s'.held.map Prod.fst).Nodup := by
  cases step with
  | connect role attempts =>
    obtain rfl := Option.some.inj h
    exact hthreads
  | get t ioRole rand =>
    obtain ⟨⟨o, slice⟩, -, rfl⟩ := Option.map_eq_some_iff.mp h
    cases o with
    | none => exact hthreads
    | some c => exact List.nodup_cons.mpr ⟨hok, hthreads⟩
  | free t =>
    rw [PoolStep.run] at h
    split at h
    · obtain rfl := Option.some.inj h
      exact hthreads
    · obtain ⟨slice, -, rfl⟩ := Option.map_eq_some_iff.mp h
      exact hthreads.sublist (List.erase_sublist.map Prod.fst)

theorem PoolInv.next (hs : PoolInv steps s) (hok : StepOk s step) (h : step.run s = some s') :
    PoolInv (steps ++ [step]) s' := by
  obtain ⟨hplaced, hperm, -⟩ := hs.placed.next h
  have haddrs : s'.addrs.Perm (openedBy [step] ++ s.addrs) := by
    have := hperm.map RedisConn.addr
    rwa [List.map_append, addr_connectedBy] at this
  refine ⟨hplaced, threads_step hs.threads hok h, ?_, haddrs.nodup_iff.mpr ?_⟩
  · rw [openedBy, List.flatMap_append]
    exact haddrs.trans (List.perm_append_comm.trans (hs.addrs.append_right _))
  · rw [List.nodup_append_comm]
    cases step with
    | connect role attempts =>
      rw [openedBy, List.flatMap_singleton]
      exact hok
    | get t ioRole rand => exact (List.append_nil s.addrs).symm ▸ hs.nodup
    | free t => exact (List.append_nil s.addrs).symm ▸ hs.nodup

theorem poolInv_of_run (hrun : Run stepOption OkOption (some ⟨.new, []⟩) steps o) :
    ∀ s, o = some s → PoolInv steps s := by
  refine hrun.invariant (P := fun steps o => ∀ s, o = some s → PoolInv steps s) ?_ ?_
  · intro s hs
    obtain rfl := Option.some.inj hs
    exact ⟨⟨⟨nofun, fun i c hc => absurd hc List.not_mem_nil, iff_of_false Bool.false_ne_true (· rfl)⟩,
      nofun⟩, .nil, .refl _, .nil⟩
  · intro steps o step ho hok s' hs'
    obtain ⟨s, rfl, hstep⟩ := Option.bind_eq_some_iff.mp hs'
    exact (ho s rfl).next (hok s rfl) hstep

/-- **No connection is lost, doubled or shared.** In every interleaving of threads that begin and end
commands, with databases connected in between, the connections are those that were opened, each is
either free or with one thread, and a thread has at most one. To end a command never fails, and to begin
one takes the front of an empty list just when threads have every connection of the slave. -/
theorem pool_of_run (hrun : Run stepOption OkOption (some ⟨.new, []⟩) steps (some s)) :
    s.addrs.Perm (openedBy steps) ∧ s.addrs.Nodup ∧ (s.held.map Prod.fst).Nodup ∧
      s.slice.Placed ∧ (∀ t, (PoolStep.free t).run s ≠ none) ∧
      ∀ t ioRole rand, (PoolStep.get t ioRole rand).run s = none ↔
        ioRole = .slave ∧ s.slice.slaveConn ≠ [] ∧
          ∀ c ∈ s.conns, c.Goes .slave (rand % s.slice.slaveConn.length) → c ∈ s.held.map Prod.snd := by
  have hs := poolInv_of_run hrun s rfl
  refine ⟨hs.addrs, hs.nodup, hs.threads, hs.placed.slice, fun t => hs.placed.free_ne_none,
    fun t ioRole rand => ?_⟩
  rw [PoolStep.run, Option.map_eq_none_iff, RedisDBSlice.getConn_eq_none_iff, hs.exhausted_iff]

/-- Another thread has the only connection of the slave. -/
theorem pool_of_run_two : (PoolStep.get false .slave 7).run
    ⟨⟨[⟨1, .master, 0⟩], [[]], true, .working⟩, [(true, ⟨2, .slave, 0⟩)]⟩ = none := by
  have hrun : Run stepOption OkOption (some ⟨.new, []⟩)
      ([.connect .master [(1, true)]] ++ [.connect .slave [(2, true), (3, false)]] ++
        [.get true .slave 4])
      (some ⟨⟨[⟨1, .master, 0⟩], [[]], true, .working⟩, [(true, ⟨2, .slave, 0⟩)]⟩) := by
    refine .snoc (.snoc (.snoc .nil ?_) ?_) ?_
    · rintro _ ⟨⟩
      exact (by decide : [1].Nodup)
    · rintro _ ⟨⟩
      exact (by decide : [1, 2].Nodup)
    · rintro _ ⟨⟩
      exact List.not_mem_nil
  refine ((pool_of_run hrun).2.2.2.2.2 false .slave 7).mpr ⟨rfl, List.cons_ne_nil _ _, ?_⟩
  decide

end Runs

/-! ## Enough connections -/

section Enough

variable {T : Type} {s s' : PoolState T} {step : PoolStep T} {steps : List (PoolStep T)}
  {o : Option (PoolState T)} {t : T} {ioRole : Role} {rand : ℕ}

/-- A node has been connected. -/
def Opened (steps : List (PoolStep T)) : Role → ℕ → Prop
  | .master, _ => ∃ attempts, .connect .master attempts ∈ steps
  | .slave, idx => idx < (steps.map slavesBy).sum

/-- Every node is connected `n` times or more. -/
def EnoughFor (n : ℕ) : PoolStep T → Prop
  | .connect _ attempts => n ≤ (attempts.filter Prod.snd).length
  | _ => True

/-- Every node that has been connected has `n` connections, free or held. -/
structure Filled (n : ℕ) (steps : List (PoolStep T)) (s : PoolState T) : Prop where
  slaves : s.slice.slaveConn.length = (steps.map slavesBy).sum
  count : ∀ role idx, Opened steps role idx → n ≤ s.conns.countP fun c => c.Goes role idx

theorem sum_slavesBy_concat :
    ((steps ++ [step]).map slavesBy).sum = (steps.map slavesBy).sum + slavesBy step := by
  rw [List.map_append, List.sum_append, List.map_singleton, List.sum_singleton]

/-- What a step newly connects. -/
theorem Opened.new {role : Role} {idx : ℕ} (h : Opened (steps ++ [step]) role idx)
    (hold : ¬ Opened steps role idx) : ∃ attempts, step = .connect role attempts ∧
      (role = .slave → idx = (steps.map slavesBy).sum) := by
  cases role with
  | master =>
    obtain ⟨attempts, hmem⟩ := h
    rcases List.mem_append.mp hmem with hmem | hmem
    · exact absurd ⟨attempts, hmem⟩ hold
    · exact ⟨attempts, (List.mem_singleton.mp hmem).symm, nofun⟩
  | slave =>
    rw [Opened, sum_slavesBy_concat] at h
    rw [Opened, Nat.not_lt] at hold
    match step with
    | .connect .slave attempts => exact ⟨attempts, rfl, fun _ => by simp only [slavesBy] at h; omega⟩
    | .connect .master _ | .get _ _ _ | .free _ => exact absurd h (Nat.not_lt.mpr hold)

/-- A thread that has no connection finds one. -/
theorem Filled.getConn [Fintype T] (hf : Filled (Fintype.card T) steps s) (hs : PoolInv steps s)
    (ht : t ∉ s.held.map Prod.fst) (hopened : Opened steps ioRole (rand % s.slice.slaveConn.length))
    (hslaves : ioRole = .slave → s.slice.slaveConn ≠ []) :
    ∃ c slice, s.slice.getConn ioRole rand = some (some c, slice) ∧
      c.Goes ioRole (rand % s.slice.slaveConn.length) := by
  have hheld : s.held.length < Fintype.card T := by
    have := (List.nodup_cons.mpr ⟨ht, hs.threads⟩).length_le_card
    rwa [List.length_cons, List.length_map] at this
  have hcount := hf.count _ _ hopened
  rw [PoolState.conns, List.countP_append] at hcount
  have hmost : (s.held.map Prod.snd).countP (fun c => c.Goes ioRole (rand % s.slice.slaveConn.length)) ≤
      s.held.length := List.countP_le_length.trans_eq (List.length_map ..)
  have hfree : 0 < s.slice.free.countP fun c => c.Goes ioRole (rand % s.slice.slaveConn.length) := by
    omega
  obtain ⟨d, hd, hgoes⟩ := List.countP_pos_iff.mp hfree
  exact hs.placed.slice.getConn_of_mem hslaves hd (of_decide_eq_true hgoes)

variable [DecidableEq T]

theorem Filled.next {n : ℕ} (hf : Filled n steps s) (hs : s.Placed) (henough : EnoughFor n step)
    (h : step.run s = some s') : Filled n (steps ++ [step]) s' := by
  obtain ⟨-, hperm, hlength⟩ := hs.next h
  refine ⟨by rw [hlength, hf.slaves, sum_slavesBy_concat], fun role idx hopened => ?_⟩
  rw [hperm.countP_eq, List.countP_append]
  by_cases hold : Opened steps role idx
  · exact (hf.count role idx hold).trans (Nat.le_add_left ..)
  obtain ⟨attempts, rfl, hidx⟩ := hopened.new hold
  refine le_trans ?_ (Nat.le_add_right ..)
  have hall : ∀ c ∈ connectedBy s (.connect role attempts), decide (c.Goes role idx) = true := by
    intro c hc
    obtain ⟨a, -, rfl⟩ := List.mem_map.mp hc
    refine decide_eq_true ⟨rfl, fun hslave => ?_⟩
    rw [hidx hslave, ← hf.slaves]
    exact if_pos hslave
  rw [List.countP_eq_length.mpr hall, connectedBy, RedisDBSlice.connected, List.length_map]
  exact henough

theorem filled_of_run [Fintype T]
    (hrun : Run stepOption (fun o step => OkOption o step ∧ EnoughFor (Fintype.card T) step)
      (some ⟨.new, []⟩) steps o) :
    ∃ s, o = some s ∧ PoolInv steps s ∧ Filled (Fintype.card T) steps s := by
  refine hrun.invariant (P := fun steps o => ∃ s, o = some s ∧ PoolInv steps s ∧
    Filled (Fintype.card T) steps s) ?_ ?_
  · refine ⟨_, rfl, poolInv_of_run .nil _ rfl, rfl, fun role idx hopened => ?_⟩
    cases role with
    | master => exact absurd hopened.choose_spec List.not_mem_nil
    | slave => exact absurd hopened (Nat.not_lt_zero idx)
  rintro steps _ step ⟨s, rfl, hs, hf⟩ ⟨hok, henough⟩
  suffices hsome : step.run s ≠ none by
    obtain ⟨s', hs'⟩ := Option.ne_none_iff_exists'.mp hsome
    exact ⟨s', hs', hs.next (hok s rfl) hs', hf.next hs.placed henough hs'⟩
  match step with
  | .connect _ _ => exact Option.some_ne_none _
  | .free _ => exact hs.placed.free_ne_none
  | .get t ioRole rand =>
    rw [PoolStep.run, Ne, Option.map_eq_none_iff]
    intro hnone
    obtain ⟨-, rfl, hne, -⟩ := RedisDBSlice.getConn_eq_none_iff.mp hnone
    have hopened : Opened steps .slave (rand % s.slice.slaveConn.length) := by
      rw [Opened, ← hf.slaves]
      exact Nat.mod_lt _ (List.length_pos_iff.mpr hne)
    obtain ⟨c, slice, hget, -⟩ := hf.getConn hs (hok s rfl) hopened fun _ => hne
    exact Option.some_ne_none _ (hget.symm.trans hnone)

/-- **A pool for every thread is enough.** When every node is connected as often as there are threads,
no order of their commands takes the front of an empty list, and a thread always gets a connection to
the master, or to one of the slaves, once there is one. -/
theorem getConn_of_run [Fintype T]
    (hrun : Run stepOption (fun o step => OkOption o step ∧ EnoughFor (Fintype.card T) step)
      (some ⟨.new, []⟩) steps o) :
    ∃ s, o = some s ∧ ∀ t ∉ s.held.map Prod.fst, ∀ ioRole attempts rand,
      .connect ioRole attempts ∈ steps → ∃ c slice, s.slice.getConn ioRole rand = some (some c, slice) ∧
        c.Goes ioRole (rand % s.slice.slaveConn.length) := by
  obtain ⟨s, rfl, hs, hf⟩ := filled_of_run hrun
  refine ⟨s, rfl, fun t ht ioRole attempts rand hmem => ?_⟩
  cases ioRole with
  | master => exact hf.getConn hs ht ⟨attempts, hmem⟩ nofun
  | slave =>
    have hpos : 0 < s.slice.slaveConn.length := by
      rw [hf.slaves]
      exact List.sum_pos_iff_exists_pos_nat.mpr ⟨1, List.mem_map.mpr ⟨_, hmem, rfl⟩, Nat.one_pos⟩
    refine hf.getConn hs ht ?_ fun _ => List.length_pos_iff.mp hpos
    rw [Opened, ← hf.slaves]
    exact Nat.mod_lt _ hpos

/-- Two threads, and two connections to the slave. -/
theorem getConn_of_run_two : ∃ c slice, RedisDBSlice.getConn .slave 7
    ⟨[], [[⟨2, .slave, 0⟩]], true, .unconn⟩ = some (some c, slice) ∧ c.Goes .slave 0 := by
  have hrun : Run stepOption (fun o step => OkOption o step ∧ EnoughFor (Fintype.card Bool) step)
      (some ⟨.new, []⟩) ([.connect .slave [(1, true), (2, true)]] ++ [.get true .slave 4])
      (some ⟨⟨[], [[⟨2, .slave, 0⟩]], true, .unconn⟩, [(true, ⟨1, .slave, 0⟩)]⟩) := by
    refine .snoc (.snoc .nil ⟨?_, le_refl 2⟩) ⟨?_, trivial⟩
    · rintro _ ⟨⟩
      exact List.not_mem_nil
    · rintro _ ⟨⟩
      exact (by decide : [1, 2].Nodup)
  obtain ⟨_, hs, hget⟩ := getConn_of_run hrun
  obtain rfl := Option.some.inj hs
  exact hget false (by decide) .slave [(1, true), (2, true)] 7 List.mem_cons_self

end Enough

end Mavicona.Redis
