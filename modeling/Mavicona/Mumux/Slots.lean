import Mathlib.Data.Set.Lattice
import Mathlib.Order.CompletePartialOrder
import Mathlib.Order.Interval.Set.Disjoint
import Mavicona.Common.Run

/-!
# The memory of the connections

Reference: `mumux/server.c` (`wby_start`, `wby_on_incoming`, `wby_update`), `mumux/connection.c`
(`wby_connection_reset`, `wby_connection_close`).

The buffers of the connections are cut from one piece of memory when the server starts, and belong to
the slots of an array. A connection that is dead is taken out of the array by moving those behind it,
their pointers included: the slot at the end keeps a copy of the pointers of the connection that was
moved from there, and the buffers of the dead one are lost. The next connection that is accepted gets
the copy.
-/

namespace Mavicona.Mumux

open Trace

/-! ## The array -/

/-- `wby_config`, as far as the memory goes. -/
structure Config where
  connectionMax : ℕ
  requestBufferSize : ℕ
  ioBufferSize : ℕ

/-- `wby_connection`, as far as the memory goes: the addresses of its buffers, and the flag
`WBY_CON_FLAG_ALIVE`. -/
structure Slot where
  headerData : ℕ
  ioData : ℕ
  alive : Bool

/-- `wby_server`: the array of the connections, and how many of them are in use. -/
structure Server where
  con : List Slot
  conCount : ℕ

/-- The loop of `wby_start` over `n` slots, from an address on. -/
def setupSlots (cfg : Config) : ℕ → ℕ → List Slot
  | 0, _ => []
  | n + 1, buffer => ⟨buffer, buffer + cfg.requestBufferSize, false⟩ ::
      setupSlots cfg n (buffer + cfg.requestBufferSize + cfg.ioBufferSize)

/-- `wby_start`, with the address behind the array. -/
def wbyStart (cfg : Config) (buffer : ℕ) : Server := ⟨setupSlots cfg cfg.connectionMax buffer, 0⟩

namespace Server

/-- `wby_on_incoming`, where `accept` and `wby_socket_config_incoming` succeed or not. The reset of
the slot leaves the addresses as they are. -/
def wbyOnIncoming (cfg : Config) (accepted configured : Bool) (s : Server) : Server :=
  if s.conCount = cfg.connectionMax then s
  else if !accepted then s
  else
    { con := s.con.modify s.conCount fun c => { c with alive := configured }
      conCount := s.conCount + 1 }

/-- A call of `wby_update_connection` in which the connection dies. -/
def die (i : ℕ) (s : Server) : Server :=
  { s with con := s.con.modify i fun c => { c with alive := false } }

/-- The connection is in use, and dead. -/
def Stale (s : Server) (i : ℕ) : Prop := i < s.conCount ∧ (s.con[i]?.map Slot.alive) = some false

instance (s : Server) (i : ℕ) : Decidable (s.Stale i) := inferInstanceAs (Decidable (_ ∧ _))

/-- `memmove` of the slots behind the `i`-th one. -/
def moveDown (s : Server) (i : ℕ) : List Slot :=
  let remain := s.conCount - i - 1
  s.con.take i ++ (s.con.drop (i + 1)).take remain ++ s.con.drop (i + remain)

/-- A connection is closed in `wby_update`, and the array compacted. -/
def close (i : ℕ) (s : Server) : Server :=
  if s.Stale i then { con := s.moveDown i, conCount := s.conCount - 1 } else s

/-- The loop at the end of `wby_update`, from the `i`-th connection on, at most `n` times round. -/
def compact : ℕ → ℕ → Server → Server
  | 0, _, s => s
  | n + 1, i, s =>
    if i < s.conCount then if s.Stale i then compact n i (s.close i) else compact n (i + 1) s else s

end Server

/-- What happens to the array. -/
inductive Op
  | incoming (accepted configured : Bool)
  | die (i : ℕ)
  | close (i : ℕ)

/-- One step of the server. -/
def Server.step (cfg : Config) (s : Server) : Op → Server
  | .incoming accepted configured => s.wbyOnIncoming cfg accepted configured
  | .die i => s.die i
  | .close i => s.close i

/-- The loop closes connections, one after the other. -/
theorem Server.compact_eq_foldl (cfg : Config) (n i : ℕ) (s : Server) :
    ∃ is : List ℕ, s.compact n i = (is.map Op.close).foldl (Server.step cfg) s := by
  induction n generalizing i s with
  | zero => exact ⟨[], rfl⟩
  | succ n ih =>
    rw [compact]
    split_ifs
    · obtain ⟨is, his⟩ := ih i (s.close i)
      exact ⟨i :: is, his⟩
    · exact ih (i + 1) s
    · exact ⟨[], rfl⟩

/-! ## Connections that share no memory -/

/-- The buffers of the connections in use. -/
def Server.regions (cfg : Config) (s : Server) : List (Set ℕ) :=
  (s.con.take s.conCount).flatMap fun c =>
    [Set.Ico c.headerData (c.headerData + cfg.requestBufferSize),
      Set.Ico c.ioData (c.ioData + cfg.ioBufferSize)]

/-- No two buffers of connections in use have an address in common. -/
def Server.Apart (cfg : Config) (s : Server) : Prop := (s.regions cfg).Pairwise Disjoint

/-- A server, with the least number of connections that was left when one was closed that was not
the last. -/
structure Watched where
  server : Server
  limit : ℕ

/-- A step of the server. -/
def Watched.step (cfg : Config) (w : Watched) (op : Op) : Watched where
  server := w.server.step cfg op
  limit := match op with
    | .close i =>
      if w.server.Stale i ∧ i + 1 < w.server.conCount then min w.limit (w.server.conCount - 1)
      else w.limit
    | _ => w.limit

/-- A server that starts. -/
def Watched.start (cfg : Config) (buffer : ℕ) : Watched := ⟨wbyStart cfg buffer, cfg.connectionMax⟩

/-- A connection is accepted only if there are then no more than when one was closed that was not
the last; if there are buffers at all. -/
def Bounded (cfg : Config) (w : Watched) : Op → Prop
  | .incoming true _ => w.server.conCount < cfg.connectionMax →
      w.server.conCount < w.limit ∨ cfg.requestBufferSize = 0 ∧ cfg.ioBufferSize = 0
  | _ => True

section Array

variable {cfg : Config} {buffer : ℕ} {s : Server} {i k : ℕ}

theorem getElem?_moveDown (h : i < s.conCount) (hcount : s.conCount ≤ s.con.length) (k : ℕ) :
    (s.moveDown i)[k]? = if i ≤ k ∧ k + 1 < s.conCount then s.con[k + 1]? else s.con[k]? := by
  have hlen : (s.con.take i ++ (s.con.drop (i + 1)).take (s.conCount - i - 1)).length =
      s.conCount - 1 := by
    simp only [List.length_append, List.length_take, List.length_drop]
    omega
  have htake : (s.con.take i).length = i := by
    rw [List.length_take]
    omega
  rw [Server.moveDown]
  by_cases hk : k < s.conCount - 1
  · rw [List.getElem?_append_left (by omega)]
    by_cases hki : k < i
    · rw [List.getElem?_append_left (by omega), List.getElem?_take_of_lt hki, if_neg (by omega)]
    · rw [List.getElem?_append_right (by omega), htake, List.getElem?_take_of_lt (by omega),
        List.getElem?_drop, if_pos (by omega)]
      congr 1
      omega
  · rw [List.getElem?_append_right (by omega), hlen, List.getElem?_drop, if_neg (by omega)]
    congr 1
    omega

/-- The slots as they are cut from the memory. -/
theorem getElem?_setupSlots (n buffer k : ℕ) (h : k < n) :
    (setupSlots cfg n buffer)[k]? =
      some ⟨buffer + k * (cfg.requestBufferSize + cfg.ioBufferSize),
        buffer + k * (cfg.requestBufferSize + cfg.ioBufferSize) + cfg.requestBufferSize, false⟩ := by
  induction n generalizing buffer k with
  | zero => exact absurd h (Nat.not_lt_zero _)
  | succ n ih =>
    cases k with
    | zero => simp [setupSlots]
    | succ k =>
      rw [setupSlots, List.getElem?_cons_succ, ih _ _ (Nat.lt_of_succ_lt_succ h)]
      simp only [Nat.succ_mul]
      congr 2 <;> omega

theorem length_setupSlots (n buffer : ℕ) : (setupSlots cfg n buffer).length = n := by
  induction n generalizing buffer with
  | zero => rfl
  | succ n ih => rw [setupSlots, List.length_cons, ih]

end Array

/-! ## The invariant -/

/-- Every slot has the buffers of some place, `home`. Below the limit they are different, in order,
and the slot at the limit has those of the slot before it. -/
structure Homed (cfg : Config) (buffer : ℕ) (home : ℕ → ℕ) (w : Watched) : Prop where
  length_eq : w.server.con.length = cfg.connectionMax
  slot : ∀ k < cfg.connectionMax, ∃ alive, w.server.con[k]? =
    some ⟨buffer + home k * (cfg.requestBufferSize + cfg.ioBufferSize),
      buffer + home k * (cfg.requestBufferSize + cfg.ioBufferSize) + cfg.requestBufferSize, alive⟩
  count_le : w.server.conCount ≤ w.limit
  limit_le : w.limit ≤ cfg.connectionMax
  strict : ∀ a b, a < b → b < w.limit → home a < home b
  copy : w.limit < cfg.connectionMax → 0 < w.limit ∧ home w.limit = home (w.limit - 1)

section Invariant

variable {cfg : Config} {buffer : ℕ} {home : ℕ → ℕ} {w : Watched}

theorem Homed.start (cfg : Config) (buffer : ℕ) : Homed cfg buffer id (Watched.start cfg buffer) where
  length_eq := length_setupSlots _ _
  slot k hk := ⟨false, getElem?_setupSlots _ _ k hk⟩
  count_le := Nat.zero_le _
  limit_le := le_rfl
  strict _ _ hab _ := hab
  copy h := absurd h (lt_irrefl _)

/-- A change of the flags. -/
theorem Homed.modify (hw : Homed cfg buffer home w) (i : ℕ) (alive : Bool) (count : ℕ)
    (hcount : count ≤ w.limit) :
    Homed cfg buffer home ⟨⟨w.server.con.modify i fun c => { c with alive }, count⟩, w.limit⟩ where
  length_eq := by
    rw [List.length_modify]
    exact hw.length_eq
  slot k hk := by
    obtain ⟨old, hold⟩ := hw.slot k hk
    rw [List.getElem?_modify, hold]
    by_cases hik : i = k
    · exact ⟨alive, by simp [hik]⟩
    · exact ⟨old, by simp [hik]⟩
  count_le := hcount
  limit_le := hw.limit_le
  strict := hw.strict
  copy := hw.copy

/-- The last connection is closed. -/
theorem Homed.close_last (hw : Homed cfg buffer home w) {i : ℕ} (hi : i < w.server.conCount)
    (hlast : ¬ i + 1 < w.server.conCount) :
    Homed cfg buffer home ⟨⟨w.server.moveDown i, w.server.conCount - 1⟩, w.limit⟩ := by
  have hcount : w.server.conCount ≤ w.server.con.length :=
    hw.length_eq ▸ hw.count_le.trans hw.limit_le
  have hmove : w.server.moveDown i = w.server.con := by
    refine List.ext_getElem? fun k => ?_
    rw [getElem?_moveDown hi hcount, if_neg (by omega)]
  rw [hmove]
  exact { hw with count_le := (Nat.sub_le _ _).trans hw.count_le }

/-- The places after a connection was closed. -/
def movedHome (home : ℕ → ℕ) (i count k : ℕ) : ℕ :=
  if i ≤ k ∧ k + 1 < count then home (k + 1) else home k

/-- A connection is closed that is not the last. -/
theorem Homed.close_inner (hw : Homed cfg buffer home w) {i : ℕ} (hi : i + 1 < w.server.conCount) :
    Homed cfg buffer (movedHome home i w.server.conCount)
      ⟨⟨w.server.moveDown i, w.server.conCount - 1⟩, w.server.conCount - 1⟩ := by
  have hlimit : w.server.conCount ≤ w.limit := hw.count_le
  have hmax : w.server.conCount ≤ cfg.connectionMax := hlimit.trans hw.limit_le
  have hlen : w.server.conCount ≤ w.server.con.length := hw.length_eq ▸ hmax
  have hget := getElem?_moveDown (Nat.lt_of_succ_lt hi) hlen
  refine ⟨?_, ?_, le_rfl, (Nat.sub_le _ _).trans hmax, ?_, ?_⟩
  · refine Eq.trans ?_ hw.length_eq
    simp only [Server.moveDown, List.length_append, List.length_take, List.length_drop]
    omega
  · intro k hk
    rw [hget, movedHome]
    split_ifs with hbehind
    · exact hw.slot (k + 1) (by omega)
    · exact hw.slot k hk
  · intro a b hab (hb : b < w.server.conCount - 1)
    rw [movedHome, movedHome]
    split_ifs
    · exact hw.strict _ _ (by omega) (by omega)
    · omega
    · exact hw.strict _ _ (by omega) (by omega)
    · exact hw.strict _ _ hab (by omega)
  · intro _
    refine ⟨Nat.sub_pos_of_lt (by omega), ?_⟩
    -- the slot that is left behind, and the connection that was moved from it
    change movedHome home i w.server.conCount (w.server.conCount - 1) =
      movedHome home i w.server.conCount (w.server.conCount - 1 - 1)
    rw [movedHome, movedHome, if_neg (by omega), if_pos (by omega)]
    congr 1
    omega

theorem Homed.close (hw : Homed cfg buffer home w) (i : ℕ) :
    ∃ home', Homed cfg buffer home' (w.step cfg (.close i)) := by
  by_cases hstale : w.server.Stale i
  · have hstep : (w.server.step cfg (.close i)) = ⟨w.server.moveDown i, w.server.conCount - 1⟩ :=
      if_pos hstale
    by_cases hlast : i + 1 < w.server.conCount
    · refine ⟨movedHome home i w.server.conCount, ?_⟩
      have hlimit : min w.limit (w.server.conCount - 1) = w.server.conCount - 1 :=
        min_eq_right ((Nat.sub_le _ _).trans hw.count_le)
      rw [Watched.step, hstep, if_pos ⟨hstale, hlast⟩, hlimit]
      exact hw.close_inner hlast
    · refine ⟨home, ?_⟩
      rw [Watched.step, hstep, if_neg fun h => hlast h.2]
      exact hw.close_last hstale.1 hlast
  · refine ⟨home, ?_⟩
    have hstep : w.step cfg (.close i) = w := by
      rw [Watched.step, Server.step, Server.close, if_neg hstale]
      rw [if_neg fun h => hstale h.1]
    rwa [hstep]

/-- What a step that meets the guard leaves. -/
theorem Homed.step (hw : Homed cfg buffer home w) {op : Op}
    (hok : ∀ accepted configured, op = .incoming accepted configured → accepted = true →
      w.server.conCount < cfg.connectionMax → w.server.conCount < w.limit) :
    ∃ home', Homed cfg buffer home' (w.step cfg op) := by
  cases op with
  | incoming accepted configured =>
    refine ⟨home, ?_⟩
    change Homed cfg buffer home ⟨w.server.wbyOnIncoming cfg accepted configured, w.limit⟩
    rw [Server.wbyOnIncoming]
    split_ifs with hfull haccept
    · exact hw
    · exact hw
    · have hroom : w.server.conCount < cfg.connectionMax :=
        lt_of_le_of_ne (hw.count_le.trans hw.limit_le) hfull
      exact hw.modify _ _ _ (hok accepted configured rfl (by simpa using haccept) hroom)
  | die i => exact ⟨home, hw.modify i false _ hw.count_le⟩
  | close i => exact hw.close i

/-- Buffers of different places have no address in common. -/
theorem Homed.apart (hw : Homed cfg buffer home w) : w.server.Apart cfg := by
  rw [Server.Apart, Server.regions, List.pairwise_flatMap]
  constructor
  · intro c hc
    obtain ⟨k, hk⟩ := List.mem_iff_getElem?.mp (List.mem_of_mem_take hc)
    have hlt : k < cfg.connectionMax := hw.length_eq ▸ (List.getElem?_eq_some_iff.mp hk).1
    obtain ⟨alive, hslot⟩ := hw.slot k hlt
    obtain rfl := Option.some.inj (hk.symm.trans hslot)
    rw [List.pairwise_pair, Set.Ico_disjoint_Ico]
    dsimp only
    omega
  · rw [List.pairwise_iff_getElem]
    intro a b ha hb hab
    rw [List.length_take, lt_min_iff] at ha hb
    have hlimit : b < w.limit := hb.1.trans_le hw.count_le
    have hplace : home a + 1 ≤ home b := hw.strict a b hab hlimit
    obtain ⟨_, hslotA⟩ := hw.slot a (by rw [← hw.length_eq]; exact ha.2)
    obtain ⟨_, hslotB⟩ := hw.slot b (by rw [← hw.length_eq]; exact hb.2)
    rw [List.getElem_take, List.getElem_take, (List.getElem?_eq_some_iff.mp hslotA).2,
      (List.getElem?_eq_some_iff.mp hslotB).2]
    have hspace := Nat.mul_le_mul_right (cfg.requestBufferSize + cfg.ioBufferSize) hplace
    rw [Nat.succ_mul] at hspace
    simp only [List.mem_cons, List.not_mem_nil, or_false, forall_eq_or_imp, forall_eq,
      Set.Ico_disjoint_Ico]
    omega

/-- A connection that is accepted at the limit gets the buffers of the one before it. -/
theorem Homed.not_apart (hw : Homed cfg buffer home w) (configured : Bool)
    (hcount : w.server.conCount < cfg.connectionMax) (hlimit : ¬ w.server.conCount < w.limit)
    (hsize : ¬ (cfg.requestBufferSize = 0 ∧ cfg.ioBufferSize = 0)) :
    ¬ (w.step cfg (.incoming true configured)).server.Apart cfg := by
  have heq : w.server.conCount = w.limit := le_antisymm hw.count_le (not_lt.mp hlimit)
  obtain ⟨hpos, hcopy⟩ := hw.copy (heq ▸ hcount)
  obtain ⟨_, hslotA⟩ := hw.slot (w.limit - 1) (by omega)
  obtain ⟨_, hslotB⟩ := hw.slot w.limit (by omega)
  have hlen := hw.length_eq
  have hstep : (w.step cfg (.incoming true configured)).server =
      ⟨w.server.con.modify w.server.conCount fun c => { c with alive := configured },
        w.server.conCount + 1⟩ := if_neg hcount.ne
  rw [hstep, Server.Apart, Server.regions, List.pairwise_flatMap, List.pairwise_iff_getElem]
  rintro ⟨-, hapart⟩
  have hpair := hapart (w.limit - 1) w.limit (by simp; omega) (by simp; omega) (by omega)
  rw [List.getElem_take, List.getElem_take, List.getElem_modify, List.getElem_modify,
    if_neg (by omega), if_pos heq, (List.getElem?_eq_some_iff.mp hslotA).2,
      (List.getElem?_eq_some_iff.mp hslotB).2, hcopy] at hpair
  simp only [List.mem_cons, List.not_mem_nil, or_false, forall_eq_or_imp, forall_eq,
    Set.Ico_disjoint_Ico] at hpair
  omega

end Invariant

/-- Buffers without a byte. -/
theorem Server.apart_of_empty {cfg : Config} (hsize : cfg.requestBufferSize = 0 ∧ cfg.ioBufferSize = 0)
    (s : Server) : s.Apart cfg := by
  have hempty : ∀ r ∈ s.regions cfg, r = ∅ := by
    intro r hr
    obtain ⟨c, -, hc⟩ := List.mem_flatMap.mp hr
    simpa [hsize.1, hsize.2] using hc
  refine List.pairwise_iff_getElem.mpr fun i j hi hj _ => ?_
  rw [hempty _ (List.getElem_mem hi)]
  exact Set.empty_disjoint _

/-! ## Who gets memory of their own -/

/-- The invariant, for some places of the slots. -/
def Placed (cfg : Config) (buffer : ℕ) (w : Watched) : Prop := ∃ home, Homed cfg buffer home w

section Placed

variable {cfg : Config} {buffer : ℕ} {w : Watched} {op : Op}

theorem Placed.step (hsize : ¬ (cfg.requestBufferSize = 0 ∧ cfg.ioBufferSize = 0))
    (hw : Placed cfg buffer w) (hok : Bounded cfg w op) : Placed cfg buffer (w.step cfg op) := by
  obtain ⟨home, hw⟩ := hw
  refine hw.step ?_
  rintro accepted configured rfl rfl hroom
  exact (hok hroom).resolve_right hsize

theorem Placed.not_apart (hsize : ¬ (cfg.requestBufferSize = 0 ∧ cfg.ioBufferSize = 0))
    (hw : Placed cfg buffer w) (hnot : ¬ Bounded cfg w op) : ¬ (w.step cfg op).server.Apart cfg := by
  obtain ⟨home, hw⟩ := hw
  match op with
  | .incoming true configured =>
    obtain ⟨hroom, hor⟩ := Classical.not_imp.mp hnot
    exact hw.not_apart configured hroom (fun h => hor (.inl h)) hsize
  | .incoming false configured => exact absurd trivial hnot
  | .die i => exact absurd trivial hnot
  | .close i => exact absurd trivial hnot

theorem bounded_of_empty (hsize : cfg.requestBufferSize = 0 ∧ cfg.ioBufferSize = 0) (w : Watched) :
    ∀ op, Bounded cfg w op
  | .incoming true _ => fun _ => .inr hsize
  | .incoming false _ => trivial
  | .die _ => trivial
  | .close _ => trivial

end Placed

/-- The buffers of the connections in use have no address in common at any point of an execution just
if no connection is accepted that makes them more than were left when one was closed that was not the
last. -/
theorem apart_always_iff (cfg : Config) (buffer : ℕ) (ops : List Op) :
    Always (Watched.step cfg) (fun w => w.server.Apart cfg) (Watched.start cfg buffer) ops ↔
      ∃ w, Run (Watched.step cfg) (Bounded cfg) (Watched.start cfg buffer) ops w := by
  by_cases hsize : cfg.requestBufferSize = 0 ∧ cfg.ioBufferSize = 0
  · refine iff_of_true (fun n => Server.apart_of_empty hsize _)
      ⟨ops.foldl (Watched.step cfg) (Watched.start cfg buffer), ?_⟩
    have hrun : Run (Watched.step cfg) (fun _ _ => True) (Watched.start cfg buffer) ops
        (ops.foldl (Watched.step cfg) (Watched.start cfg buffer)) := run_foldl fun _ _ => trivial
    exact hrun.mono fun w op _ => bounded_of_empty hsize w op
  · have hstart : Placed cfg buffer (Watched.start cfg buffer) := ⟨id, .start cfg buffer⟩
    exact always_iff_exists_run hstart (fun _ ⟨_, hw⟩ => hw.apart)
      (fun _ _ hw hok => hw.step hsize hok) (fun _ _ hw hnot => hw.not_apart hsize hnot)

/-- The first of two connections is closed before a third one is accepted. -/
theorem not_apart_third :
    ¬ Always (Watched.step ⟨2, 8, 8⟩) (fun w => w.server.Apart ⟨2, 8, 8⟩)
      (Watched.start ⟨2, 8, 8⟩ 0)
      [.incoming true true, .incoming true true, .die 0, .close 0, .incoming true true] := by
  intro h
  have hlast : Server.Apart ⟨2, 8, 8⟩ ⟨[⟨16, 24, true⟩, ⟨16, 24, true⟩], 2⟩ := h.last
  rw [Server.Apart, Server.regions, List.pairwise_flatMap] at hlast
  have hshared := (List.pairwise_pair.mp hlast.2) (Set.Ico 16 24) (.head _) (Set.Ico 16 24) (.head _)
  exact absurd ((Set.Ico_disjoint_Ico).mp hshared) (by decide)

end Mavicona.Mumux
