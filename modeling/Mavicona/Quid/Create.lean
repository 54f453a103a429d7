import Mathlib.Data.Nat.Bitwise
import Mathlib.Data.List.Nodup
import Mavicona.Quid.Text

/-!
# Creating quids

Reference: `quid/quid.c` (`get_system_time`, `get_current_time`, `format_quid`, `quid_create`).

A quid is made of a timestamp and of random bytes. The clock counts units of 100 ns and is read in
microseconds, so it moves in steps of ten; within a tick the timestamps are told apart by a counter,
which goes up to `UIDS_PER_TICK` before the generator waits for the clock. The counter runs into the
ticks that follow: the timestamps of a process are distinct exactly if no tick hands out more of
them than fit before the next one (`quids_nodup_iff`).
-/

namespace Mavicona.Quid

/-! ## The clock -/

/-- `UIDS_PER_TICK`. -/
def uidsPerTick : ℕ := 1024

/-- `EPOCH_DIFF`. -/
def epochDiff : ℕ := 11644473600

/-- `get_system_time`, for a clock that shows `t` microseconds. -/
def getSystemTime (t : ℕ) : ℕ :=
  ((epochDiff + t / 1000000) * 10000000 + t % 1000000 * 10) % 2 ^ 64

/-- The static variables of `get_current_time`, and how often `arc4random` was called. -/
structure Process where
  inited : Bool := false
  timeLast : ℕ := 0
  idsThisTick : ℕ := 0
  drawn : ℕ := 0

/-- The loop of `get_current_time`, over the readings of the clock that are to come: the
timestamp, the process and the readings that are left. It waits as long as the tick is used up. -/
def currentTimeLoop (p : Process) : List ℕ → Option (ℕ × Process × List ℕ)
  | [] => none
  | t :: readings =>
    let timeNow := getSystemTime t
    if p.timeLast ≠ timeNow then
      some (timeNow + 0, { p with idsThisTick := 0, timeLast := timeNow }, readings)
    else if p.idsThisTick < uidsPerTick then
      some (timeNow + (p.idsThisTick + 1), { p with idsThisTick := p.idsThisTick + 1 }, readings)
    else currentTimeLoop p readings

/-- `get_current_time`; the first call reads the clock once more. -/
def getCurrentTime (p : Process) (readings : List ℕ) : Option (ℕ × Process × List ℕ) :=
  if p.inited then currentTimeLoop p readings
  else match readings with
    | [] => none
    | _ :: readings => currentTimeLoop { p with idsThisTick := uidsPerTick, inited := true } readings

/-! ## The fields -/

/-- `format_quid`; `node` are the random values of the node. -/
def formatQuid (clockSeq timestamp : ℕ) (node : Fin 6 → UInt32) : QuidT where
  timeLow := UInt64.ofNat (timestamp &&& 0xffffffff)
  timeMid := UInt16.ofNat ((timestamp >>> 32) &&& 0xffff)
  timeHiAndVersion := UInt16.ofNat (((timestamp >>> 48) &&& 0xfff) ^^^ 0x80 ||| 0xa000)
  clockSeqLow := UInt8.ofNat (clockSeq &&& 0xff)
  clockSeqHiAndReserved := UInt8.ofNat ((clockSeq &&& 0x3f00) >>> 8 ||| 0x80)
  node := #v[(node 0).toUInt8, (node 1).toUInt8, (node 2).toUInt8, (node 3).toUInt8,
    (node 4 &&& 0xf0).toUInt8, (node 5 &&& 0xff).toUInt8]

/-- `quid_create`, with the values that `arc4random` returns. -/
def quidCreate (rand : ℕ → UInt32) (p : Process) (readings : List ℕ) :
    Option (QuidT × Process × List ℕ) :=
  match getCurrentTime p readings with
  | none => none
  | some (timestamp, p, readings) =>
    some (formatQuid ((rand p.drawn).toNat % 2 ^ 16) timestamp fun i => rand (p.drawn + 1 + i),
      { p with drawn := p.drawn + 7 }, readings)

/-- The quids of `n` successive calls, as far as the clock is read. -/
def quidCreates (rand : ℕ → UInt32) : ℕ → Process → List ℕ → List QuidT
  | 0, _, _ => []
  | n + 1, p, readings =>
    match quidCreate rand p readings with
    | none => []
    | some (uid, p, readings) => uid :: quidCreates rand n p readings

/-- The quids of a process whose clock shows the readings one after another. -/
def quids (rand : ℕ → UInt32) (readings : List ℕ) : List QuidT :=
  quidCreates rand readings.length {} readings

/-! ## The timestamps -/

/-- The timestamps for the readings, one after another, from the last tick and its counter. -/
def stamps : ℕ → ℕ → List ℕ → List ℕ
  | _, _, [] => []
  | last, ids, t :: readings =>
    if last ≠ getSystemTime t then getSystemTime t :: stamps (getSystemTime t) 0 readings
    else if ids < uidsPerTick then (getSystemTime t + (ids + 1)) :: stamps last (ids + 1) readings
    else stamps last ids readings

/-- A call takes the next timestamp. -/
theorem stamps_of_currentTimeLoop {p p' : Process} {readings rest : List ℕ} {ts : ℕ}
    (h : currentTimeLoop p readings = some (ts, p', rest)) :
    stamps p.timeLast p.idsThisTick readings = ts :: stamps p'.timeLast p'.idsThisTick rest ∧
      rest.length < readings.length ∧ p'.inited = p.inited := by
  induction readings with
  | nil => exact absurd h (by simp [currentTimeLoop])
  | cons t readings ih =>
    rw [currentTimeLoop] at h
    rw [stamps]
    split_ifs at h ⊢ with hnew hids
    · obtain ⟨rfl, rfl, rfl⟩ : _ ∧ _ ∧ _ := by simpa using h
      exact ⟨rfl, Nat.lt_succ_self _, rfl⟩
    · obtain ⟨rfl, rfl, rfl⟩ : _ ∧ _ ∧ _ := by simpa using h
      exact ⟨rfl, Nat.lt_succ_self _, rfl⟩
    · obtain ⟨hstamps, hlen, hinited⟩ := ih h
      exact ⟨hstamps, hlen.trans (Nat.lt_succ_self _), hinited⟩

theorem stamps_of_currentTimeLoop_none {p : Process} {readings : List ℕ}
    (h : currentTimeLoop p readings = none) : stamps p.timeLast p.idsThisTick readings = [] := by
  induction readings with
  | nil => rfl
  | cons t readings ih =>
    rw [currentTimeLoop] at h
    rw [stamps]
    split_ifs at h ⊢ with hnew hids
    exact ih h

/-- What can be read off a quid alone can be read off its timestamp. -/
theorem map_quidCreates {β : Type*} {rand : ℕ → UInt32} {f : QuidT → β} {g : ℕ → β}
    (hfg : ∀ d ts, f (formatQuid ((rand d).toNat % 2 ^ 16) ts fun i => rand (d + 1 + i)) = g ts)
    {n : ℕ} {p : Process} {readings : List ℕ} (hp : p.inited = true) (hn : readings.length ≤ n) :
    (quidCreates rand n p readings).map f = (stamps p.timeLast p.idsThisTick readings).map g := by
  induction n generalizing p readings with
  | zero =>
    rw [List.length_eq_zero_iff.mp (Nat.le_zero.mp hn)]
    rfl
  | succ n ih =>
    have hcurrent : getCurrentTime p readings = currentTimeLoop p readings := if_pos hp
    rw [quidCreates, quidCreate, hcurrent]
    cases hloop : currentTimeLoop p readings with
    | none => rw [stamps_of_currentTimeLoop_none hloop]; rfl
    | some next =>
      obtain ⟨ts, p', rest⟩ := next
      obtain ⟨hstamps, hlen, hinited⟩ := stamps_of_currentTimeLoop hloop
      dsimp only
      rw [hstamps, List.map_cons, List.map_cons, hfg]
      congr 1
      exact ih (p := { p' with drawn := p'.drawn + 7 }) (hinited.trans hp) (by omega)

/-- The first reading only starts the generator. -/
theorem map_quids {β : Type*} (rand : ℕ → UInt32) {f : QuidT → β} {g : ℕ → β}
    (hfg : ∀ d ts, f (formatQuid ((rand d).toNat % 2 ^ 16) ts fun i => rand (d + 1 + i)) = g ts)
    (readings : List ℕ) :
    (quids rand readings).map f = (stamps 0 uidsPerTick readings.tail).map g := by
  cases readings with
  | nil => rfl
  | cons t readings =>
    -- The process that did the first reading, and the one that starts with the second, go on alike.
    have hstart : quids rand (t :: readings) =
        quidCreates rand (readings.length + 1) ⟨true, 0, uidsPerTick, 0⟩ readings := by
      rw [quids, List.length_cons, quidCreates, quidCreates, quidCreate, quidCreate]
      rfl
    rw [hstart, List.tail_cons]
    exact map_quidCreates hfg rfl (Nat.le_succ _)

/-! ## What a quid says of its timestamp -/

/-- The sixty bits of the timestamp in the fields of a quid. -/
def stampOf (u : QuidT) : ℕ :=
  u.timeLow.toNat + 2 ^ 32 * u.timeMid.toNat +
    2 ^ 48 * (u.timeHiAndVersion.toNat % 2 ^ 12 ^^^ 0x80)

theorem stampOf_formatQuid (clockSeq timestamp : ℕ) (node : Fin 6 → UInt32) :
    stampOf (formatQuid clockSeq timestamp node) = timestamp % 2 ^ 60 := by
  have hlow : timestamp &&& 0xffffffff = timestamp % 2 ^ 32 := Nat.and_two_pow_sub_one_eq_mod _ 32
  have hmid : (timestamp >>> 32) &&& 0xffff = timestamp / 2 ^ 32 % 2 ^ 16 := by
    rw [Nat.shiftRight_eq_div_pow]
    exact Nat.and_two_pow_sub_one_eq_mod _ 16
  have hhi : (timestamp >>> 48) &&& 0xfff = timestamp / 2 ^ 48 % 2 ^ 12 := by
    rw [Nat.shiftRight_eq_div_pow]
    exact Nat.and_two_pow_sub_one_eq_mod _ 12
  have hxor : timestamp / 2 ^ 48 % 2 ^ 12 ^^^ 0x80 < 2 ^ 12 :=
    Nat.xor_lt_two_pow (Nat.mod_lt _ (by decide)) (by decide)
  have hor : timestamp / 2 ^ 48 % 2 ^ 12 ^^^ 0x80 ||| 0xa000 < 2 ^ 16 :=
    Nat.or_lt_two_pow (hxor.trans (by decide)) (by decide)
  -- The version is above the twelve bits, and the signature comes out as it went in.
  have hversion : (timestamp / 2 ^ 48 % 2 ^ 12 ^^^ 0x80 ||| 0xa000) % 2 ^ 12 =
      timestamp / 2 ^ 48 % 2 ^ 12 ^^^ 0x80 := by
    rw [Nat.or_mod_two_pow, Nat.mod_eq_of_lt hxor]
    exact Nat.or_zero _
  have hlow64 : timestamp % 2 ^ 32 < 2 ^ 64 := (Nat.mod_lt _ (by decide)).trans (by decide)
  have hmid16 : timestamp / 2 ^ 32 % 2 ^ 16 < 2 ^ 16 := Nat.mod_lt _ (by decide)
  simp only [stampOf, formatQuid, hlow, hmid, hhi]
  rw [UInt64.toNat_ofNat_of_lt' hlow64, UInt16.toNat_ofNat_of_lt' hmid16,
    UInt16.toNat_ofNat_of_lt' hor, hversion, Nat.xor_assoc, Nat.xor_self, Nat.xor_zero]
  omega

/-! ## Distinct timestamps -/

/-- The time of a reading in units of 100 ns. -/
def tickStart (t : ℕ) : ℕ := 10 * (epochDiff * 1000000 + t)

theorem tickStart_eq_add {cur t : ℕ} (h : cur ≤ t) :
    tickStart t = tickStart cur + 10 * (t - cur) := by
  unfold tickStart
  omega

/-- The clock does not wrap around. -/
theorem getSystemTime_of_lt {t : ℕ} (h : tickStart t < 2 ^ 60) : getSystemTime t = tickStart t := by
  unfold getSystemTime tickStart epochDiff at *
  omega

/-- From the tick `cur`, whose counter is at `ids`: the timestamps of every tick end before the
next one. -/
structure Room (cur ids : ℕ) (readings : List ℕ) : Prop where
  here : ∀ b ∈ readings, cur < b → min (ids + readings.count cur) uidsPerTick < 10 * (b - cur)
  later : ∀ a ∈ readings, ∀ b ∈ readings, cur < a → a < b →
    min (readings.count a) (uidsPerTick + 1) ≤ 10 * (b - a)

section Room

variable {cur ids t : ℕ} {readings : List ℕ}

/-- Another reading of the same tick. -/
theorem room_cons_self : Room cur ids (cur :: readings) ↔ Room cur (ids + 1) readings := by
  constructor
  · rintro ⟨hhere, hlater⟩
    refine ⟨fun b hb hlt => ?_, fun a ha b hb hlt hab => ?_⟩
    · have := hhere b (List.mem_cons_of_mem _ hb) hlt
      rw [List.count_cons_self] at this
      rwa [Nat.add_right_comm, Nat.add_assoc]
    · have := hlater a (List.mem_cons_of_mem _ ha) b (List.mem_cons_of_mem _ hb) hlt hab
      rwa [List.count_cons_of_ne hlt.ne] at this
  · rintro ⟨hhere, hlater⟩
    refine ⟨fun b hb hlt => ?_, fun a ha b hb hlt hab => ?_⟩
    · have := hhere b ((List.mem_cons.mp hb).resolve_left hlt.ne') hlt
      rw [List.count_cons_self]
      rwa [Nat.add_right_comm, Nat.add_assoc] at this
    · have := hlater a ((List.mem_cons.mp ha).resolve_left hlt.ne') b
        ((List.mem_cons.mp hb).resolve_left (hlt.trans hab).ne') hlt hab
      rwa [List.count_cons_of_ne hlt.ne]

/-- A reading of a tick that is used up. -/
theorem room_cons_full (hids : uidsPerTick ≤ ids) :
    Room cur ids (cur :: readings) ↔ Room cur ids readings := by
  rw [room_cons_self]
  constructor
  · rintro ⟨hhere, hlater⟩
    exact ⟨fun b hb hlt => by have := hhere b hb hlt; omega, hlater⟩
  · rintro ⟨hhere, hlater⟩
    exact ⟨fun b hb hlt => by have := hhere b hb hlt; omega, hlater⟩

/-- The first reading of the next tick. -/
theorem room_cons_next (hids : ids ≤ uidsPerTick) (hcur : cur < t) (hle : ∀ b ∈ readings, t ≤ b) :
    Room cur ids (t :: readings) ↔ ids < 10 * (t - cur) ∧ Room t 0 readings := by
  have hcount : (t :: readings).count cur = 0 := by
    refine List.count_eq_zero.mpr fun hmem => ?_
    rcases List.mem_cons.mp hmem with rfl | hmem
    · exact lt_irrefl _ hcur
    · exact absurd (hle cur hmem) (not_le.mpr hcur)
  constructor
  · rintro ⟨hhere, hlater⟩
    refine ⟨?_, fun b hb hlt => ?_, fun a ha b hb hlt hab => ?_⟩
    · have := hhere t List.mem_cons_self hcur
      rw [hcount] at this
      omega
    · have := hlater t List.mem_cons_self b (List.mem_cons_of_mem _ hb) hcur hlt
      rw [List.count_cons_self] at this
      omega
    · have := hlater a (List.mem_cons_of_mem _ ha) b (List.mem_cons_of_mem _ hb) (hcur.trans hlt) hab
      rwa [List.count_cons_of_ne hlt.ne] at this
  · rintro ⟨hfits, hhere, hlater⟩
    refine ⟨fun b hb hlt => ?_, fun a ha b hb hlt hab => ?_⟩
    · have hb' : t ≤ b := by
        rcases List.mem_cons.mp hb with rfl | hb
        · exact le_rfl
        · exact hle b hb
      rw [hcount]
      omega
    · rcases List.mem_cons.mp ha with rfl | ha
      · have hb' : b ∈ readings := (List.mem_cons.mp hb).resolve_left hab.ne'
        have := hhere b hb' hab
        rw [List.count_cons_self]
        omega
      · have hb' : b ∈ readings :=
          (List.mem_cons.mp hb).resolve_left (lt_of_le_of_lt (hle a ha) hab).ne'
        rcases (hle a ha).eq_or_lt with rfl | hta
        · have := hhere b hb' hab
          rw [List.count_cons_self]
          omega
        · rw [List.count_cons_of_ne hta.ne]
          exact hlater a ha b hb' hta hab

end Room

/-- The clock is read in its range. -/
def InRange (readings : List ℕ) : Prop := ∀ t ∈ readings, tickStart t < 2 ^ 60

/-- No timestamp is before its tick, and none is long after the last one. -/
theorem mem_stamps_bounds {last ids ts : ℕ} {readings : List ℕ} (hrange : InRange readings)
    (lo : ℕ) (hlo : ∀ t ∈ readings, lo ≤ t) (hts : ts ∈ stamps last ids readings) :
    tickStart lo ≤ ts ∧ ts < 2 ^ 60 + uidsPerTick := by
  induction readings generalizing last ids with
  | nil => exact absurd hts List.not_mem_nil
  | cons t readings ih =>
    have ht := getSystemTime_of_lt (hrange t List.mem_cons_self)
    have hlt := hrange t List.mem_cons_self
    have hle := tickStart_eq_add (hlo t List.mem_cons_self)
    have hrest : ∀ {last ids : ℕ}, ts ∈ stamps last ids readings →
        tickStart lo ≤ ts ∧ ts < 2 ^ 60 + uidsPerTick :=
      ih (fun u hu => hrange u (List.mem_cons_of_mem _ hu)) fun u hu => hlo u
      (List.mem_cons_of_mem _ hu)
    rw [stamps, ht] at hts
    split_ifs at hts with hnew hids
    · rcases List.mem_cons.mp hts with rfl | hts
      · exact ⟨by omega, by unfold uidsPerTick; omega⟩
      · exact hrest hts
    · rcases List.mem_cons.mp hts with rfl | hts
      · exact ⟨by omega, by omega⟩
      · exact hrest hts
    · exact hrest hts

/-- The timestamps handed out in a tick so far. -/
def handedOut (cur ids : ℕ) : List ℕ :=
  (List.range (ids + 1)).map fun i => tickStart cur + i

theorem mem_handedOut {cur ids ts : ℕ} :
    ts ∈ handedOut cur ids ↔ tickStart cur ≤ ts ∧
      ts ≤ tickStart cur + ids := by
  simp only [handedOut, List.mem_map, List.mem_range]
  constructor
  · rintro ⟨i, hi, rfl⟩
    omega
  · rintro ⟨hle, hle'⟩
    exact ⟨ts - tickStart cur, by omega, by omega⟩

theorem nodup_handedOut (cur ids : ℕ) : (handedOut cur ids).Nodup :=
  (List.nodup_map_iff fun _ _ h => Nat.add_left_cancel h).mpr List.nodup_range

theorem handedOut_succ (cur ids : ℕ) :
    handedOut cur (ids + 1) = handedOut cur ids ++ [tickStart cur + (ids + 1)] := by
  rw [handedOut, List.range_succ, List.map_append]
  rfl

/-- The timestamps of a tick and of those that follow are distinct exactly if there is room for
them. The induction is on the readings; each is of the tick, which may be used up, or of a later
one. -/
theorem nodup_append_stamps_iff {cur ids : ℕ} {readings : List ℕ} (hids : ids ≤ uidsPerTick)
    (hcur : tickStart cur < 2 ^ 60) (hrange : InRange readings)
    (hsorted : readings.Pairwise (· ≤ ·)) (hle : ∀ t ∈ readings, cur ≤ t) :
    (handedOut cur ids ++ stamps (tickStart cur) ids readings).Nodup ↔
      Room cur ids readings := by
  induction readings generalizing cur ids with
  | nil =>
    refine iff_of_true ?_ ⟨fun b hb => absurd hb List.not_mem_nil,
      fun a ha => absurd ha List.not_mem_nil⟩
    rw [stamps, List.append_nil]
    exact nodup_handedOut cur ids
  | cons t readings ih =>
    have ht := hrange t List.mem_cons_self
    have hrest : InRange readings := fun u hu => hrange u (List.mem_cons_of_mem _ hu)
    obtain ⟨hfirst, hsorted'⟩ := List.pairwise_cons.mp hsorted
    have hlerest : ∀ u ∈ readings, cur ≤ u := fun u hu => hle u (List.mem_cons_of_mem _ hu)
    rw [stamps, getSystemTime_of_lt ht]
    rcases (hle t List.mem_cons_self).eq_or_lt with rfl | hlt
    · rw [if_neg (not_not.mpr rfl)]
      split_ifs with hfull
      · rw [room_cons_self, ← ih (by omega) hcur hrest hsorted' hlerest, handedOut_succ,
          List.append_assoc, List.singleton_append]
      · rw [room_cons_full (by omega), ih hids hcur hrest hsorted' hlerest]
    · have hgap := tickStart_eq_add hlt.le
      rw [if_pos (by omega), room_cons_next hids hlt hfirst,
        ← ih (Nat.zero_le _) ht hrest hsorted' hfirst]
      -- What follows is at or after the new tick, so it is enough that the counter did not reach it.
      have hlist : tickStart t :: stamps (tickStart t) 0 readings =
          handedOut t 0 ++ stamps (tickStart t) 0 readings := rfl
      rw [List.nodup_append, hlist]
      constructor
      · rintro ⟨-, hnodup, hdisjoint⟩
        refine ⟨?_, hnodup⟩
        by_contra hroom
        exact hdisjoint _ (mem_handedOut.mpr ⟨by omega, by omega⟩) _
          (List.mem_append_left _ (mem_handedOut.mpr ⟨le_rfl, le_rfl⟩)) rfl
      · rintro ⟨hroom, hnodup⟩
        refine ⟨nodup_handedOut cur ids, hnodup, ?_⟩
        rintro ts hts _ hts' rfl
        obtain ⟨-, hbefore⟩ := mem_handedOut.mp hts
        rcases List.mem_append.mp hts' with hts' | hts'
        · have := (mem_handedOut.mp hts').1
          omega
        · have := (mem_stamps_bounds hrest t hfirst hts').1
          omega

/-- Every tick ends before the next one: the clock moves on by at least a microsecond for every
ten quids of the tick, of which there are no more than `UIDS_PER_TICK` and one. -/
def RoomInTicks (readings : List ℕ) : Prop :=
  ∀ a ∈ readings, ∀ b ∈ readings, a < b → min (readings.count a) (uidsPerTick + 1) ≤ 10 * (b - a)

theorem nodup_stamps_iff {readings : List ℕ} (hrange : InRange readings)
    (hsorted : readings.Pairwise (· ≤ ·)) :
    (stamps 0 uidsPerTick readings).Nodup ↔ RoomInTicks readings := by
  cases readings with
  | nil => exact iff_of_true List.nodup_nil fun a ha => absurd ha List.not_mem_nil
  | cons t readings =>
    obtain ⟨hfirst, hsorted'⟩ := List.pairwise_cons.mp hsorted
    have ht := hrange t List.mem_cons_self
    have hstart : stamps 0 uidsPerTick (t :: readings) =
        handedOut t 0 ++ stamps (tickStart t) 0 readings := by
      rw [stamps, getSystemTime_of_lt ht, if_pos (by unfold tickStart epochDiff; omega)]
      rfl
    rw [hstart, nodup_append_stamps_iff (Nat.zero_le _) ht
      (fun u hu => hrange u (List.mem_cons_of_mem _ hu)) hsorted' hfirst]
    constructor
    · rintro ⟨hhere, hlater⟩ a ha b hb hab
      have hb' : b ∈ readings := by
        rcases List.mem_cons.mp hb with rfl | hb
        · rcases List.mem_cons.mp ha with rfl | ha
          · exact absurd hab (lt_irrefl _)
          · exact absurd (hfirst a ha) (not_le.mpr hab)
        · exact hb
      by_cases hat : a = t
      · subst hat
        have := hhere b hb' hab
        rw [List.count_cons_self]
        omega
      · have ha' : a ∈ readings := (List.mem_cons.mp ha).resolve_left hat
        rw [List.count_cons_of_ne (Ne.symm hat)]
        exact hlater a ha' b hb' (lt_of_le_of_ne (hfirst a ha') (Ne.symm hat)) hab
    · intro hroom
      refine ⟨fun b hb hlt => ?_, fun a ha b hb hlt hab => ?_⟩
      · have := hroom t List.mem_cons_self b (List.mem_cons_of_mem _ hb) hlt
        rw [List.count_cons_self] at this
        omega
      · have := hroom a (List.mem_cons_of_mem _ ha) b (List.mem_cons_of_mem _ hb) hab
        rwa [List.count_cons_of_ne hlt.ne] at this

/-- Timestamps of the range of the clock are told apart by their sixty bits. -/
theorem nodup_map_mod_iff {readings : List ℕ} (hrange : InRange readings) :
    ((stamps 0 uidsPerTick readings).map (· % 2 ^ 60)).Nodup ↔
    (stamps 0 uidsPerTick readings).Nodup := by
  refine ⟨List.Nodup.of_map _, fun h => h.map_on fun ts hts ts' hts' heq => ?_⟩
  obtain ⟨hlo, hhi⟩ := mem_stamps_bounds hrange 0 (fun _ _ => Nat.zero_le _) hts
  obtain ⟨hlo', hhi'⟩ := mem_stamps_bounds hrange 0 (fun _ _ => Nat.zero_le _) hts'
  unfold tickStart epochDiff uidsPerTick at *
  omega

/-- **The quids of a process are distinct, whatever the random source returns, exactly if there
is room in the ticks.** For every sequence of clock readings in the range of the clock that does
not go back; the first reading only starts the generator. -/
theorem quids_nodup_iff (readings : List ℕ) (hrange : InRange readings)
    (hsorted : readings.Pairwise (· ≤ ·)) :
    (∀ rand, (quids rand readings).Nodup) ↔ RoomInTicks readings.tail := by
  have hrange' : InRange readings.tail := fun t ht => hrange t (List.mem_of_mem_tail ht)
  rw [← nodup_stamps_iff hrange' (hsorted.sublist (List.tail_sublist _))]
  constructor
  · intro h
    -- A source that always returns the same value leaves only the timestamps to tell the quids apart.
    have hconst := map_quids (fun _ => 0) (f := id) (g := fun ts => formatQuid 0 ts fun _ => 0)
      (fun _ _ => rfl) readings
    rw [List.map_id] at hconst
    exact List.Nodup.of_map _ (hconst ▸ h fun _ => 0)
  · intro h rand
    have hstamp := map_quids rand (f := stampOf) (g := (· % 2 ^ 60))
      (fun _ _ => stampOf_formatQuid _ _ _) readings
    exact List.Nodup.of_map stampOf (hstamp ▸ (nodup_map_mod_iff hrange').mpr h)

/-- Three quids in three microseconds. -/
theorem quids_nodup_three :
    (quids (fun _ => 7) [1500000000000000, 1500000000000000, 1500000000000001,
      1500000000000002]).Nodup :=
  (quids_nodup_iff _ (by unfold InRange; decide) (by decide)).mpr (by unfold RoomInTicks; decide) _

/-- A clock that is read twelve times in a microsecond and once in the next. -/
def crowded : List ℕ := List.replicate 12 1500000000000000 ++ [1500000000000001]

/-- Eleven quids in a microsecond and one in the next: with a random source that is constant the
last two are equal. -/
theorem crowded_not_nodup :
    InRange crowded ∧ crowded.Pairwise (· ≤ ·) ∧ ¬ (quids (fun _ => 0) crowded).Nodup :=
  ⟨by unfold InRange; decide +kernel, by decide, by decide +kernel⟩

end Mavicona.Quid
