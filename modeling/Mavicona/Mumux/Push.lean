import Mavicona.Mumux.Output

/-!
# Pushing to a buffer of any size

Reference: `mumux/connection.c` (`wby_connection_push`).

The size of the I/O buffer is an `unsigned long`, and `wby_connection_push` computes the space in it
with an `int`. For a size that fits it does what `push` says. For a larger one the space is that of the
size cast to `int`, the buffer is never taken to be full, and a push of more than that does not return.
-/

namespace Mavicona.Mumux

open Bytes Socket

namespace Connection

/-- The loop of `wby_connection_push`. A copy of a negative size does not return. -/
def castPushLoop : ℕ → Bytes → Connection → Outcome Bool
  | _, [], c => ⟨some true, c⟩
  | 0, _ :: _, c => ⟨none, c⟩
  | fuel + 1, data, c =>
    let bufSpace := toInt c.ioBuf.max - toInt c.ioBuf.data.length
    let copySize := if data.length < bufSpace then (data.length : ℤ) else bufSpace
    if copySize < 0 then ⟨none, c⟩
    else
      let c := { c with ioBuf := { c.ioBuf with data := c.ioBuf.data ++ data.take copySize.toNat } }
      let data := data.drop copySize.toNat
      if c.ioBuf.data.length = c.ioBuf.max then
        match wbySocketFlush c.socket c.ioBuf with
        | (false, s, buf) => ⟨some false, { c with socket := s, ioBuf := buf }⟩
        | (true, s, buf) =>
          let c := { c with socket := s, ioBuf := buf }
          if c.ioBuf.max ≤ data.length then
            match wbySocketSend data c.socket with
            | (ok, s) => ⟨some ok, { c with socket := s }⟩
          else castPushLoop fuel data c
      else castPushLoop fuel data c

/-- `wby_connection_push`, for a buffer of any size. -/
def wbyConnectionPush (data : Bytes) (c : Connection) : Outcome Bool :=
  if c.state ≠ .serve then ⟨some false, c⟩
  else if data = [] then
    match wbySocketFlush c.socket c.ioBuf with
    | (ok, s, buf) => ⟨some ok, { c with socket := s, ioBuf := buf }⟩
  else castPushLoop (data.length + 1) data c

/-- Pushes, one after the other, if all of them return. -/
def pushAll : List Bytes → Connection → Option Connection
  | [], c => some c
  | bs :: pushes, c =>
    match c.wbyConnectionPush bs with
    | ⟨none, _⟩ => none
    | ⟨some _, d⟩ => pushAll pushes d

/-- All pushes return, what was pushed was sent or is in the buffer, and all of it was sent if the last
push was of length 0. -/
def Transparent (pushes : List Bytes) (c : Connection) : Prop :=
  ∃ d, pushAll pushes c = some d ∧
    d.socket.sent ++ d.ioBuf.data = c.socket.sent ++ c.ioBuf.data ++ pushes.flatten ∧
    d.ioBuf.data.length ≤ d.ioBuf.max ∧ (pushes.getLast? = some [] → d.ioBuf.data = [])

/-- No more than `room` bytes are pushed between two pushes of length 0, if `used` were pushed
before. -/
def FitsBetween (room : ℤ) : ℕ → List Bytes → Prop
  | _, [] => True
  | used, bs :: pushes =>
    if bs = [] then FitsBetween room 0 pushes
    else used + bs.length ≤ room ∧ FitsBetween room (used + bs.length) pushes

/-! ## Sizes that fit -/

/-- The size of the I/O buffer fits into an `int`, and no more is in it than there is space for. -/
structure Small (c : Connection) : Prop where
  max_lt : c.ioBuf.max < 2 ^ 31
  fits : c.ioBuf.data.length ≤ c.ioBuf.max

section Small

variable {c d : Connection} {bs : Bytes} {fuel : ℕ}

/-- If the size of the buffer fits into an `int`, the casts make no difference. -/
theorem castPushLoop_eq (hc : c.Small)
    (hfuel : bs.length + (if c.ioBuf.data.length = c.ioBuf.max then 1 else 0) ≤ fuel) :
    castPushLoop fuel bs c = ⟨some (pushLoop fuel bs c).1, (pushLoop fuel bs c).2⟩ := by
  induction fuel generalizing c bs with
  | zero =>
    obtain rfl : bs = [] := List.eq_nil_of_length_eq_zero (by omega)
    rfl
  | succ fuel ih =>
    by_cases hbs : bs = []
    · subst hbs
      rfl
    · have hmax := hc.max_lt
      have hfits := hc.fits
      have hlen : 0 < bs.length := List.length_pos_iff.mpr hbs
      have hspace : toInt c.ioBuf.max - toInt c.ioBuf.data.length =
          ((c.ioBuf.max - c.ioBuf.data.length : ℕ) : ℤ) := by
        rw [toInt_of_lt hmax, toInt_of_lt (by omega)]
        omega
      have hcopy : (if (bs.length : ℤ) < ((c.ioBuf.max - c.ioBuf.data.length : ℕ) : ℤ)
          then (bs.length : ℤ) else ((c.ioBuf.max - c.ioBuf.data.length : ℕ) : ℤ)) =
            ((min bs.length (c.ioBuf.max - c.ioBuf.data.length) : ℕ) : ℤ) := by
        split_ifs <;> omega
      have htake : bs.take (min bs.length (c.ioBuf.max - c.ioBuf.data.length)) =
          bs.take (c.ioBuf.max - c.ioBuf.data.length) := by
        rw [List.take_eq_take_iff]
        omega
      have hdrop : bs.drop (min bs.length (c.ioBuf.max - c.ioBuf.data.length)) =
          bs.drop (c.ioBuf.max - c.ioBuf.data.length) := by
        rcases Nat.le_total bs.length (c.ioBuf.max - c.ioBuf.data.length) with hle | hle
        · rw [Nat.min_eq_left hle, List.drop_length, List.drop_of_length_le hle]
        · rw [Nat.min_eq_right hle]
      have hcopied : (c.ioBuf.data ++ bs.take (c.ioBuf.max - c.ioBuf.data.length)).length =
          c.ioBuf.data.length + min (c.ioBuf.max - c.ioBuf.data.length) bs.length := by
        rw [List.length_append, List.length_take]
      rw [pushLoop.eq_3 _ _ _ hbs, castPushLoop.eq_3 _ _ _ hbs]
      dsimp only
      rw [hspace, hcopy, if_neg (Int.not_lt.mpr (Int.natCast_nonneg _)), Int.toNat_natCast, htake,
        hdrop]
      split_ifs with hfull
      · rw [wbySocketFlush]
        dsimp only
        generalize wbySocketSend (c.ioBuf.data ++ bs.take (c.ioBuf.max - c.ioBuf.data.length))
          c.socket = r
        obtain ⟨_ | _, t⟩ := r
        · rfl
        · dsimp only
          split_ifs with hlong
          · rfl
          · refine ih ⟨hmax, Nat.zero_le _⟩ ?_
            rw [hcopied] at hfull
            rw [List.length_drop] at hlong ⊢
            dsimp only [List.length_nil]
            split_ifs at hfuel ⊢ <;> omega
      · refine ih ⟨hmax, ?_⟩ ?_
        · dsimp only
          omega
        · rw [if_neg hfull, List.length_drop]
          rw [hcopied] at hfull
          omega

/-- A push to a buffer whose size fits, whatever comes of what is sent. -/
theorem Small.wbyConnectionPush_eq (hc : c.Small) (bs : Bytes) :
    c.wbyConnectionPush bs = ⟨some (c.push bs).1, (c.push bs).2⟩ := by
  rw [wbyConnectionPush, push]
  split_ifs
  · rfl
  · rcases wbySocketFlush c.socket c.ioBuf with ⟨ok, t, buf⟩
    rfl
  · exact castPushLoop_eq hc (by split_ifs <;> omega)

theorem Small.flush (hc : c.Small) {s t : Socket} {buf : Buffer} {ok : Bool}
    (h : wbySocketFlush s c.ioBuf = (ok, t, buf)) : ({ c with ioBuf := buf } : Connection).Small := by
  rw [wbySocketFlush] at h
  split at h
  · obtain rfl := (Prod.mk.inj (Prod.mk.inj h).2).2
    exact ⟨hc.max_lt, Nat.zero_le _⟩
  · obtain rfl := (Prod.mk.inj (Prod.mk.inj h).2).2
    exact hc

theorem Small.copy (hc : c.Small) (bs : Bytes) :
    ({ c with ioBuf := { c.ioBuf with
      data := c.ioBuf.data ++ bs.take (c.ioBuf.max - c.ioBuf.data.length) } } : Connection).Small := by
  have hfits := hc.fits
  refine ⟨hc.max_lt, ?_⟩
  dsimp only
  rw [List.length_append, List.length_take]
  omega

/-- Only the socket and the I/O buffer matter, and of the socket nothing. -/
theorem Small.of_eq (hc : c.Small) (h : d.ioBuf = c.ioBuf) : d.Small :=
  ⟨h ▸ hc.max_lt, h ▸ hc.fits⟩

theorem Small.pushLoop (hc : c.Small) (fuel : ℕ) (bs : Bytes) :
    (pushLoop fuel bs c).2.Small := by
  fun_induction Connection.pushLoop fuel bs c with
  | case1 => exact hc
  | case2 => exact hc
  | case3 fuel bs c hbs space e hfull t buf hflush => exact (Small.flush (hc.copy bs) hflush).of_eq rfl
  | case4 fuel bs c hbs space e rest hfull t buf hflush =>
    exact (Small.flush (hc.copy bs) hflush).of_eq rfl
  | case5 fuel bs c hbs space e rest hfull t buf hflush f hlong ih =>
    exact ih ((Small.flush (hc.copy bs) hflush).of_eq rfl)
  | case6 fuel bs c hbs space e rest hfull ih => exact ih (hc.copy bs)

theorem Small.push (hc : c.Small) (bs : Bytes) : (c.push bs).2.Small := by
  rw [Connection.push]
  split_ifs
  · exact hc
  · generalize hflush : wbySocketFlush c.socket c.ioBuf = r
    obtain ⟨ok, t, buf⟩ := r
    exact (hc.flush hflush).of_eq rfl
  · exact hc.pushLoop _ bs

/-- A push to a buffer whose size fits. -/
theorem wbyConnectionPush_spec (hc : c.Writable) (hmax : c.ioBuf.max < 2 ^ 31) (bs : Bytes) :
    ∃ d, c.wbyConnectionPush bs = ⟨some true, d⟩ ∧ c.Pushed bs d ∧ (bs = [] → d.ioBuf.data = []) := by
  obtain ⟨d, hpush, hd, hempty⟩ := push_spec hc bs
  refine ⟨d, ?_, hd, hempty⟩
  rw [Small.wbyConnectionPush_eq ⟨hmax, hc.fits⟩, hpush]

theorem pushAll_of_none {pushes : List Bytes} (h : (c.wbyConnectionPush bs).value = none) :
    pushAll (bs :: pushes) c = none := by
  rw [pushAll]
  generalize c.wbyConnectionPush bs = o at h ⊢
  obtain ⟨value, d⟩ := o
  obtain rfl : value = none := h
  rfl

/-- What follows a push that returns. -/
theorem transparent_cons_iff {pushes : List Bytes} {ok : Bool}
    (hpush : c.wbyConnectionPush bs = ⟨some ok, d⟩) (hd : c.Pushed bs d)
    (hempty : bs = [] → d.ioBuf.data = []) :
    Transparent (bs :: pushes) c ↔ Transparent pushes d := by
  have hrun : pushAll (bs :: pushes) c = pushAll pushes d := by rw [pushAll, hpush]
  have hstream : ∀ e : Connection, e.socket.sent ++ e.ioBuf.data =
      c.socket.sent ++ c.ioBuf.data ++ (bs :: pushes).flatten ↔
        e.socket.sent ++ e.ioBuf.data = d.socket.sent ++ d.ioBuf.data ++ pushes.flatten := by
    intro e
    rw [hd.stream, List.flatten_cons, ← List.append_assoc]
  rw [Transparent, Transparent, hrun]
  refine exists_congr fun e => and_congr_right fun he => and_congr (hstream e) (and_congr_right
    fun _ => ?_)
  cases pushes with
  | nil =>
    obtain rfl : d = e := Option.some.inj he
    exact iff_of_true (fun hlast => hempty (Option.some.inj hlast)) nofun
  | cons bs' pushes => rw [List.getLast?_cons_cons]

theorem transparent_of_lt (hc : c.Writable) (hmax : c.ioBuf.max < 2 ^ 31) (pushes : List Bytes) :
    Transparent pushes c := by
  induction pushes generalizing c with
  | nil => exact ⟨c, rfl, by rw [List.flatten_nil, List.append_nil], hc.fits, nofun⟩
  | cons bs pushes ih =>
    obtain ⟨d, hpush, hd, hempty⟩ := wbyConnectionPush_spec hc hmax bs
    rw [transparent_cons_iff hpush hd hempty]
    refine ih (hd.writable hc) ?_
    rw [hd.eq]
    exact hmax

end Small

/-! ## Sizes that do not fit -/

section Large

variable {c d : Connection} {bs : Bytes} {pushes : List Bytes}

/-- Once the space is used up, the loop goes on forever. -/
theorem castPushLoop_stuck (hused : toInt c.ioBuf.max = toInt c.ioBuf.data.length)
    (hfull : c.ioBuf.data.length ≠ c.ioBuf.max) (hbs : bs ≠ []) (fuel : ℕ) :
    (castPushLoop fuel bs c).value = none := by
  induction fuel with
  | zero =>
    cases bs with
    | nil => exact absurd rfl hbs
    | cons => rfl
  | succ fuel ih =>
    have hcopy : ¬ (bs.length : ℤ) < 0 := Int.not_lt.mpr (Int.natCast_nonneg _)
    rw [castPushLoop.eq_3 _ _ _ hbs]
    dsimp only
    rw [hused, Int.sub_self, if_neg hcopy, if_neg (lt_irrefl 0), Int.toNat_zero, List.take_zero,
      List.append_nil, List.drop_zero, if_neg hfull]
    exact ih

/-- A push that fits into the space is copied to the buffer. -/
theorem wbyConnectionPush_of_le (hserve : c.state = .serve) (hmax : 2 ^ 31 ≤ c.ioBuf.max) (hbs : bs ≠ [])
    (hle : c.ioBuf.data.length + bs.length ≤ toInt c.ioBuf.max) :
    c.wbyConnectionPush bs =
      ⟨some true, { c with ioBuf := { c.ioBuf with data := c.ioBuf.data ++ bs } }⟩ := by
  have hint := toInt_lt c.ioBuf.max
  have hcopy : (if (bs.length : ℤ) < toInt c.ioBuf.max - c.ioBuf.data.length then (bs.length : ℤ)
      else toInt c.ioBuf.max - c.ioBuf.data.length) = bs.length := by
    split_ifs <;> omega
  have hfull : (c.ioBuf.data ++ bs).length ≠ c.ioBuf.max := by
    rw [List.length_append]
    omega
  rw [wbyConnectionPush, if_neg (by simp [hserve]), if_neg hbs, castPushLoop.eq_3 _ _ _ hbs]
  dsimp only
  rw [toInt_of_lt (n := c.ioBuf.data.length) (by omega), hcopy,
    if_neg (Int.not_lt.mpr (Int.natCast_nonneg _)), Int.toNat_natCast, List.take_length,
    List.drop_length, if_neg hfull]
  cases bs.length <;> rfl

/-- A push of more than the space does not return. -/
theorem wbyConnectionPush_of_lt (hserve : c.state = .serve) (hmax : 2 ^ 31 ≤ c.ioBuf.max) (hbs : bs ≠ [])
    (hused : c.ioBuf.data.length ≤ max (toInt c.ioBuf.max) 0)
    (hlt : toInt c.ioBuf.max < c.ioBuf.data.length + bs.length) :
    (c.wbyConnectionPush bs).value = none := by
  have hint := toInt_lt c.ioBuf.max
  have hdata : toInt c.ioBuf.data.length = c.ioBuf.data.length := toInt_of_lt (by omega)
  have hcopy : (if (bs.length : ℤ) < toInt c.ioBuf.max - c.ioBuf.data.length then (bs.length : ℤ)
      else toInt c.ioBuf.max - c.ioBuf.data.length) = toInt c.ioBuf.max - c.ioBuf.data.length := by
    split_ifs <;> omega
  rw [wbyConnectionPush, if_neg (by simp [hserve]), if_neg hbs, castPushLoop.eq_3 _ _ _ hbs]
  dsimp only
  rw [hdata, hcopy]
  split_ifs with hneg hfull
  · rfl
  · rw [List.length_append, List.length_take] at hfull
    omega
  · have hused' : (c.ioBuf.data ++ bs.take (toInt c.ioBuf.max - c.ioBuf.data.length).toNat).length =
        (toInt c.ioBuf.max).toNat := by
      rw [List.length_append, List.length_take]
      omega
    refine castPushLoop_stuck ?_ hfull ?_ _
    · dsimp only
      rw [hused', toInt_of_lt (n := (toInt c.ioBuf.max).toNat) (by omega)]
      omega
    · rw [ne_eq, List.drop_eq_nil_iff]
      omega

/-- What a push comes to. -/
theorem wbyConnectionPush_large (hc : c.Writable) (hmax : 2 ^ 31 ≤ c.ioBuf.max)
    (hused : c.ioBuf.data.length ≤ max (toInt c.ioBuf.max) 0) (bs : Bytes) :
    (∃ d, c.wbyConnectionPush bs = ⟨some true, d⟩ ∧ c.Pushed bs d ∧ (bs = [] → d.ioBuf.data = []) ∧
      d.ioBuf.data.length ≤ max (toInt c.ioBuf.max) 0 ∧
      ∀ pushes, FitsBetween (toInt c.ioBuf.max) c.ioBuf.data.length (bs :: pushes) ↔
        FitsBetween (toInt c.ioBuf.max) d.ioBuf.data.length pushes) ∨
    ((c.wbyConnectionPush bs).value = none ∧
      ∀ pushes, ¬ FitsBetween (toInt c.ioBuf.max) c.ioBuf.data.length (bs :: pushes)) := by
  by_cases hbs : bs = []
  · subst hbs
    obtain ⟨t, hflush, hd⟩ := exists_flush hc
    refine .inl ⟨_, ?_, hd, fun _ => rfl, Int.le_max_right _ _, fun pushes => ?_⟩
    · rw [wbyConnectionPush, if_neg (by simp [hc.serve]), if_pos rfl, hflush]
    · rw [FitsBetween, if_pos rfl]
      rfl
  · by_cases hle : c.ioBuf.data.length + bs.length ≤ toInt c.ioBuf.max
    · have hint := toInt_lt c.ioBuf.max
      have hlength : (c.ioBuf.data ++ bs).length = c.ioBuf.data.length + bs.length :=
        List.length_append
      refine .inl ⟨_, wbyConnectionPush_of_le hc.serve hmax hbs hle,
        ⟨hc.isOpen, ?_, (List.append_assoc _ _ _).symm, rfl⟩, fun h => absurd h hbs, ?_,
        fun pushes => ?_⟩
      · dsimp only
        omega
      · dsimp only
        omega
      · rw [FitsBetween, if_neg hbs, and_iff_right hle, hlength]
    · refine .inr ⟨wbyConnectionPush_of_lt hc.serve hmax hbs hused (Int.not_le.mp hle),
        fun pushes h => ?_⟩
      rw [FitsBetween, if_neg hbs] at h
      exact hle h.1

/-- A buffer whose size does not fit has the space of the size that was cast. -/
theorem transparent_large_iff (hc : c.Writable) (hmax : 2 ^ 31 ≤ c.ioBuf.max)
    (hused : c.ioBuf.data.length ≤ max (toInt c.ioBuf.max) 0) :
    Transparent pushes c ↔ FitsBetween (toInt c.ioBuf.max) c.ioBuf.data.length pushes := by
  induction pushes generalizing c with
  | nil =>
    exact iff_of_true ⟨c, rfl, by rw [List.flatten_nil, List.append_nil], hc.fits, nofun⟩ trivial
  | cons bs pushes ih =>
    rcases wbyConnectionPush_large hc hmax hused bs with
      ⟨d, hpush, hd, hempty, hused', hiff⟩ | ⟨hnone, hfits⟩
    · have hmax' : d.ioBuf.max = c.ioBuf.max := by rw [hd.eq]
      rw [transparent_cons_iff hpush hd hempty, hiff, ← hmax',
        ih (hd.writable hc) (hmax' ▸ hmax) (hmax' ▸ hused')]
    · refine iff_of_false ?_ (hfits pushes)
      rintro ⟨d, hrun, -⟩
      rw [pushAll_of_none hnone] at hrun
      exact absurd hrun nofun

/-- A buffer of any size. -/
theorem transparent_writable_iff (hc : c.Writable)
    (hused : c.ioBuf.data.length ≤ max (toInt c.ioBuf.max) 0) :
    Transparent pushes c ↔
      c.ioBuf.max < 2 ^ 31 ∨ FitsBetween (toInt c.ioBuf.max) c.ioBuf.data.length pushes := by
  by_cases hmax : c.ioBuf.max < 2 ^ 31
  · exact iff_of_true (transparent_of_lt hc hmax pushes) (.inl hmax)
  · rw [transparent_large_iff hc (not_lt.mp hmax) hused, or_iff_right hmax]

end Large

/-! ## Any connection that serves a request -/

section Flags

variable {c d : Connection} {bs : Bytes} {pushes : List Bytes} {flags : Flags}

theorem castPushLoop_flags (fuel : ℕ) (bs : Bytes) (c : Connection) :
    castPushLoop fuel bs { c with flags } =
      ⟨(castPushLoop fuel bs c).value, { (castPushLoop fuel bs c).conn with flags }⟩ := by
  induction fuel generalizing bs c with
  | zero => cases bs <;> rfl
  | succ fuel ih =>
    cases bs with
    | nil => rfl
    | cons b bs =>
      rw [castPushLoop.eq_3 _ _ _ (List.cons_ne_nil b bs),
        castPushLoop.eq_3 _ _ _ (List.cons_ne_nil b bs)]
      dsimp only
      generalize (if ((b :: bs).length : ℤ) < toInt c.ioBuf.max - toInt c.ioBuf.data.length
        then ((b :: bs).length : ℤ)
        else toInt c.ioBuf.max - toInt c.ioBuf.data.length) = copySize
      split_ifs with hneg hfull
      · rfl
      · rcases wbySocketFlush c.socket
          { c.ioBuf with data := c.ioBuf.data ++ (b :: bs).take copySize.toNat } with ⟨_ | _, t, buf⟩
        · rfl
        · dsimp only
          split_ifs
          · rfl
          · exact ih _ { c with socket := t, ioBuf := buf }
      · exact ih _ { c with
          ioBuf := { c.ioBuf with data := c.ioBuf.data ++ (b :: bs).take copySize.toNat } }

theorem wbyConnectionPush_flags (bs : Bytes) (c : Connection) :
    ({ c with flags } : Connection).wbyConnectionPush bs =
      ⟨(c.wbyConnectionPush bs).value, { (c.wbyConnectionPush bs).conn with flags }⟩ := by
  rw [wbyConnectionPush, wbyConnectionPush]
  split_ifs
  · rfl
  · rfl
  · exact castPushLoop_flags _ bs c

theorem pushAll_flags (pushes : List Bytes) (c : Connection) :
    pushAll pushes { c with flags } = (pushAll pushes c).map fun d => { d with flags } := by
  induction pushes generalizing c with
  | nil => rfl
  | cons bs pushes ih =>
    rw [pushAll, pushAll, wbyConnectionPush_flags]
    rcases c.wbyConnectionPush bs with ⟨_ | ok, d⟩
    · rfl
    · exact ih d

/-- The flags of a connection do not matter. -/
theorem transparent_flags_iff :
    Transparent pushes { c with flags } ↔ Transparent pushes c := by
  rw [Transparent, Transparent, pushAll_flags]
  constructor
  · rintro ⟨d, hd, h⟩
    obtain ⟨e, he, rfl⟩ := Option.map_eq_some_iff.mp hd
    exact ⟨e, he, h⟩
  · rintro ⟨d, hd, h⟩
    exact ⟨{ d with flags }, by rw [hd]; rfl, h⟩

end Flags

section Pushes

variable {c : Connection} {pushes : List Bytes}

/-- **The I/O buffer is transparent exactly if its size fits into an `int`**, or no more is pushed
between two flushes than the size that was cast. -/
theorem transparent_iff (hstate : c.state = .serve) (hopen : c.socket.Open) (hdata : c.ioBuf.data = []) :
    Transparent pushes c ↔
      c.ioBuf.max < 2 ^ 31 ∨ FitsBetween (toInt c.ioBuf.max) 0 pushes := by
  have hlength : c.ioBuf.data.length = 0 := by rw [hdata, List.length_nil]
  have hc : ({ c with flags := .none } : Connection).Writable :=
    ⟨hstate, rfl, hopen, by dsimp only; rw [hlength]; exact Nat.zero_le _⟩
  have hiff := @transparent_writable_iff _ pushes hc
    (by dsimp only; rw [hlength]; exact Int.le_max_right _ _)
  dsimp only at hiff
  rw [← @transparent_flags_iff c pushes .none, hiff, hlength]

/-- A connection that serves a request, with a buffer of some size. -/
def served (max : ℕ) (accepts : List ℕ) : Connection :=
  { blank { Socket.ready [] with accepts } with state := .serve, ioBuf := ⟨[], max⟩ }

/-- A buffer of four bytes, and a socket that takes one byte at first. -/
theorem transparent_four_bytes :
    Transparent [[1, 2, 3], [4, 5, 6, 7, 8, 9], []] (served 4 [1, 2]) :=
  (transparent_iff rfl ⟨rfl, by decide⟩ rfl).mpr (.inl (by decide))

/-- A buffer of 4 GiB has no space. -/
theorem not_transparent_four_gib : ¬ Transparent [[1]] (served (2 ^ 32) []) := by
  rintro ⟨d, hd, -⟩
  have hnone : (pushAll [[1]] (served (2 ^ 32) [])).isNone = true := by decide
  rw [hd] at hnone
  exact absurd hnone Bool.false_ne_true

end Pushes

end Connection

end Mavicona.Mumux
