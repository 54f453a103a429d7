import Mavicona.Par.Reader

/-!
# What a package can put into a pointer

Reference: `par/block.c`, `par/libpar.h`, `packer/package.c`.

The last 16 bytes of a header are the pointers `gnu_longname` and `gnu_longlink` of the struct it is
read to. Two packages that differ there and in the checksums only are compared, with the memory of
each process as a parameter: a pointer of a package selects any text. A number of a header may also
run into the checksum, if its field does not end it. Then two such packages can differ in the size that
is read, and from there on the two runs are at different places.
-/

namespace Mavicona.Par

open Bytes Numeral

/-! ## Reading to the end -/

section ReadAll

variable (malloc : List ℕ → ℕ → Option ℕ) (ignoreEot skip : Bool)

/-- Call `th_read` up to `n` times, as long as it returns 0; with `skip` the content of a regular
file is skipped, as `package_verify` does. The result are the headers that were read, and the
last value that was returned, or `none` if `free` has failed. -/
def readAll : ℕ → PAR → List Bytes × Option ℤ
  | 0, _ => ([], some 0)
  | n + 1, t =>
    match thRead malloc ignoreEot t with
    | none => ([], none)
    | some (i, none) => ([], some i)
    | some (_, some t) =>
      let (ok, t') := if skip && isReg t.thBuf then parSkipRegfile t else (true, t)
      if ok then (t.thBuf :: (readAll n t').1, (readAll n t').2) else ([t.thBuf], some (-1))

end ReadAll

/-- The names of the headers, as the process with this memory sees them, and the last value. -/
def seen (memory : ℕ → Bytes) (r : List Bytes × Option ℤ) : List (Bytes × Bytes) × Option ℤ :=
  (r.1.map fun b => (thGetPathname memory b, thGetLinkname memory b), r.2)

/-! ## Packages that differ in the pointers and the checksums -/

/-- Two blocks that differ in the checksum and the pointers only. -/
structure SameBut (b c : Bytes) : Prop where
  length_left : b.length = blockSize
  length_right : c.length = blockSize
  front : b.take 148 = c.take 148
  middle : field b 156 340 = field c 156 340

/-- Two blocks that are the same, or two headers that pass `th_crc_ok` and differ in the checksum
and the pointers only. -/
def Alike (b c : Bytes) : Prop := b = c ∨ SameBut b c ∧ thCrcOk b = true ∧ thCrcOk c = true

/-- The pointers of a header are null. -/
def NullPointers (b : Bytes) : Prop := gnuLongname b = 0 ∧ gnuLonglink b = 0

/-! ## What two such headers share -/

section Alike

variable {b c : Bytes}

theorem SameBut.symm (h : SameBut b c) : SameBut c b :=
  ⟨h.length_right, h.length_left, h.front.symm, h.middle.symm⟩

theorem SameBut.field_front (h : SameBut b c) {off n : ℕ} (hle : off + n ≤ 148) :
    field b off n = field c off n := by
  have hsub : ∀ d : Bytes, field d off n = field (d.take 148) off n := by
    intro d
    rw [field, field, List.drop_take, List.take_take, Nat.min_eq_left (by omega)]
  rw [hsub b, hsub c, h.front]

theorem SameBut.field_middle (h : SameBut b c) {off n : ℕ} (hge : 156 ≤ off) (hle : off + n ≤ 496) :
    field b off n = field c off n := by
  obtain ⟨i, rfl⟩ := Nat.exists_eq_add_of_le hge
  have hi : i + n ≤ 340 := by omega
  rw [← field_field hi, ← field_field hi, h.middle]

theorem SameBut.name_eq (h : SameBut b c) : name b = name c := h.field_front (by decide)

theorem SameBut.magic_eq (h : SameBut b c) :
    magic b = magic c :=
  h.field_middle (by decide) (by decide)

theorem SameBut.version_eq (h : SameBut b c) :
    version b = version c :=
  h.field_middle (by decide) (by decide)

theorem SameBut.namePrefix_eq (h : SameBut b c) : namePrefix b = namePrefix c :=
  h.field_middle (by decide) (by decide)

theorem SameBut.typeflag_eq (h : SameBut b c) : typeflag b = typeflag c := by
  have hhead : ∀ d : Bytes, typeflag d = (field d 156 1).headD 0 := by
    intro d
    rw [typeflag, List.getD_eq_getElem?_getD, field, List.headD_eq_head?_getD, List.head?_take,
      List.head?_drop]
    rfl
  rw [hhead b, hhead c, h.field_middle (by decide) (by decide)]

theorem Alike.length_eq (h : Alike b c) : b.length = c.length := by
  rcases h with rfl | ⟨h, -, -⟩
  · rfl
  · rw [h.length_left, h.length_right]

theorem Alike.name_eq (h : Alike b c) : name b = name c := by
  rcases h with rfl | ⟨h, -, -⟩
  · rfl
  · exact h.name_eq

theorem Alike.typeflag_eq (h : Alike b c) : typeflag b = typeflag c := by
  rcases h with rfl | ⟨h, -, -⟩
  · rfl
  · exact h.typeflag_eq

theorem Alike.headerOk_eq (h : Alike b c) : headerOk b = headerOk c := by
  rcases h with rfl | ⟨h, hb, hc⟩
  · rfl
  · rw [headerOk, headerOk, h.magic_eq, h.version_eq, hb, hc]

/-- A number of zero has only zero bytes. -/
theorem ofLe_eq_zero {bs : Bytes} (h : ofLe bs = 0) : bs = List.replicate bs.length 0 := by
  induction bs with
  | nil => rfl
  | cons a bs ih =>
    rw [ofLe, Nat.add_eq_zero_iff] at h
    have ha : a = 0 := UInt8.toNat_inj.mp h.1
    have hbs : ofLe bs = 0 := by omega
    rw [List.length_cons, List.replicate_succ, ← ih hbs, ha]

theorem ofLe_replicate (n : ℕ) : ofLe (List.replicate n 0) = 0 := by
  induction n with
  | zero => rfl
  | succ n ih => rw [List.replicate_succ, ofLe, ih]; rfl

/-- A handle starts with null pointers. -/
theorem nullPointers_zero : NullPointers (List.replicate blockSize 0) := by
  constructor
  · rw [gnuLongname, field, List.drop_replicate, List.take_replicate, ofLe_replicate]
  · rw [gnuLonglink, field, List.drop_replicate, List.take_replicate, ofLe_replicate]

theorem NullPointers.drop_eq (h : NullPointers b) (hlen : b.length = blockSize) :
    b.drop 496 = List.replicate 16 0 := by
  have hfield : ∀ off, off + 8 ≤ 512 → ofLe (field b off 8) = 0 →
      field b off 8 = List.replicate 8 0 := by
    intro off hoff hzero
    have hl : (field b off 8).length = 8 := by
      rw [field, List.length_take, List.length_drop, hlen, blockSize]
      omega
    rw [ofLe_eq_zero hzero, hl]
  have hlast : b.drop 504 = field b 504 8 := by
    rw [field, List.take_of_length_le (by rw [List.length_drop, hlen, blockSize])]
  rw [← List.take_append_drop 8 (b.drop 496), List.drop_drop]
  exact congrArg₂ (· ++ ·) (hfield 496 (by decide) h.1)
    (hlast.trans (hfield 504 (by decide) h.2))

/-- **With null pointers the names are those of the fields**, whatever the memory has. -/
theorem Alike.names_eq (h : Alike b c) (hb : NullPointers b) (hc : NullPointers c)
    (m₁ m₂ : ℕ → Bytes) :
    thGetPathname m₁ b = thGetPathname m₂ c ∧ thGetLinkname m₁ b = thGetLinkname m₂ c := by
  have hpath : ∀ (m : ℕ → Bytes) (d : Bytes), NullPointers d → thGetPathname m d =
      if (magic d).take 5 ≠ tmagic.take 5 ∨ (namePrefix d).head? =
        some 0 then saferNameSuffix (cstr (name d))
      else saferNameSuffix (cstr (namePrefix d) ++ 47 :: cstr (name d)) :=
    fun m d hd => if_neg fun hnot => hnot hd.1
  have hlink : ∀ (m : ℕ → Bytes) (d : Bytes), NullPointers d →
      thGetLinkname m d = cstr (linkname d) :=
    fun m d hd => if_neg fun hnot => hnot hd.2
  rw [hpath m₁ b hb, hpath m₂ c hc, hlink m₁ b hb, hlink m₂ c hc]
  rcases h with rfl | ⟨h, -, -⟩
  · exact ⟨rfl, rfl⟩
  · refine ⟨by rw [h.magic_eq, h.namePrefix_eq, h.name_eq], congrArg cstr ?_⟩
    have hsplit : ∀ d : Bytes, linkname d = field d 157 339 ++ d.drop 496 := by
      intro d
      rw [linkname, field, ← List.drop_drop (i := 339) (j := 157), List.take_append_drop]
    rw [hsplit b, hsplit c, h.field_middle (by decide) (by decide), hb.drop_eq h.length_left,
      hc.drop_eq h.length_right]

end Alike

/-! ## Two runs in step -/

/-- Two texts or contents end at the same place, or both are cut off. -/
def SameEnd (n₁ n₂ : ℕ) (s₁ s₂ : Stream) : Prop :=
  n₁ = n₂ ∨ readBlocks n₁ s₁ = none ∧ readBlocks n₂ s₂ = none

/-- The blocks of a long name, behind a header of that type. -/
def textBlocks (isLong : Bytes → Bool) (b : Bytes) : ℕ :=
  if isLong b then blockCount (thGetSize b) else 0

/-- The blocks of the content of a regular file. -/
def regBlocks (b : Bytes) : ℕ := if isReg b then blockCount (toSSize (thGetSize b)).toNat else 0

/-- The long name behind the header that was read ends at the same place. -/
def SameText (isLong : Bytes → Bool) (t₁ t₂ : PAR) : Prop :=
  SameEnd (textBlocks isLong t₁.thBuf) (textBlocks isLong t₂.thBuf) t₁.stream t₂.stream

/-- The content behind the header that was read ends at the same place. -/
def SameContent (t₁ t₂ : PAR) : Prop :=
  SameEnd (regBlocks t₁.thBuf) (regBlocks t₂.thBuf) t₁.stream t₂.stream

section InStep

variable (malloc : List ℕ → ℕ → Option ℕ) (ignoreEot skip : Bool)

/-- The block of a header is read. -/
def headRead (t : PAR) : PAR :=
  let r := thReadInternal ignoreEot 0 t.stream (List.replicate blockSize 0)
  { t with stream := r.2.1, thBuf := r.2.2 }

/-- The next call of `th_read` reads as many blocks in both runs. -/
def HeadersInStep (t₁ t₂ : PAR) : Prop :=
  (thReadInternal ignoreEot 0 t₁.stream (List.replicate blockSize 0)).1 = blockSize →
    SameText isLonglink (headRead ignoreEot t₁) (headRead ignoreEot t₂) ∧
    ∀ u₁ u₂, thReadLong malloc ignoreEot isLonglink setLonglink (headRead ignoreEot t₁) = some u₁ →
      thReadLong malloc ignoreEot isLonglink setLonglink (headRead ignoreEot t₂) = some u₂ →
      SameText isLongname u₁ u₂

/-- What stands behind a header is skipped; `none` if it is cut off. -/
def skipped (t : PAR) : Option PAR :=
  if skip && isReg t.thBuf then
    if (parSkipRegfile t).1 then some (parSkipRegfile t).2 else none
  else some t

/-- As long as both runs are at the same place, every size that is used asks for as many blocks in both
packages, or for more than there are in both. -/
def InStep : ℕ → PAR → PAR → Prop
  | 0, _, _ => True
  | n + 1, t₁, t₂ => HeadersInStep malloc ignoreEot t₁ t₂ ∧
    ∀ u₁ u₂, (thReadHeader malloc ignoreEot t₁).2 = some u₁ →
      (thReadHeader malloc ignoreEot t₂).2 = some u₂ → (skip = true → SameContent u₁ u₂) ∧
      ∀ v₁ v₂, skipped skip u₁ = some v₁ → skipped skip u₂ = some v₂ → InStep n v₁ v₂

end InStep

section Runs

variable {b c : Bytes} {s₁ s₂ : Stream} {t₁ t₂ : PAR}

/-- The handles of two runs at the same place. -/
structure Abreast (t₁ t₂ : PAR) : Prop where
  stream : List.Forall₂ Alike t₁.stream t₂.stream
  thBuf : Alike t₁.thBuf t₂.thBuf
  heap : t₁.heap = t₂.heap

theorem thReadInternal_alike (ignoreEot : Bool) (h : List.Forall₂ Alike s₁ s₂) (zeros : ℕ)
    (buf₁ buf₂ : Bytes) :
    (thReadInternal ignoreEot zeros s₁ buf₁).1 = (thReadInternal ignoreEot zeros s₂ buf₂).1 ∧
      ((thReadInternal ignoreEot zeros s₁ buf₁).1 = blockSize →
        List.Forall₂ Alike (thReadInternal ignoreEot zeros s₁ buf₁).2.1
          (thReadInternal ignoreEot zeros s₂ buf₂).2.1 ∧
        Alike (thReadInternal ignoreEot zeros s₁ buf₁).2.2
          (thReadInternal ignoreEot zeros s₂ buf₂).2.2) := by
  have hend : (0 : ℤ) ≠ blockSize := by decide
  have hbad : (-2 : ℤ) ≠ blockSize := by decide
  induction h generalizing zeros buf₁ buf₂ with
  | nil => exact ⟨rfl, fun hcode => absurd hcode hend⟩
  | @cons b c s₁ s₂ hbc hrest ih =>
    rw [thReadInternal, thReadInternal, ← hbc.length_eq, ← hbc.name_eq, ← hbc.headerOk_eq]
    split_ifs with hlen
    · exact ⟨rfl, fun hcode => absurd (Nat.cast_injective hcode) hlen⟩
    · exact ⟨rfl, fun hcode => absurd hcode hend⟩
    · exact ih _ _ _
    · exact ⟨rfl, fun _ => ⟨hrest, hbc⟩⟩
    · exact ⟨rfl, fun hcode => absurd hcode hbad⟩

theorem readBlocks_alike (h : List.Forall₂ Alike s₁ s₂) (n : ℕ) :
    Option.Rel (List.Forall₂ Alike) (readBlocks n s₁) (readBlocks n s₂) := by
  induction h generalizing n with
  | nil =>
    cases n with
    | zero => exact .some .nil
    | succ n => exact .none
  | cons hbc hrest ih =>
    cases n with
    | zero => exact .some (.cons hbc hrest)
    | succ n =>
      rw [readBlocks, readBlocks, ← hbc.length_eq]
      split_ifs
      · exact ih n
      · exact .none

theorem SameEnd.readBlocks {n₁ n₂ : ℕ} (hend : SameEnd n₁ n₂ s₁ s₂) (h : List.Forall₂ Alike s₁ s₂) :
    Option.Rel (List.Forall₂ Alike) (readBlocks n₁ s₁) (readBlocks n₂ s₂) := by
  rcases hend with rfl | ⟨h₁, h₂⟩
  · exact readBlocks_alike h n₁
  · rw [h₁, h₂]
    exact .none

theorem blockCount_of_pos {i : ℤ} (hi : 0 < i) :
    blockCount i.toNat = blockCount (i - blockSize).toNat + 1 := by
  obtain ⟨n, rfl⟩ := Int.eq_ofNat_of_zero_le hi.le
  rw [blockCount, blockCount, blockSize]
  split_ifs <;> omega

/-- A content is skipped by reading all of its blocks. -/
theorem readContent_eq_readBlocks (s : Stream) (i : ℤ) :
    (readContent (fun _ y => (true, y)) s i ()).1 = (readBlocks (blockCount i.toNat) s).isSome ∧
      ∀ r, readBlocks (blockCount i.toNat) s = some r →
        (readContent (fun _ y => (true, y)) s i ()).2.1 = r := by
  induction s generalizing i with
  | nil =>
    by_cases hi : i ≤ 0
    · have hzero : blockCount i.toNat = 0 := by rw [Int.toNat_of_nonpos hi]; rfl
      rw [hzero]
      exact ⟨decide_eq_true hi, fun r hr => Option.some.inj hr⟩
    · rw [blockCount_of_pos (not_le.mp hi)]
      exact ⟨decide_eq_false hi, fun r hr => absurd hr (Option.some_ne_none r).symm⟩
  | cons block s ih =>
    rw [readContent]
    by_cases hi : i ≤ 0
    · have hzero : blockCount i.toNat = 0 := by rw [Int.toNat_of_nonpos hi]; rfl
      rw [hzero, if_pos hi]
      exact ⟨rfl, fun r hr => Option.some.inj hr⟩
    · rw [blockCount_of_pos (not_le.mp hi), if_neg hi, readBlocks]
      by_cases hlen : block.length = blockSize
      · rw [if_neg (not_not.mpr hlen), if_pos hlen]
        exact ih _
      · rw [if_pos hlen, if_neg hlen]
        exact ⟨rfl, fun r hr => absurd hr (Option.some_ne_none r).symm⟩

/-- What `par_skip_regfile` leaves. -/
theorem skipped_eq (t : PAR) :
    skipped true t = (readBlocks (regBlocks t.thBuf) t.stream).map fun s => { t with stream := s } := by
  rw [skipped, regBlocks, Bool.true_and, parSkipRegfile]
  by_cases hreg : isReg t.thBuf = true
  · obtain ⟨hok, hrest⟩ := readContent_eq_readBlocks t.stream (toSSize (thGetSize t.thBuf))
    rw [if_pos hreg, if_pos hreg, hreg, Bool.not_true, if_neg Bool.false_ne_true]
    dsimp only
    rw [hok]
    cases hread : readBlocks (blockCount (toSSize (thGetSize t.thBuf)).toNat) t.stream with
    | none => rfl
    | some r =>
      rw [hrest r hread]
      rfl
  · rw [if_neg hreg, if_neg hreg]
    rfl

section Steps

variable (malloc : List ℕ → ℕ → Option ℕ) (ignoreEot skip : Bool)

/-- A long name that is cut off is an error, whatever `malloc` gives. -/
theorem thReadLong_eq_none {isLong : Bytes → Bool} (setPointer : ℕ → Bytes → Bytes) {t : PAR}
    (hlong : isLong t.thBuf = true)
    (hread : readBlocks (blockCount (thGetSize t.thBuf)) t.stream = none) :
    thReadLong malloc ignoreEot isLong setPointer t = none := by
  rw [thReadLong, hlong]
  dsimp only
  rw [hread, Bool.not_true, if_neg Bool.false_ne_true]
  split_ifs
  · rfl
  · cases malloc t.heap (blockCount (thGetSize t.thBuf) * blockSize) <;> rfl

/-- A long name of as many blocks is read in the same way. -/
theorem thReadLong_abreast_of_eq {isLong : Bytes → Bool} (setPointer : ℕ → Bytes → Bytes)
    (h : Abreast t₁ t₂) (h₁ : isLong t₁.thBuf = true) (h₂ : isLong t₂.thBuf = true)
    (hcount : blockCount (thGetSize t₁.thBuf) = blockCount (thGetSize t₂.thBuf)) :
    Option.Rel Abreast (thReadLong malloc ignoreEot isLong setPointer t₁)
      (thReadLong malloc ignoreEot isLong setPointer t₂) := by
  rw [thReadLong, thReadLong, h₁, h₂, hcount, h.heap]
  simp only [Bool.not_true, Bool.false_eq_true, ↓reduceIte]
  split_ifs
  · exact .none
  · cases malloc t₂.heap (blockCount (thGetSize t₂.thBuf) * blockSize) with
    | none => exact .none
    | some p =>
      have hread := readBlocks_alike h.stream (blockCount (thGetSize t₂.thBuf))
      simp only [Option.bind_eq_bind, Option.bind_some]
      generalize readBlocks (blockCount (thGetSize t₂.thBuf)) t₁.stream = r₁ at hread ⊢
      generalize readBlocks (blockCount (thGetSize t₂.thBuf)) t₂.stream = r₂ at hread ⊢
      cases hread with
      | none => exact .none
      | some hrest =>
        obtain ⟨hcode, hok⟩ := thReadInternal_alike ignoreEot hrest 0 (setPointer p t₁.thBuf)
          (setPointer p t₂.thBuf)
        simp only [Option.bind_some]
        rw [← hcode]
        split_ifs with hfull
        · exact .some ⟨(hok hfull).1, (hok hfull).2, rfl⟩
        · exact .none

theorem thReadLong_abreast (isLong : Bytes → Bool) (setPointer : ℕ → Bytes → Bytes)
    (hlong : ∀ b c, typeflag b = typeflag c → isLong b = isLong c) (h : Abreast t₁ t₂)
    (htext : SameText isLong t₁ t₂) :
    Option.Rel Abreast (thReadLong malloc ignoreEot isLong setPointer t₁)
      (thReadLong malloc ignoreEot isLong setPointer t₂) := by
  have htype : isLong t₁.thBuf = isLong t₂.thBuf := hlong _ _ h.thBuf.typeflag_eq
  by_cases hyes : isLong t₁.thBuf = true
  · have hyes' : isLong t₂.thBuf = true := htype ▸ hyes
    rw [SameText, textBlocks, textBlocks, if_pos hyes, if_pos hyes'] at htext
    rcases htext with hcount | ⟨h₁, h₂⟩
    · exact thReadLong_abreast_of_eq malloc ignoreEot setPointer h hyes hyes' hcount
    · rw [thReadLong_eq_none malloc ignoreEot setPointer hyes h₁,
        thReadLong_eq_none malloc ignoreEot setPointer hyes' h₂]
      exact .none
  · have hno : isLong t₁.thBuf = false := Bool.eq_false_iff.mpr hyes
    have hno' : isLong t₂.thBuf = false := htype ▸ hno
    rw [thReadLong, thReadLong, hno, hno']
    exact .some h

theorem thReadHeader_abreast (hstream : List.Forall₂ Alike t₁.stream t₂.stream)
    (hheap : t₁.heap = t₂.heap) (hstep : HeadersInStep malloc ignoreEot t₁ t₂) :
    (thReadHeader malloc ignoreEot t₁).1 = (thReadHeader malloc ignoreEot t₂).1 ∧
      Option.Rel Abreast (thReadHeader malloc ignoreEot t₁).2
      (thReadHeader malloc ignoreEot t₂).2 := by
  obtain ⟨hcode, hok⟩ := thReadInternal_alike ignoreEot hstream 0 (List.replicate blockSize 0)
    (List.replicate blockSize 0)
  rw [HeadersInStep, headRead, headRead] at hstep
  rw [thReadHeader, thReadHeader]
  generalize thReadInternal ignoreEot 0 t₁.stream (List.replicate blockSize 0) = r₁ at hcode hok hstep ⊢
  generalize thReadInternal ignoreEot 0 t₂.stream (List.replicate blockSize 0) = r₂ at hcode hok hstep ⊢
  obtain ⟨i, u₁, b₁⟩ := r₁
  obtain ⟨j, u₂, b₂⟩ := r₂
  obtain rfl : i = j := hcode
  dsimp only at hok hstep ⊢
  split_ifs with hend hfull
  · exact ⟨rfl, .none⟩
  · exact ⟨rfl, .none⟩
  · obtain ⟨hu, hb⟩ := hok (not_not.mp hfull)
    obtain ⟨htext, hrest⟩ := hstep (not_not.mp hfull)
    have habreast : Abreast { t₁ with stream := u₁, thBuf := b₁ } { t₂ with stream := u₂, thBuf := b₂ } :=
      ⟨hu, hb, hheap⟩
    have hlink := thReadLong_abreast malloc ignoreEot isLonglink setLonglink
      (fun b c h => congrArg (fun f => decide (f = 75)) h) habreast htext
    generalize thReadLong malloc ignoreEot isLonglink setLonglink _ = l₁ at hlink hrest ⊢
    generalize thReadLong malloc ignoreEot isLonglink setLonglink _ = l₂ at hlink hrest ⊢
    cases hlink with
    | none => exact ⟨rfl, .none⟩
    | @some v₁ v₂ hv =>
      have hname := thReadLong_abreast malloc ignoreEot isLongname setLongname
        (fun b c h => congrArg (fun f => decide (f = 76)) h) hv (hrest v₁ v₂ rfl rfl)
      simp only [Option.bind_some]
      generalize thReadLong malloc ignoreEot isLongname setLongname v₁ = n₁ at hname ⊢
      generalize thReadLong malloc ignoreEot isLongname setLongname v₂ = n₂ at hname ⊢
      cases hname with
      | none => exact ⟨rfl, .none⟩
      | some hn => exact ⟨rfl, .some hn⟩

theorem skipped_abreast (h : Abreast t₁ t₂) (hcontent : skip = true → SameContent t₁ t₂) :
    Option.Rel Abreast (skipped skip t₁) (skipped skip t₂) := by
  cases skip with
  | false => exact .some h
  | true =>
    have hread := (hcontent rfl).readBlocks h.stream
    rw [skipped_eq, skipped_eq]
    generalize readBlocks (regBlocks t₁.thBuf) t₁.stream = r₁ at hread ⊢
    generalize readBlocks (regBlocks t₂.thBuf) t₂.stream = r₂ at hread ⊢
    cases hread with
    | none => exact .none
    | some hrest => exact .some ⟨hrest, h.thBuf, h.heap⟩

end Steps

end Runs

/-! ## The theorem -/

section Pointers

variable (malloc : List ℕ → ℕ → Option ℕ) (ignoreEot skip : Bool)

theorem thRead_of_nullPointers {t : PAR} (h : NullPointers t.thBuf) :
    thRead malloc ignoreEot t = some (thReadHeader malloc ignoreEot t) := by
  rw [thRead, h.1, h.2]
  rfl

theorem thBuf_skipped {t u : PAR} (h : skipped skip t = some u) : u.thBuf = t.thBuf := by
  have hskip : (parSkipRegfile t).2.thBuf = t.thBuf := by
    rw [parSkipRegfile]
    split_ifs <;> rfl
  rw [skipped] at h
  split_ifs at h
  · rw [← Option.some.inj h, hskip]
  · rw [Option.some.inj h]

section Rounds

variable {malloc ignoreEot skip} {t u v : PAR} {i : ℤ}

theorem readAll_ended (n : ℕ) (h : thRead malloc ignoreEot t = some (i, none)) :
    readAll malloc ignoreEot skip (n + 1) t = ([], some i) := by
  rw [readAll, h]

theorem readAll_cut (n : ℕ) (h : thRead malloc ignoreEot t = some (i, some u))
    (hskip : skipped skip u = none) :
    readAll malloc ignoreEot skip (n + 1) t = ([u.thBuf], some (-1)) := by
  rw [skipped] at hskip
  rw [readAll, h]
  dsimp only
  split_ifs at hskip with hcond hok
  rw [if_pos hcond, if_neg hok]

theorem readAll_more (n : ℕ) (h : thRead malloc ignoreEot t = some (i, some u))
    (hskip : skipped skip u = some v) :
    readAll malloc ignoreEot skip (n + 1) t =
      (u.thBuf :: (readAll malloc ignoreEot skip n v).1, (readAll malloc ignoreEot skip n v).2) := by
  rw [skipped] at hskip
  rw [readAll, h]
  dsimp only
  split_ifs at hskip with hcond hok
  · rw [if_pos hcond, if_pos hok, ← Option.some.inj hskip]
  · rw [if_neg hcond, ← Option.some.inj hskip]
    rfl

end Rounds

/-- As long as no pointer comes from a package, two packages that stay in step are read in the same
way. -/
theorem seen_readAll_eq (m₁ m₂ : ℕ → Bytes) (n : ℕ) {t₁ t₂ : PAR}
    (hstream : List.Forall₂ Alike t₁.stream t₂.stream) (hheap : t₁.heap = t₂.heap)
    (hnull₁ : NullPointers t₁.thBuf) (hnull₂ : NullPointers t₂.thBuf)
    (hstep : InStep malloc ignoreEot skip n t₁ t₂)
    (h₁ : ∀ b ∈ (readAll malloc ignoreEot skip n t₁).1, NullPointers b)
    (h₂ : ∀ b ∈ (readAll malloc ignoreEot skip n t₂).1, NullPointers b) :
    seen m₁ (readAll malloc ignoreEot skip n t₁) = seen m₂ (readAll malloc ignoreEot skip n t₂) := by
  induction n generalizing t₁ t₂ with
  | zero => rfl
  | succ n ih =>
    obtain ⟨hheaders, hcontents⟩ := hstep
    obtain ⟨hcode, hread⟩ := thReadHeader_abreast malloc ignoreEot hstream hheap hheaders
    have hr₁ := thRead_of_nullPointers malloc ignoreEot hnull₁
    have hr₂ := thRead_of_nullPointers malloc ignoreEot hnull₂
    generalize thReadHeader malloc ignoreEot t₁ = r₁ at hcode hread hcontents hr₁
    generalize thReadHeader malloc ignoreEot t₂ = r₂ at hcode hread hcontents hr₂
    obtain ⟨i, u₁⟩ := r₁
    obtain ⟨j, u₂⟩ := r₂
    obtain rfl : i = j := hcode
    cases hread with
    | none => rw [readAll_ended n hr₁, readAll_ended n hr₂, seen, seen, List.map_nil, List.map_nil]
    | @some u₁ u₂ hu =>
      obtain ⟨hcontent, hrest⟩ := hcontents u₁ u₂ rfl rfl
      have hskip := skipped_abreast skip hu hcontent
      generalize hs₁ : skipped skip u₁ = v₁ at hskip hrest
      generalize hs₂ : skipped skip u₂ = v₂ at hskip hrest
      cases hskip with
      | none =>
        rw [readAll_cut n hr₁ hs₁] at h₁ ⊢
        rw [readAll_cut n hr₂ hs₂] at h₂ ⊢
        have hnames := hu.thBuf.names_eq (h₁ _ List.mem_cons_self) (h₂ _ List.mem_cons_self) m₁ m₂
        simp [seen, hnames.1, hnames.2]
      | @some v₁ v₂ hv =>
        rw [readAll_more n hr₁ hs₁] at h₁ ⊢
        rw [readAll_more n hr₂ hs₂] at h₂ ⊢
        have hhead₁ := h₁ u₁.thBuf List.mem_cons_self
        have hhead₂ := h₂ u₂.thBuf List.mem_cons_self
        have hnames := hu.thBuf.names_eq hhead₁ hhead₂ m₁ m₂
        have hseen := ih hv.stream hv.heap (thBuf_skipped skip hs₁ ▸ hhead₁)
          (thBuf_skipped skip hs₂ ▸ hhead₂) (hrest v₁ v₂ rfl rfl)
          (fun b hb => h₁ b (List.mem_cons_of_mem _ hb))
          (fun b hb => h₂ b (List.mem_cons_of_mem _ hb))
        rw [seen, seen, Prod.mk.injEq] at hseen
        simp [seen, hnames.1, hnames.2, hseen.1, hseen.2]

/-- The pointers of the headers that are read from a package. -/
def Clean (stream : Stream) : Prop :=
  ∀ n, ∀ b ∈ (readAll malloc ignoreEot skip n (parOpen stream)).1, NullPointers b

/-- Two processes see the same names and return the same values, whatever their memory has. -/
def Agree (s₁ s₂ : Stream) : Prop :=
  ∀ n (m₁ m₂ : ℕ → Bytes), seen m₁ (readAll malloc ignoreEot skip n (parOpen s₁)) =
    seen m₂ (readAll malloc ignoreEot skip n (parOpen s₂))

/-- Headers whose names do not depend on the memory have null pointers. -/
theorem nullPointers_of_seen {r : List Bytes × Option ℤ}
    (h : ∀ m₁ m₂ : ℕ → Bytes, seen m₁ r = seen m₂ r)
    {b : Bytes} (hb : b ∈ r.1) : NullPointers b := by
  have hnames := List.map_inj_left.mp (Prod.ext_iff.mp (h (fun _ => [97]) fun _ => [98])).1 b hb
  rw [Prod.mk.injEq] at hnames
  constructor
  · by_contra hne
    rw [thGetPathname, thGetPathname, if_pos hne, if_pos hne] at hnames
    exact absurd hnames.1 (by decide)
  · by_contra hne
    rw [thGetLinkname, thGetLinkname, if_pos hne, if_pos hne] at hnames
    exact absurd hnames.2 (by decide)

/-- **Packages that differ in the pointers and the checksums are read in the same way if the headers of
their entries have null pointers** and no size leads the runs apart; and two processes agree on them only
if the headers have null pointers. -/
theorem agree_of_clean {s₁ s₂ : Stream} (halike : List.Forall₂ Alike s₁ s₂) :
    ((∀ n, InStep malloc ignoreEot skip n (parOpen s₁) (parOpen s₂)) →
      Clean malloc ignoreEot skip s₁ → Clean malloc ignoreEot skip s₂ →
      Agree malloc ignoreEot skip s₁ s₂) ∧
    (Agree malloc ignoreEot skip s₁ s₂ → Clean malloc ignoreEot skip s₁ ∧
      Clean malloc ignoreEot skip s₂) := by
  constructor
  · intro hstep h₁ h₂ n m₁ m₂
    exact seen_readAll_eq malloc ignoreEot skip m₁ m₂ n halike rfl nullPointers_zero nullPointers_zero
      (hstep n) (h₁ n) (h₂ n)
  · intro hagree
    constructor
    · intro n b hb
      refine nullPointers_of_seen (fun m₁ m₂ => ?_) hb
      exact (hagree n m₁ m₁).trans (hagree n m₂ m₁).symm
    · intro n b hb
      refine nullPointers_of_seen (fun m₁ m₂ => ?_) hb
      exact (hagree n m₁ m₁).symm.trans (hagree n m₁ m₂)

end Pointers

/-! ## Crafted headers -/

/-- A header with the name `a` and the mode 100644. -/
def crafted (type : UInt8) (size chksum pointers : Bytes) : Bytes :=
  padTo 124 (padTo 100 (ascii "a") ++ ascii "100644") ++
  (size ++ (ascii "          0 " ++ (chksum ++
    (type :: (padTo 100 [] ++ (tmagic ++ (tversion ++ (padTo 231 [] ++ pointers))))))))

/-- The header of an empty file. -/
def emptyFile (chksum pointers : Bytes) : Bytes :=
  crafted regtype (ascii "          0 ") chksum pointers

/-- The header as it is written, with null pointers. -/
def writtenHeader : Bytes := emptyFile (intToOct 2047 8) (padTo 16 [])

/-- The header with the address 1 for a long name. -/
def craftedHeader : Bytes := emptyFile (intToOct 2048 8) (padTo 16 [1])

theorem alike_craftedHeader : List.Forall₂ Alike [writtenHeader] [craftedHeader] := by
  refine .cons (.inr ⟨⟨?_, ?_, ?_, ?_⟩, ?_, ?_⟩) .nil <;> decide +kernel

/-- The header of a long name of one block, and its text. -/
def longName (chksum pointers : Bytes) : Stream :=
  [crafted 76 (ascii "          1 ") chksum pointers, List.replicate blockSize 97]

/-- A file with a long name, as it is written. -/
def writtenFile : Stream := longName (intToOct 2122 8) (padTo 16 []) ++ [writtenHeader]

/-- The same with a pointer in the header that is read over, and the checksum of the file written in
another way. -/
def rewrittenHeader : Bytes := emptyFile (ascii "003777" ++ [0, 32]) (padTo 16 [])

def rewrittenFile : Stream := longName (intToOct 2123 8) (padTo 16 [1]) ++ [rewrittenHeader]

theorem alike_rewrittenFile : List.Forall₂ Alike writtenFile rewrittenFile := by
  refine .cons (.inr ⟨⟨?_, ?_, ?_, ?_⟩, ?_, ?_⟩) (.cons (.inl rfl)
    (.cons (.inr ⟨⟨?_, ?_, ?_, ?_⟩, ?_, ?_⟩) .nil)) <;> decide +kernel

/-- An allocation that always gives out the same address. -/
def someMemory (_ : List ℕ) (_ : ℕ) : Option ℕ := some 4096

theorem thRead_writtenFile :
    thRead someMemory false (parOpen writtenFile) = some (0, some ⟨[], writtenHeader, [4096]⟩) := by
  decide +kernel

theorem thRead_rewrittenFile :
    thRead someMemory false (parOpen rewrittenFile) = some (0, some ⟨[], rewrittenHeader, [4096]⟩) := by
  decide +kernel

section Last

variable {malloc : List ℕ → ℕ → Option ℕ} {ignoreEot skip : Bool}

/-- At the end of both packages there is nothing that could lead the runs apart. -/
theorem inStep_nil (n : ℕ) {t₁ t₂ : PAR} (h : t₁.stream = []) :
    InStep malloc ignoreEot skip n t₁ t₂ := by
  cases n with
  | zero => trivial
  | succ n =>
    refine ⟨fun hfull => ?_, fun u₁ u₂ hread => ?_⟩
    · rw [h, thReadInternal] at hfull
      exact absurd hfull (by decide)
    · rw [thReadHeader, h] at hread
      cases hread

/-- A package of which one header is read. -/
theorem clean_of_one {s : Stream} {t : PAR}
    (hread : thRead malloc ignoreEot (parOpen s) = some (0, some t)) (hskip : skipped skip t = some t)
    (hend : thRead malloc ignoreEot t = some (1, none))
    (hnull : NullPointers t.thBuf) : Clean malloc ignoreEot skip s := by
  intro n b hb
  cases n with
  | zero => exact absurd hb List.not_mem_nil
  | succ n =>
    rw [readAll_more n hread hskip] at hb
    rcases List.mem_cons.mp hb with rfl | hb
    · exact hnull
    · cases n with
      | zero => exact absurd hb List.not_mem_nil
      | succ n =>
        rw [readAll_ended n hend] at hb
        exact absurd hb List.not_mem_nil

end Last

theorem inStep_rewrittenFile (n : ℕ) :
    InStep someMemory false true n (parOpen writtenFile) (parOpen rewrittenFile) := by
  have hnull : NullPointers (parOpen writtenFile).thBuf ∧ NullPointers (parOpen rewrittenFile).thBuf :=
    ⟨nullPointers_zero, nullPointers_zero⟩
  cases n with
  | zero => trivial
  | succ n =>
    refine ⟨fun _ => ⟨.inl (by decide +kernel), fun u₁ u₂ h₁ h₂ => ?_⟩, fun u₁ u₂ h₁ h₂ => ?_⟩
    · -- Neither header is one of a long link, and both announce a long name of one block.
      have hsame₁ : thReadLong someMemory false isLonglink setLonglink
          (headRead false (parOpen writtenFile)) = some (headRead false (parOpen writtenFile)) := by
        decide +kernel
      have hsame₂ : thReadLong someMemory false isLonglink setLonglink
          (headRead false (parOpen rewrittenFile)) = some (headRead false (parOpen rewrittenFile)) := by
        decide +kernel
      rw [← Option.some.inj (hsame₁.symm.trans h₁), ← Option.some.inj (hsame₂.symm.trans h₂)]
      exact .inl (by decide +kernel)
    · have hread₁ := (thRead_of_nullPointers someMemory false hnull.1).symm.trans thRead_writtenFile
      have hread₂ := (thRead_of_nullPointers someMemory false hnull.2).symm.trans thRead_rewrittenFile
      rw [Option.some.inj hread₁] at h₁
      rw [Option.some.inj hread₂] at h₂
      obtain rfl := Option.some.inj h₁
      obtain rfl := Option.some.inj h₂
      refine ⟨fun _ => .inl (by decide +kernel), fun v₁ v₂ hv₁ _ => inStep_nil n ?_⟩
      have hskip : skipped true ⟨[], writtenHeader, [4096]⟩ = some ⟨[], writtenHeader, [4096]⟩ := by
        decide +kernel
      rw [← Option.some.inj (hskip.symm.trans hv₁)]

theorem agree_of_clean_rewritten : List.Forall₂ Alike writtenFile rewrittenFile ∧
    (∀ n, InStep someMemory false true n (parOpen writtenFile) (parOpen rewrittenFile)) ∧
    Clean someMemory false true writtenFile ∧ Clean someMemory false true rewrittenFile ∧
    Agree someMemory false true writtenFile rewrittenFile := by
  have hclean : Clean someMemory false true writtenFile :=
    clean_of_one thRead_writtenFile (by decide +kernel) (by decide +kernel)
      ⟨by decide +kernel, by decide +kernel⟩
  have hclean' : Clean someMemory false true rewrittenFile :=
    clean_of_one thRead_rewrittenFile (by decide +kernel) (by decide +kernel)
      ⟨by decide +kernel, by decide +kernel⟩
  exact ⟨alike_rewrittenFile, inStep_rewrittenFile, hclean, hclean',
    (agree_of_clean someMemory false true alike_rewrittenFile).1 inStep_rewrittenFile hclean hclean'⟩

/-- A package selects the name of its entry in the memory of the process. -/
theorem not_agree_crafted :
    ¬ ∀ (malloc : List ℕ → ℕ → Option ℕ) (ignoreEot skip : Bool) (s₁ s₂ : Stream),
    List.Forall₂ Alike s₁ s₂ → Agree malloc ignoreEot skip s₁ s₂ := by
  intro h
  have hone := h (fun _ _ => none) false true [writtenHeader] [craftedHeader] alike_craftedHeader 1
    (fun _ => [98]) fun _ => [98]
  exact absurd hone (by decide +kernel)

end Mavicona.Par
