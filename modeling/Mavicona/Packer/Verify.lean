import Mathlib.Logic.Relation
import Mavicona.Packer.Package

/-!
# Verifying a package

Reference: `packer/package.c` (`package_verify`, `package_extract`), `par/wrapper.c`, `par/block.c`.

`package_verify` walks over a package as `par_extract_all` does: it reads a header, and skips what
stands behind it. `par_extract_all` looks at the value of the last `th_read`, which is 1 at the end
of a package and -1 at a header that is damaged or cut off. `package_verify` does not, and it takes
the content of every header that counts as a regular file, also where the extraction makes a
directory or a link. Up to the first such header both are at the same place.
-/

namespace Mavicona.Packer

open Bytes Path Par

/-! ## The functions -/

section Functions

variable (malloc : List ℕ → ℕ → Option ℕ)

/-- The loop of `package_verify`, at most `n` times round: whether it is left by its condition. -/
def verifyLoop : ℕ → PAR → Bool
  | 0, _ => false
  | n + 1, t =>
    match thRead malloc false t with
    | none => false
    | some (_, none) => true
    | some (_, some t) =>
      if isReg t.thBuf then
        let (ok, t) := parSkipRegfile t
        if ok then verifyLoop n t else false
      else verifyLoop n t

/-- `package_verify`: whether it returns 0, where `closed` says whether `gzclose` does. Every round
of the loop takes a block of the package. -/
def packageVerify (closed : Bool) (p : Package) : Bool :=
  if p.magic ≠ packageMagic then false
  else verifyLoop malloc (p.blocks.length + 1) (parOpen p.blocks) && closed

end Functions

/-! ## What is read -/

/-- The content that `package_verify` skips behind a header; `none` if it is cut off. -/
def verified (t : PAR) : Option PAR :=
  if isReg t.thBuf then if (parSkipRegfile t).1 then some (parSkipRegfile t).2 else none
  else some t

/-- The content that `par_extract_file` reads behind a header, where no call to the target file
system fails; `none` if it is cut off, or if the header is of no kind. -/
def extracted (t : PAR) : Option PAR :=
  if isDir t.thBuf || isLnk t.thBuf || isSym t.thBuf then some t
  else if (parSkipRegfile t).1 then some (parSkipRegfile t).2 else none

section Walk

variable (malloc : List ℕ → ℕ → Option ℕ) (content : PAR → Option PAR)

/-- A walk over a package, at most `n` headers far: the value of the last `th_read`. -/
def walk : ℕ → PAR → Option ℤ
  | 0, _ => none
  | n + 1, t =>
    match thRead malloc false t with
    | none => none
    | some (i, none) => some i
    | some (_, some t) => (content t).bind (walk n)

/-- One header with its content. -/
def Member (t u : PAR) : Prop :=
  ∃ i t', thRead malloc false t = some (i, some t') ∧ content t' = some u

/-- Headers with their contents, one behind the other. -/
def Members : PAR → PAR → Prop := Relation.ReflTransGen (Member malloc content)

end Walk

/-- Extraction reads a package through: the loop of `par_extract_all` ends with 1. -/
def ReadsThrough (malloc : List ℕ → ℕ → Option ℕ) (p : Package) : Prop :=
  p.magic = packageMagic ∧
    walk malloc extracted (p.blocks.length + 1) (parOpen p.blocks) = some 1

/-! ## Every round takes a block -/

section Length

variable {malloc : List ℕ → ℕ → Option ℕ} {t u : PAR} {s s' : Stream} {i : ℤ} {n : ℕ}

theorem length_thReadInternal (ignoreEot : Bool) (zeros : ℕ) (s : Stream) (buf : Bytes)
    (h : (thReadInternal ignoreEot zeros s buf).1 ≠ 0) :
    (thReadInternal ignoreEot zeros s buf).2.1.length < s.length := by
  induction s generalizing zeros buf with
  | nil => exact absurd rfl h
  | cons block s ih =>
    unfold thReadInternal at h ⊢
    split_ifs at h ⊢
    · exact Nat.lt_succ_self _
    · exact absurd rfl h
    · exact (ih _ _ h).trans (Nat.lt_succ_self _)
    · exact Nat.lt_succ_self _
    · exact Nat.lt_succ_self _

theorem length_readBlocks (h : readBlocks n s = some s') : s'.length ≤ s.length := by
  induction n generalizing s with
  | zero => rw [Option.some_inj.mp h]
  | succ n ih =>
    cases s with
    | nil => exact absurd h (by simp [readBlocks])
    | cons block s =>
      rw [readBlocks] at h
      split_ifs at h
      exact (ih h).trans (Nat.le_succ _)

theorem length_thReadLong {isLong : Bytes → Bool} {setPointer : ℕ → Bytes → Bytes}
    (h : thReadLong malloc false isLong setPointer t = some u) :
    u.stream.length ≤ t.stream.length := by
  rw [thReadLong] at h
  dsimp only at h
  split_ifs at h
  · rw [Option.some_inj.mp h]
  · obtain ⟨p, -, h⟩ := Option.bind_eq_some_iff.mp h
    obtain ⟨s, hs, h⟩ := Option.bind_eq_some_iff.mp h
    split_ifs at h with hi
    rw [← Option.some_inj.mp h]
    have hlt := length_thReadInternal false 0 s (setPointer p t.thBuf) (by rw [hi]; decide)
    exact hlt.le.trans (length_readBlocks hs)

theorem length_thRead (h : thRead malloc false t = some (i, some u)) :
    u.stream.length < t.stream.length := by
  obtain ⟨heap, -, h⟩ := Option.bind_eq_some_iff.mp h
  obtain ⟨heap', -, h⟩ := Option.bind_eq_some_iff.mp h
  have h := Option.some_inj.mp h
  rw [thReadHeader] at h
  dsimp only at h
  split_ifs at h with h₁ h₂
  · exact absurd (congrArg Prod.snd h) (by simp)
  · exact absurd (congrArg Prod.snd h) (by simp)
  · split at h
    · exact absurd (congrArg Prod.snd h) (by simp)
    · rename_i v hlong
      obtain rfl : v = u := Option.some_inj.mp (congrArg Prod.snd h)
      obtain ⟨w, hw, hv⟩ := Option.bind_eq_some_iff.mp hlong
      have hlt := length_thReadInternal false 0 t.stream _ h₁
      exact (length_thReadLong hv).trans_lt ((length_thReadLong hw).trans_lt hlt)

theorem length_readContent {σ : Type} (write : Bytes → σ → Bool × σ) (s : Stream) (i : ℤ) (x : σ) :
    (readContent write s i x).2.1.length ≤ s.length := by
  induction s generalizing i x with
  | nil => exact le_rfl
  | cons block s ih =>
    unfold readContent
    generalize block.take (if i > blockSize then blockSize else i.toNat) = buf
    dsimp only
    split_ifs
    · exact le_rfl
    · exact Nat.le_succ _
    · exact (ih _ _).trans (Nat.le_succ _)
    · exact Nat.le_succ _

theorem length_parSkipRegfile (t : PAR) : (parSkipRegfile t).2.stream.length ≤ t.stream.length := by
  rw [parSkipRegfile]
  split_ifs
  · exact le_rfl
  · exact length_readContent _ _ _ _

theorem length_verified (h : verified t = some u) : u.stream.length ≤ t.stream.length := by
  rw [verified] at h
  split_ifs at h
  · exact Option.some_inj.mp h ▸ length_parSkipRegfile t
  · rw [Option.some_inj.mp h]

theorem length_extracted (h : extracted t = some u) : u.stream.length ≤ t.stream.length := by
  rw [extracted] at h
  split_ifs at h
  · rw [Option.some_inj.mp h]
  · exact Option.some_inj.mp h ▸ length_parSkipRegfile t

end Length

/-! ## Walks and members -/

section Walk

variable {malloc : List ℕ → ℕ → Option ℕ} {content : PAR → Option PAR} {t u : PAR} {i : ℤ} {n : ℕ}

/-- A walk ends behind the members it went over. -/
theorem walk_eq_some_iff (hcontent : ∀ t u, content t = some u → u.stream.length ≤ t.stream.length)
    (hn : t.stream.length < n) :
    walk malloc content n t = some i ↔
      ∃ u, Members malloc content t u ∧ thRead malloc false u = some (i, none) := by
  induction n generalizing t with
  | zero => exact absurd hn (Nat.not_lt_zero _)
  | succ n ih =>
    rw [walk]
    constructor
    · intro h
      match hread : thRead malloc false t, h with
      | some (j, none), h => exact ⟨t, .refl, by rw [hread, Option.some_inj.mp h]⟩
      | some (j, some t'), h =>
        obtain ⟨v, hv, hwalk⟩ := Option.bind_eq_some_iff.mp h
        have hlt := (hcontent _ _ hv).trans_lt (length_thRead hread)
        obtain ⟨u, hmem, hu⟩ := (ih (by omega)).mp hwalk
        exact ⟨u, .head ⟨j, t', hread, hv⟩ hmem, hu⟩
    · rintro ⟨u, hmem, hu⟩
      rcases hmem.cases_head with rfl | ⟨v, ⟨j, t', hread, hv⟩, hmem⟩
      · rw [hu]
      · have hlt := (hcontent _ _ hv).trans_lt (length_thRead hread)
        rw [hread]
        exact Option.bind_eq_some_iff.mpr ⟨v, hv, (ih (by omega)).mpr ⟨u, hmem, hu⟩⟩

/-- A walk that does not end comes to a pointer that cannot be freed, or to a content that cannot be
read. -/
theorem walk_eq_none_iff (hcontent : ∀ t u, content t = some u → u.stream.length ≤ t.stream.length)
    (hn : t.stream.length < n) :
    walk malloc content n t = none ↔
      ∃ u, Members malloc content t u ∧ (thRead malloc false u = none ∨
        ∃ i t', thRead malloc false u = some (i, some t') ∧ content t' = none) := by
  induction n generalizing t with
  | zero => exact absurd hn (Nat.not_lt_zero _)
  | succ n ih =>
    rw [walk]
    constructor
    · intro h
      match hread : thRead malloc false t, h with
      | none, _ => exact ⟨t, .refl, Or.inl hread⟩
      | some (j, some t'), h =>
        cases hv : content t' with
        | none => exact ⟨t, .refl, Or.inr ⟨j, t', hread, hv⟩⟩
        | some v =>
          have hlt := (hcontent _ _ hv).trans_lt (length_thRead hread)
          change (content t').bind (walk malloc content n) = none at h
          rw [hv] at h
          obtain ⟨u, hmem, hu⟩ := (ih (by omega)).mp h
          exact ⟨u, .head ⟨j, t', hread, hv⟩ hmem, hu⟩
    · rintro ⟨u, hmem, hu⟩
      rcases hmem.cases_head with rfl | ⟨v, ⟨j, t', hread, hv⟩, hmem⟩
      · rcases hu with hu | ⟨j, t', hread, hv⟩
        · rw [hu]
        · rw [hread]
          exact congrArg (Option.bind · (walk malloc content n)) hv
      · have hlt := (hcontent _ _ hv).trans_lt (length_thRead hread)
        rw [hread]
        change (content t').bind _ = none
        rw [hv]
        exact (ih (by omega)).mpr ⟨u, hmem, hu⟩

theorem verifyLoop_eq (n : ℕ) (t : PAR) :
    verifyLoop malloc n t = (walk malloc verified n t).isSome := by
  induction n generalizing t with
  | zero => rfl
  | succ n ih =>
    rw [verifyLoop, walk]
    match thRead malloc false t with
    | none => rfl
    | some (_, none) => rfl
    | some (_, some t') =>
      change (if isReg t'.thBuf then if (parSkipRegfile t').1 then verifyLoop malloc n
        (parSkipRegfile t').2 else false else verifyLoop malloc n t') =
          ((verified t').bind (walk malloc verified n)).isSome
      rw [verified]
      split_ifs
      · exact ih _
      · rfl
      · exact ih _

end Walk

/-! ## The end of a package -/

section End

variable {malloc : List ℕ → ℕ → Option ℕ} {t : PAR}

/-- The pointers of the last header can be freed. -/
def Freeable (t : PAR) : Prop :=
  ((free (gnuLongname t.thBuf) t.heap).bind (free (gnuLonglink t.thBuf))).isSome

/-- A block without a name. -/
def Nameless (block : Bytes) : Prop := block.length = blockSize ∧ (name block).head? = some 0

/-- The end of a package, behind `zeros` blocks without a name: there are two of them, or the file
is at its end. -/
def AtEnd (zeros : ℕ) (s : Stream) : Prop :=
  ∃ blocks rest, s = blocks ++ rest ∧ (∀ block ∈ blocks, Nameless block) ∧
    (zeros + blocks.length = 2 ∨
      zeros + blocks.length < 2 ∧ (rest = [] ∨ rest.head? = some []))

theorem atEnd_two (s : Stream) : AtEnd 2 s := ⟨[], s, rfl, by simp, Or.inl rfl⟩

theorem atEnd_cons {zeros : ℕ} (hzeros : zeros < 2) (block : Bytes) (s : Stream) :
    AtEnd zeros (block :: s) ↔ block = [] ∨ Nameless block ∧ AtEnd (zeros + 1) s := by
  constructor
  · rintro ⟨blocks, rest, hs, hall, hend⟩
    cases blocks with
    | nil =>
      obtain rfl : rest = block :: s := hs.symm
      simp only [List.length_nil, List.head?_cons, Option.some.injEq, reduceCtorEq, false_or] at hend
      exact Or.inl (hend.resolve_left (by omega)).2
    | cons b blocks =>
      obtain ⟨rfl, rfl⟩ := List.cons.inj hs
      obtain ⟨hb, hall⟩ := List.forall_mem_cons.mp hall
      rw [List.length_cons, Nat.add_comm _ 1, ← Nat.add_assoc] at hend
      exact Or.inr ⟨hb, blocks, rest, rfl, hall, hend⟩
  · rintro (rfl | ⟨hb, blocks, rest, rfl, hall, hend⟩)
    · exact ⟨[], [] :: s, rfl, by simp, Or.inr ⟨hzeros, Or.inr rfl⟩⟩
    · rw [Nat.add_assoc, Nat.add_comm 1] at hend
      exact ⟨block :: blocks, rest, rfl, List.forall_mem_cons.mpr ⟨hb, hall⟩, hend⟩

theorem thReadInternal_eq_zero_iff {zeros : ℕ} (hzeros : zeros < 2) (s : Stream) (buf : Bytes) :
    (thReadInternal false zeros s buf).1 = 0 ↔ AtEnd zeros s := by
  induction s generalizing zeros buf with
  | nil => exact iff_of_true rfl ⟨[], [], rfl, by simp, Or.inr ⟨hzeros, Or.inl rfl⟩⟩
  | cons block s ih =>
    have hnil : block.length = blockSize → block ≠ [] := fun hlen h => by simp [h, blockSize] at hlen
    rw [atEnd_cons hzeros]
    unfold thReadInternal
    split_ifs with hlen hname heot hok
    · -- A short block ends the package if it is empty.
      have hnameless : ¬ Nameless block := fun h => hlen h.1
      simp [hnameless]
    · obtain rfl : zeros = 1 := by simp at heot; omega
      exact iff_of_true rfl (Or.inr ⟨⟨not_not.mp hlen, hname⟩, atEnd_two s⟩)
    · have hnameless : Nameless block := ⟨not_not.mp hlen, hname⟩
      rw [ih (by simp at heot; omega)]
      simp [hnameless, hnil (not_not.mp hlen)]
    all_goals
      have hnameless : ¬ Nameless block := fun h => hname h.2
      simp [hnameless, hnil (not_not.mp hlen), blockSize]

theorem thRead_eq_none_iff : thRead malloc false t = none ↔ ¬ Freeable t := by
  unfold thRead Freeable
  cases free (gnuLongname t.thBuf) t.heap with
  | none => simp
  | some heap =>
    change (free (gnuLonglink t.thBuf) heap).bind _ = none ↔
      ¬ (free (gnuLonglink t.thBuf) heap).isSome = true
    cases free (gnuLonglink t.thBuf) heap <;> simp

theorem thRead_eq_end_iff :
    thRead malloc false t = some (1, none) ↔ Freeable t ∧ AtEnd 0 t.stream := by
  have hheader (heap : List ℕ) :
      thReadHeader malloc false { t with heap } = (1, none) ↔ AtEnd 0 t.stream := by
    rw [← thReadInternal_eq_zero_iff (by decide) t.stream (List.replicate blockSize 0), thReadHeader]
    dsimp only
    split_ifs with hzero hsize
    · exact iff_of_true rfl hzero
    · exact iff_of_false (by simp) hzero
    · refine iff_of_false ?_ hzero
      split
      · simp
      · simp
  unfold thRead Freeable
  cases free (gnuLongname t.thBuf) t.heap with
  | none => simp
  | some heap =>
    change (free (gnuLonglink t.thBuf) heap).bind _ = some (1, none) ↔
      (free (gnuLonglink t.thBuf) heap).isSome = true ∧ _
    cases free (gnuLonglink t.thBuf) heap with
    | none => simp
    | some heap => simpa using hheader heap

end End

/-! ## The extraction and what it reads -/

section Extract

variable {σ : Type} {sys : System σ} {cuts : Bool} {memory : ℕ → Bytes}
  {malloc : List ℕ → ℕ → Option ℕ} {dir : Option Bytes}

/-- What is skipped, block by block. -/
theorem readContent_skip (block : Bytes) (s : Stream) (i : ℤ) :
    readContent (fun _ y => (true, y)) (block :: s) i () =
      if i ≤ 0 then (true, block :: s, ())
      else if block.length ≠ blockSize then (false, s, ())
      else readContent (fun _ y => (true, y)) s (i - blockSize) () := by
  rw [readContent]
  rfl

theorem readContent_of_writes {write : Bytes → σ → Bool × σ} {s : Stream} {i : ℤ} {x : σ}
    (h : (readContent write s i x).1 = true) :
    readContent (fun _ y => (true, y)) s i () = (true, (readContent write s i x).2.1, ()) := by
  induction s generalizing i x with
  | nil => exact Prod.ext h rfl
  | cons block s ih =>
    rw [readContent] at h
    rw [readContent_skip, readContent]
    generalize block.take (if i > blockSize then blockSize else i.toNat) = buf at h ⊢
    dsimp only at h ⊢
    split_ifs at h ⊢ with hi hlen hwrite
    · rfl
    · exact ih h

/-- A file that is extracted is skipped in the same way. -/
theorem parSkipRegfile_of_parExtractRegfile {t : PAR} {filename : Bytes} {s : σ}
    (h : (parExtractRegfile sys t filename s).1 = true) :
    parSkipRegfile t = (true, (parExtractRegfile sys t filename s).2.1) := by
  unfold parExtractRegfile at h ⊢
  unfold parSkipRegfile
  split_ifs at h ⊢ with hreg
  dsimp only at h ⊢
  split_ifs at h ⊢ with hmade
  split at h
  · exact absurd h (by simp)
  · rename_i fdout s' hcreate
    obtain ⟨hread, -⟩ := (Bool.and_eq_true _ _).mp h
    rw [readContent_of_writes hread]

theorem extracted_of_parExtractFile {u : Unpacking σ} {realname : Bytes}
    (h : (parExtractFile sys cuts memory u realname).1 = true) :
    extracted u.par = some (parExtractFile sys cuts memory u realname).2.par := by
  have hentry : (parExtractEntry sys cuts memory u realname).2.1 = true := by
    by_contra hno
    rw [parExtractFile] at h
    simp [hno] at h
  have hpar : (parExtractFile sys cuts memory u realname).2.par =
      (parExtractEntry sys cuts memory u realname).2.2.par := by
    rw [parExtractFile]
    dsimp only
    split_ifs <;> rfl
  rw [hpar]
  unfold parExtractEntry at hentry ⊢
  unfold extracted
  dsimp only at hentry ⊢
  by_cases hdir : isDir u.par.thBuf = true
  · simp [hdir]
  by_cases hlnk : isLnk u.par.thBuf = true
  · simp [hdir, hlnk]
  by_cases hsym : isSym u.par.thBuf = true
  · simp [hdir, hlnk, hsym]
  rw [if_neg hdir, if_neg hlnk, if_neg hsym] at hentry ⊢
  have hskip := parSkipRegfile_of_parExtractRegfile hentry
  simp [hdir, hlnk, hsym, hskip]

/-- **An extraction that succeeds has read the package through.** -/
theorem walk_of_extractLoop {n : ℕ} {u : Unpacking σ}
    (h : (extractLoop sys cuts memory malloc dir n u).1 = true) :
    walk malloc extracted n u.par = some 1 := by
  induction n generalizing u with
  | zero => exact absurd h Bool.false_ne_true
  | succ n ih =>
    rw [extractLoop] at h
    rw [walk]
    match thRead malloc false u.par, h with
    | some (i, none), h => exact congrArg some (of_decide_eq_true h)
    | some (i, some t), h =>
      dsimp only at h
      split_ifs at h with hfile
      have hcontent := extracted_of_parExtractFile hfile
      exact Option.bind_eq_some_iff.mpr ⟨_, hcontent, ih h⟩

theorem packageExtract_fst {rootdir : Option Bytes} {p : Package} (hmagic : p.magic = packageMagic)
    (s : σ) :
    (packageExtract sys cuts memory malloc rootdir p s).1 =
      (extractLoop sys cuts memory malloc rootdir (p.blocks.length + 1)
        ⟨parOpen p.blocks, ChainedHash.empty, s⟩).1 := by
  have hlen : (parOpen p.blocks).stream.length = p.blocks.length := rfl
  rw [packageExtract, if_neg fun hne => hne hmagic, parExtractAll, hlen]

theorem readsThrough_of_packageExtract {rootdir : Option Bytes} {p : Package} {s : σ}
    (h : (packageExtract sys cuts memory malloc rootdir p s).1 = true) :
    ReadsThrough malloc p := by
  by_cases hmagic : p.magic = packageMagic
  · rw [packageExtract_fst hmagic] at h
    have hwalk := walk_of_extractLoop h
    exact ⟨hmagic, hwalk⟩
  · rw [packageExtract, if_pos hmagic] at h
    exact absurd h Bool.false_ne_true

/-- A system on which no call fails. -/
structure Obliging (sys : System σ) : Prop where
  mkdir : ∀ name mode s, (sys.mkdir name mode s).1 = none
  chown : ∀ name uid gid s, (sys.chown name uid gid s).1 = none
  utime : ∀ name mtime s, (sys.utime name mtime s).1 = none
  chmod : ∀ name mode s, (sys.chmod name mode s).1 = none
  create : ∀ name s, (sys.create name s).1.isSome
  write : ∀ fd buf s, (sys.write fd buf s).1 = none
  close : ∀ fd s, (sys.close fd s).1 = none
  link : ∀ target name s, (sys.link target name s).1 = none
  symlink : ∀ target name s, (sys.symlink target name s).1 = none
  unlink : ∀ name s, (sys.unlink name s).1 = none

namespace Obliging

variable (ho : Obliging sys)
include ho

theorem mkdirhier_fst {path : Bytes} (h : path.length ≤ hierLen) (s : σ) :
    (mkdirhier sys path s).1 = true := by
  have hparts : ∀ (parts : List Bytes) (dst : Bytes) (s : σ),
      (mkdirParts sys parts dst s).1 = true := by
    intro parts
    induction parts with
    | nil => exact fun _ _ => rfl
    | cons dirp parts ih =>
      intro dst s
      rw [mkdirParts]
      dsimp only
      rw [ho.mkdir]
      split_ifs
      all_goals first | exact ih _ _ | simp_all
  rw [mkdirhier, if_neg (not_lt.mpr h)]
  exact hparts _ _ _

theorem parSetFilePerms_fst (b filename : Bytes) (s : σ) :
    (parSetFilePerms sys b filename s).1 = true := by
  rw [parSetFilePerms]
  cases isSym b <;> cases sys.superuser <;>
    simp [andThen, succeeded, ho.chown, ho.utime, ho.chmod]

theorem readContent_eq (fd : ℕ) (s : Stream) (i : ℤ) (x : σ) :
    (readContent (fun buf x => succeeded (sys.write fd buf x)) s i x).1 =
      (readContent (fun _ y => (true, y)) s i ()).1 := by
  induction s generalizing i x with
  | nil => rfl
  | cons block s ih =>
    have hwrite : ∀ buf, (succeeded (sys.write fd buf x)).1 = true := fun buf => by
      simp [succeeded, ho.write]
    rw [readContent_skip, readContent]
    generalize block.take (if i > blockSize then blockSize else i.toNat) = buf
    dsimp only
    rw [hwrite, if_pos rfl]
    split_ifs
    · rfl
    · rfl
    · exact ih _ _

/-- A content that can be read is extracted. -/
theorem parExtractFile_fst {u : Unpacking σ} {realname : Bytes} {t : PAR}
    (hname : (dirname realname).length ≤ hierLen) (h : extracted u.par = some t) :
    (parExtractFile sys cuts memory u realname).1 = true := by
  have hhier := fun s => ho.mkdirhier_fst hname s
  have hentry : (parExtractEntry sys cuts memory u realname).2.1 = true := by
    unfold extracted at h
    unfold parExtractEntry
    dsimp only
    by_cases hdir : isDir u.par.thBuf = true
    · simp [hdir, parExtractDir, andThen, hhier, ho.mkdir]
    by_cases hlnk : isLnk u.par.thBuf = true
    · simp [hdir, hlnk, parExtractHardlink, andThen, succeeded, hhier, ho.link]
    by_cases hsym : isSym u.par.thBuf = true
    · simp [hdir, hlnk, hsym, parExtractSymlink, andThen, succeeded, hhier, ho.unlink, ho.symlink]
    rw [if_neg hdir, if_neg hlnk, if_neg hsym]
    rw [if_neg (by simp [hdir, hlnk, hsym])] at h
    split_ifs at h with hskip
    unfold parSkipRegfile at hskip
    unfold parExtractRegfile
    split_ifs at hskip ⊢ with hreg
    dsimp only
    rw [hhier, if_neg (by simp)]
    have hcreate := ho.create realname (mkdirhier sys (dirname realname) u.fs).2
    generalize sys.create realname (mkdirhier sys (dirname realname) u.fs).2 = r at hcreate ⊢
    obtain ⟨_ | fd, s⟩ := r
    · exact absurd hcreate (by simp)
    · dsimp only
      rw [ho.readContent_eq, hskip, ho.close]
      rfl
  rw [parExtractFile]
  dsimp only
  rw [hentry, ho.parSetFilePerms_fst]
  rfl

/-- Where no call fails and no directory has too long a name, a package that can be read through is
extracted. -/
theorem extractLoop_fst {n : ℕ} {u : Unpacking σ}
    (hnames : ∀ b ∈ headersRead sys cuts memory malloc dir n u,
      (dirname (extractName dir (thGetPathname memory b))).length ≤ hierLen)
    (h : walk malloc extracted n u.par = some 1) :
    (extractLoop sys cuts memory malloc dir n u).1 = true := by
  induction n generalizing u with
  | zero => exact absurd h (by simp [walk])
  | succ n ih =>
    rw [walk] at h
    rw [headersRead] at hnames
    rw [extractLoop]
    match thRead malloc false u.par, h, hnames with
    | some (i, none), h, _ => exact decide_eq_true (Option.some_inj.mp h)
    | some (i, some t), h, hnames =>
      dsimp only at hnames ⊢
      obtain ⟨v, hv, hwalk⟩ := Option.bind_eq_some_iff.mp h
      have hfile : (parExtractFile sys cuts memory { u with par := t }
          (extractName dir (thGetPathname memory t.thBuf))).1 = true :=
        ho.parExtractFile_fst (hnames _ (List.mem_cons_self ..)) hv
      have hpar := extracted_of_parExtractFile hfile
      rw [if_pos hfile]
      refine ih (fun b hb => hnames b (List.mem_cons_of_mem _ ?_)) ?_
      · rwa [if_pos hfile]
      · rw [← Option.some_inj.mp (hv.symm.trans hpar)]
        exact hwalk

end Obliging

/-- **What `package_extract` returns is whether it has read the package through**, where no call to
the target file system fails and no directory has too long a name. -/
theorem packageExtract_iff (ho : Obliging sys) {rootdir : Option Bytes} {p : Package} {s : σ}
    (hnames : ∀ b ∈ headersRead sys cuts memory malloc rootdir (p.blocks.length + 1)
      ⟨parOpen p.blocks, ChainedHash.empty, s⟩,
      (dirname (extractName rootdir (thGetPathname memory b))).length ≤ hierLen) :
    (packageExtract sys cuts memory malloc rootdir p s).1 = true ↔ ReadsThrough malloc p := by
  refine ⟨readsThrough_of_packageExtract, fun h => ?_⟩
  rw [packageExtract_fst h.1]
  exact ho.extractLoop_fst hnames h.2

end Extract

/-! ## The packages that are judged right -/

section Verify

variable (malloc : List ℕ → ℕ → Option ℕ)

/-- There is something that `package_verify` refuses: behind members that are complete, a pointer that
cannot be freed, or a regular file whose content is cut off. -/
def Refused (t : PAR) : Prop :=
  ∃ u, Members malloc verified t u ∧ (¬ Freeable u ∨
    ∃ i v, thRead malloc false u = some (i, some v) ∧ isReg v.thBuf = true ∧
      (parSkipRegfile v).1 = false)

/-- There are members that can be extracted, up to the end. -/
def Through (t : PAR) : Prop := ∃ u, Members malloc extracted t u ∧ Freeable u ∧ AtEnd 0 u.stream

/-- The rest of a package is judged right: `package_verify` accepts it only if the extraction reads it
through. -/
inductive Judged : PAR → Prop
  /-- It is the end. -/
  | ends {t : PAR} (hfree : Freeable t) (hend : AtEnd 0 t.stream) : Judged t
  /-- The call of `th_read` does not return. -/
  | wild {t : PAR} (hwild : ¬ Freeable t) : Judged t
  /-- The content of a regular file is cut off. -/
  | cut {t u : PAR} {i : ℤ} (hread : thRead malloc false t = some (i, some u))
      (hreg : isReg u.thBuf = true) (hcut : (parSkipRegfile u).1 = false) : Judged t
  /-- Both read a header, go on at the same place and judge the rest right. -/
  | step {t u v : PAR} {i : ℤ} (hread : thRead malloc false t = some (i, some u))
      (hverified : verified u = some v) (hextracted : extracted u = some v) (hrest : Judged v) : Judged t
  /-- Both read a header that is of no known kind, or whose content only one of them takes. -/
  | apart {t u v : PAR} {i : ℤ} (hread : thRead malloc false t = some (i, some u))
      (hverified : verified u = some v) (hextracted : extracted u ≠ some v)
      (hrest : Refused malloc v ∨ ∃ w, extracted u = some w ∧ Through malloc w) : Judged t

variable {malloc} {t u v : PAR} {i : ℤ} {n : ℕ}

theorem walk_extracted_iff (hn : t.stream.length < n) :
    walk malloc extracted n t = some 1 ↔ Through malloc t := by
  rw [walk_eq_some_iff (fun _ _ => length_extracted) hn]
  simp only [thRead_eq_end_iff, Through]

theorem verified_eq_none_iff :
    verified t = none ↔ isReg t.thBuf = true ∧ (parSkipRegfile t).1 = false := by
  rw [verified]
  split_ifs <;> simp_all

theorem walk_verified_eq_none_iff (hn : t.stream.length < n) :
    walk malloc verified n t = none ↔ Refused malloc t := by
  rw [walk_eq_none_iff (fun _ _ => length_verified) hn]
  simp only [thRead_eq_none_iff, verified_eq_none_iff, Refused]

theorem thRead_inj {u' : PAR} {j : ℤ} (h : thRead malloc false t = some (i, some u))
    (h' : thRead malloc false t = some (j, some u')) : u = u' :=
  Option.some.inj (Prod.ext_iff.mp (Option.some.inj (h.symm.trans h'))).2

/-- Behind a header that both have read. -/
theorem judged_iff_of_read (hread : thRead malloc false t = some (i, some u))
    (hverified : verified u = some v) :
    Judged malloc t ↔ (extracted u = some v ∧ Judged malloc v) ∨
      (extracted u ≠ some v ∧ (Refused malloc v ∨ ∃ w, extracted u = some w ∧ Through malloc w)) := by
  constructor
  · intro h
    cases h with
    | ends hfree hend =>
      rw [thRead_eq_end_iff.mpr ⟨hfree, hend⟩] at hread
      cases hread
    | wild hwild =>
      rw [thRead_eq_none_iff.mpr hwild] at hread
      cases hread
    | cut hread' hreg hcut =>
      obtain rfl := thRead_inj hread hread'
      rw [verified_eq_none_iff.mpr ⟨hreg, hcut⟩] at hverified
      cases hverified
    | step hread' hverified' hextracted hrest =>
      obtain rfl := thRead_inj hread hread'
      obtain rfl := Option.some.inj (hverified.symm.trans hverified')
      exact .inl ⟨hextracted, hrest⟩
    | apart hread' hverified' hextracted hrest =>
      obtain rfl := thRead_inj hread hread'
      obtain rfl := Option.some.inj (hverified.symm.trans hverified')
      exact .inr ⟨hextracted, hrest⟩
  · rintro (⟨hextracted, hrest⟩ | ⟨hextracted, hrest⟩)
    · exact .step hread hverified hextracted hrest
    · exact .apart hread hverified hextracted hrest

/-- The two walks, from the same place. -/
theorem judged_iff (hn : t.stream.length < n) :
    Judged malloc t ↔
      ((walk malloc verified n t).isSome = true → walk malloc extracted n t = some 1) := by
  induction n generalizing t with
  | zero => exact absurd hn (Nat.not_lt_zero _)
  | succ n ih =>
    rw [walk, walk]
    match hread : thRead malloc false t with
    | none =>
      exact iff_of_true (.wild (thRead_eq_none_iff.mp hread)) fun h => absurd h Bool.false_ne_true
    | some (i, none) =>
      constructor
      · intro h _
        cases h with
        | ends hfree hend =>
          rw [thRead_eq_end_iff.mpr ⟨hfree, hend⟩] at hread
          exact congrArg some (Prod.ext_iff.mp (Option.some.inj hread)).1.symm
        | wild hwild =>
          rw [thRead_eq_none_iff.mpr hwild] at hread
          cases hread
        | cut hread' | step hread' | apart hread' =>
          rw [hread'] at hread
          cases hread
      · intro h
        obtain rfl := Option.some.inj (h rfl)
        obtain ⟨hfree, hend⟩ := thRead_eq_end_iff.mp hread
        exact .ends hfree hend
    | some (i, some u) =>
      dsimp only
      cases hverified : verified u with
      | none =>
        obtain ⟨hreg, hcut⟩ := verified_eq_none_iff.mp hverified
        exact iff_of_true (.cut hread hreg hcut) fun h => absurd h Bool.false_ne_true
      | some v =>
        have hlt := length_thRead hread
        have hv : v.stream.length < n := by
          have hle := length_verified hverified
          omega
        rw [judged_iff_of_read hread hverified, Option.bind_some]
        by_cases hextracted : extracted u = some v
        -- Both are at the same place again.
        · rw [hextracted, Option.bind_some, ← ih hv]
          simp
        -- They are not, and each has a rest of its own.
        · have hthrough : (extracted u).bind (walk malloc extracted n) = some 1 ↔
              ∃ w, extracted u = some w ∧ Through malloc w := by
            rw [Option.bind_eq_some_iff]
            refine exists_congr fun w => and_congr_right fun hw => walk_extracted_iff ?_
            have hle := length_extracted hw
            omega
          have hrefused : walk malloc verified n v = none ↔ Refused malloc v :=
            walk_verified_eq_none_iff hv
          rw [hthrough, ← hrefused]
          simp only [hextracted, false_and, false_or, ne_eq, not_false_eq_true, true_and]
          rw [imp_iff_not_or, Option.not_isSome_iff_eq_none]

variable (malloc) (closed : Bool) (p : Package)

/-- **A package that `package_verify` accepts is read through by the extraction exactly if it is judged
right**, unless it is refused for its magic number or when it is closed. -/
theorem readsThrough_of_packageVerify_iff :
    (packageVerify malloc closed p = true → ReadsThrough malloc p) ↔
      p.magic ≠ packageMagic ∨ closed = false ∨ Judged malloc (parOpen p.blocks) := by
  rw [judged_iff (t := parOpen p.blocks) (Nat.lt_add_one p.blocks.length), ReadsThrough, packageVerify,
    ← verifyLoop_eq]
  by_cases hmagic : p.magic = packageMagic
  · rw [if_neg fun hne => hne hmagic, Bool.and_eq_true]
    cases closed <;> simp [hmagic]
  · simp [hmagic]

/-- A package with a block that is no header. -/
def garbled : Package := ⟨packageMagic, [List.replicate blockSize 1]⟩

theorem packageVerify_garbled :
    packageVerify (fun _ _ => none) true garbled = true ∧
      ¬ ReadsThrough (fun _ _ => none) garbled :=
  ⟨by decide +kernel, fun h => absurd h.2 (by decide +kernel)⟩

end Verify

end Mavicona.Packer
