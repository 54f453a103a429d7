import Mavicona.Par.Extract
import Mavicona.Par.Pointers
import Mavicona.Par.Writer

/-!
# Where a package is unpacked

Reference: `par/decode.c`, `par/wrapper.c`, `par/extract.c`.

`par_extract_all` puts the name of the target directory before the names of a package. What it makes
is below that directory if the names are safe, whatever the system answers to its calls. The
directories on the way to the target are made too, if they do not exist.
-/

namespace Mavicona.Par

open Bytes Path ChainedHash

/-! ## The rule for a name -/

/-- `ok` is a rule for the names that are made, and `P` is kept by every call that follows it. -/
structure Keeps {σ : Type} (sys : System σ) (ok : Bytes → Prop) (P : σ → Prop) : Prop where
  mkdir : ∀ name mode s, ok name → P s → P (sys.mkdir name mode s).2
  create : ∀ name s, ok name → P s → P (sys.create name s).2
  link : ∀ target name s, ok name → P s → P (sys.link target name s).2
  symlink : ∀ target name s, ok name → P s → P (sys.symlink target name s).2
  chown : ∀ name uid gid s, P s → P (sys.chown name uid gid s).2
  utime : ∀ name time s, P s → P (sys.utime name time s).2
  chmod : ∀ name mode s, P s → P (sys.chmod name mode s).2
  write : ∀ fd bytes s, P s → P (sys.write fd bytes s).2
  close : ∀ fd s, P s → P (sys.close fd s).2
  unlink : ∀ name s, P s → P (sys.unlink name s).2

/-- The names that `mkdirhier` makes, for the parts of a path. -/
def hierNames : List Bytes → Bytes → List Bytes
  | [], _ => []
  | dirp :: parts, dst =>
    if dirp = [] then hierNames parts dst
    else (if dst = [] then dirp else dst ++ 47 :: dirp) ::
      hierNames parts (if dst = [] then dirp else dst ++ 47 :: dirp)

/-- The rule for everything that is made for the name of an entry: the name, what `dirname`
leaves of it, and the directories before it. -/
structure Allowed (ok : Bytes → Prop) (name : Bytes) : Prop where
  whole : ok name
  dir : 47 ∈ trim name → ok (dirname name)
  hier : (dirname name).length ≤ hierLen →
    ∀ d ∈ hierNames (components ((dirname name).take (hierLen - 1)))
    (if (dirname name).head? = some 47 then [47] else []), ok d

section Keeps

variable {σ : Type} {sys : System σ} {ok : Bytes → Prop} {P : σ → Prop} {b name : Bytes} {s : σ}
  (cuts : Bool)

theorem andThen_keeps {r : Bool × σ} {f : σ → Bool × σ} (hr : P r.2) (hf : ∀ s, P s → P (f s).2) :
    P (andThen r f).2 := by
  rw [andThen]
  split_ifs
  · exact hf _ hr
  · exact hr

theorem mkdirParts_keeps (h : Keeps sys ok P) {parts : List Bytes} {dst : Bytes}
    (hok : ∀ d ∈ hierNames parts dst, ok d) (hs : P s) : P (mkdirParts sys parts dst s).2 := by
  induction parts generalizing dst s with
  | nil => exact hs
  | cons dirp parts ih =>
    rw [hierNames] at hok
    rw [mkdirParts]
    split_ifs at hok ⊢ with hdirp
    · exact ih hok hs
    all_goals
      rw [List.forall_mem_cons] at hok
      have hmade := h.mkdir _ 0o777 s hok.1 hs
      dsimp only
      split_ifs
      · exact ih hok.2 hmade
      · exact hmade

theorem mkdirhier_keeps (h : Keeps sys ok P) (hname : Allowed ok name) (hs : P s) :
    P (mkdirhier sys (dirname name) s).2 := by
  rw [mkdirhier]
  split_ifs with hlong habs
  · exact hs
  · refine mkdirParts_keeps h ?_ hs
    simpa only [if_pos habs] using hname.hier (not_lt.mp hlong)
  · refine mkdirParts_keeps h ?_ hs
    simpa only [if_neg habs] using hname.hier (not_lt.mp hlong)

theorem Allowed.afterDirname (hname : Allowed ok name) : ok (afterDirname cuts name) := by
  rw [Par.afterDirname]
  split_ifs with hcut
  · exact hname.dir hcut.2
  · exact hname.whole

theorem parSetFilePerms_keeps (h : Keeps sys ok P) (hs : P s) :
    P (parSetFilePerms sys b name s).2 := by
  rw [parSetFilePerms]
  split_ifs
  · exact hs
  · refine andThen_keeps (h.chown _ _ _ _ hs) fun s hs => andThen_keeps (h.utime _ _ _ hs)
      fun s hs => ?_
    exact h.chmod _ _ _ hs
  · refine andThen_keeps hs fun s hs => andThen_keeps (h.utime _ _ _ hs) fun s hs => ?_
    exact h.chmod _ _ _ hs

theorem parExtractDir_keeps (h : Keeps sys ok P) (hname : Allowed ok name) (hs : P s) :
    P (parExtractDir sys cuts b name s).2 := by
  rw [parExtractDir]
  split_ifs
  · exact hs
  · refine andThen_keeps (mkdirhier_keeps h hname hs) fun s hs => ?_
    have hmade := h.mkdir _ (thGetMode b) s (hname.afterDirname cuts) hs
    dsimp only
    split_ifs
    · exact h.chmod _ _ _ hmade
    · exact hmade

variable (memory : ℕ → Bytes) {names : Table (Bytes × Bytes)}

theorem parExtractHardlink_keeps (h : Keeps sys ok P) (hname : Allowed ok name) (hs : P s) :
    P (parExtractHardlink sys cuts memory b name names s).2 := by
  rw [parExtractHardlink]
  split_ifs
  · exact hs
  · refine andThen_keeps (mkdirhier_keeps h hname hs) fun s hs => ?_
    exact h.link _ _ _ (hname.afterDirname cuts) hs

theorem parExtractSymlink_keeps (h : Keeps sys ok P) (hname : Allowed ok name) (hs : P s) :
    P (parExtractSymlink sys cuts memory b name s).2 := by
  rw [parExtractSymlink]
  split_ifs
  · exact hs
  · refine andThen_keeps (mkdirhier_keeps h hname hs) fun s hs => ?_
    have hgone := h.unlink (Par.afterDirname cuts name) s hs
    dsimp only
    split_ifs
    · exact h.symlink _ _ _ (hname.afterDirname cuts) hgone
    · exact hgone

theorem readContent_keeps {write : Bytes → σ → Bool × σ} (hwrite : ∀ buf s, P s → P (write buf s).2)
    (stream : Stream) (i : ℤ) (hs : P s) : P (readContent write stream i s).2.2 := by
  induction stream generalizing i s with
  | nil => exact hs
  | cons block stream ih =>
    rw [readContent]
    by_cases hi : i ≤ 0
    · rw [if_pos hi]
      exact hs
    · rw [if_neg hi]
      by_cases hlen : block.length = blockSize
      · rw [if_neg fun hne => hne hlen]
        have hwrote := hwrite (block.take (if i > blockSize then blockSize else i.toNat)) s hs
        generalize write (block.take (if i > blockSize then blockSize else i.toNat)) s = r at hwrote ⊢
        obtain ⟨_ | _, s'⟩ := r
        · exact hwrote
        · exact ih _ hwrote
      · rw [if_pos hlen]
        exact hs

theorem parExtractRegfile_keeps (h : Keeps sys ok P) (hname : Allowed ok name) (t : PAR) (hs : P s) :
    P (parExtractRegfile sys t name s).2.2 := by
  have hhier := mkdirhier_keeps h hname hs
  rw [parExtractRegfile]
  split_ifs
  · exact hs
  · dsimp only
    split_ifs
    · exact hhier
    · have hmade := h.create name _ hname.whole hhier
      generalize sys.create name (mkdirhier sys (dirname name) s).2 = r at hmade ⊢
      obtain ⟨_ | fd, s'⟩ := r
      · exact hmade
      · exact h.close _ _ (readContent_keeps (fun buf s hs => h.write fd buf s hs) _ _ hmade)

theorem parExtractEntry_keeps (h : Keeps sys ok P) (hname : Allowed ok name) {u : Unpacking σ}
    (hu : P u.fs) :
    P (parExtractEntry sys cuts memory u name).2.2.fs := by
  rw [parExtractEntry]
  dsimp only
  split_ifs
  · exact parExtractDir_keeps cuts h hname hu
  · exact parExtractHardlink_keeps cuts memory h hname hu
  · exact parExtractSymlink_keeps cuts memory h hname hu
  · exact parExtractRegfile_keeps h hname _ hu

theorem parExtractFile_keeps (h : Keeps sys ok P) (hname : Allowed ok name) {u : Unpacking σ}
    (hu : P u.fs) :
    P (parExtractFile sys cuts memory u name).2.fs := by
  have hentry := parExtractEntry_keeps cuts memory h hname hu
  rw [parExtractFile]
  dsimp only
  split_ifs
  · exact hentry
  · exact parSetFilePerms_keeps h hentry
  · exact parSetFilePerms_keeps h hentry

/-- **A rule that every name follows is kept by the whole unpacking.** -/
theorem extractLoop_keeps (h : Keeps sys ok P) (malloc : List ℕ → ℕ → Option ℕ) (dir : Option Bytes)
    (n : ℕ)
    {u : Unpacking σ} (hu : P u.fs)
    (hread : ∀ b ∈ headersRead sys cuts memory malloc dir n u,
      Allowed ok (extractName dir (thGetPathname memory b))) :
    P (extractLoop sys cuts memory malloc dir n u).2.fs := by
  induction n generalizing u with
  | zero => exact hu
  | succ n ih =>
    rw [headersRead] at hread
    rw [extractLoop]
    generalize thRead malloc false u.par = r at hread ⊢
    match r with
    | none => exact hu
    | some (_, none) => exact hu
    | some (_, some t) =>
      dsimp only at hread ⊢
      rw [List.forall_mem_cons] at hread
      have hfile := parExtractFile_keeps cuts memory h hread.1 (u := { u with par := t }) hu
      generalize parExtractFile sys cuts memory { u with par := t }
        (extractName dir (thGetPathname memory t.thBuf)) = v at hread hfile ⊢
      obtain ⟨_ | _, v⟩ := v
      · exact hfile
      · exact ih hfile hread.2

end Keeps

/-! ## Below the target -/

/-- Whether the names of an unpacking are absolute. -/
def Rooted (dir : Option Bytes) : Prop :=
  match dir with
  | some dir => (dir ++ [(47 : UInt8)]).head? = some 47
  | none => False

/-- The steps of a name on the way to the target, or of one that goes on from there and not back. -/
def Inside (dir : Option Bytes) (path : List Bytes) : Prop :=
  match dir with
  | some dir => path <+: steps dir ∨ ∃ rel, path = steps dir ++ rel ∧ dotDot ∉ rel
  | none => dotDot ∉ path

/-- A name that stays below the target. -/
def Below (dir : Option Bytes) (name : Bytes) : Prop :=
  (name.head? = some 47 ↔ Rooted dir) ∧ Inside dir (steps name)

/-- The text that `th_get_pathname` makes a name of. -/
def pathText (memory : ℕ → Bytes) (b : Bytes) : Bytes :=
  if gnuLongname b ≠ 0 then memory (gnuLongname b)
  else if (magic b).take 5 ≠ tmagic.take 5 ∨ (namePrefix b).head? = some 0 then cstr (name b)
  else cstr (namePrefix b) ++ 47 :: cstr (name b)

/-- No buffer cuts a name: the name fits the one of `par_extract_all`, and the directory it
stands in does not just fill the one of `mkdirhier`. -/
def FitsBuffers (name : Bytes) : Prop := name.length < maxpathlen ∧ (dirname name).length ≠ hierLen

section Below

variable {dir : Option Bytes} {rel : Bytes}

theorem thGetPathname_eq (memory : ℕ → Bytes) (b : Bytes) :
    thGetPathname memory b = saferNameSuffix (pathText memory b) := by
  rw [thGetPathname, pathText]
  split_ifs <;> rfl

theorem Inside.of_isPrefix {st path : List Bytes} (h : Inside dir path) (hst : st <+: path) :
    Inside dir st := by
  match dir with
  | none =>
    intro hmem
    exact h (hst.subset hmem)
  | some dir =>
    rcases h with h | ⟨rel, rfl, hrel⟩
    · exact .inl (hst.trans h)
    · rcases List.prefix_or_prefix_of_prefix hst (List.prefix_append (steps dir) rel) with hst' |
        ⟨rel', rfl⟩
      · exact .inl hst'
      · refine .inr ⟨rel', rfl, fun hmem => hrel ?_⟩
        exact ((List.prefix_append_right_inj (steps dir)).mp hst).subset hmem

/-- The names that `mkdirhier` makes go on from where it starts, as far as the path goes. -/
theorem hierNames_spec {parts : List Bytes} (hparts : ∀ p ∈ parts, 47 ∉ p) {dst d : Bytes}
    (hd : d ∈ hierNames parts dst) :
    (∃ k, steps d = (steps dst ++ parts.filter (· ≠ [])).take k) ∧
      (d.head? = some 47 ↔ dst.head? = some 47) := by
  induction parts generalizing dst with
  | nil => exact absurd hd List.not_mem_nil
  | cons p parts ih =>
    rw [List.forall_mem_cons] at hparts
    rw [hierNames] at hd
    by_cases hp : p = []
    · rw [if_pos hp] at hd
      rw [List.filter_cons_of_neg (by simpa using hp)]
      exact ih hparts.2 hd
    · rw [if_neg hp] at hd
      rw [List.filter_cons_of_pos (by simpa using hp)]
      -- The name of this part.
      have hsteps : steps (if dst = [] then p else dst ++ 47 :: p) = steps dst ++ [p] := by
        split_ifs with hdst
        · rw [hdst, steps_component hp hparts.1]
          rfl
        · rw [steps_append, steps_component hp hparts.1]
      have hhead : (if dst = [] then p else dst ++ 47 :: p).head? = some 47 ↔
        dst.head? = some 47 := by
        split_ifs with hdst
        · obtain ⟨b, p, rfl⟩ := List.exists_cons_of_ne_nil hp
          have hb : b ≠ 47 := fun hb => hparts.1 (hb ▸ List.mem_cons_self)
          simp [hdst, hb]
        · rw [List.head?_append_of_ne_nil _ hdst]
      rcases List.mem_cons.mp hd with rfl | hd
      · refine ⟨⟨(steps dst).length + 1, ?_⟩, hhead⟩
        rw [hsteps, List.take_append, List.take_of_length_le (Nat.le_succ _), Nat.add_sub_cancel_left]
        rfl
      · obtain ⟨⟨k, hk⟩, habs⟩ := ih hparts.2 hd
        refine ⟨⟨k, ?_⟩, habs.trans hhead⟩
        rw [hk, hsteps, List.append_assoc]
        rfl

theorem below_wholeName (h : Safe rel) : Below dir (wholeName dir rel) := by
  have hsteps : dotDot ∉ steps rel := fun hmem => h.2 (mem_steps hmem)
  match dir with
  | none => exact ⟨iff_of_false h.1 id, hsteps⟩
  | some dir =>
    refine ⟨?_, .inr ⟨steps rel, steps_append dir rel, hsteps⟩⟩
    rw [wholeName, Rooted]
    cases dir <;> exact Iff.rfl

theorem trim_ne_nil (h : Safe rel) (hne : rel ≠ []) : trim rel ≠ [] := by
  obtain ⟨b, rel, rfl⟩ := List.exists_cons_of_ne_nil hne
  intro hnil
  have hb := List.rdropWhile_eq_nil_iff.mp hnil b List.mem_cons_self
  exact h.1 (congrArg some (of_decide_eq_true hb))

theorem slash_mem_trim (h : Safe rel) (hne : rel ≠ []) (dir : Bytes) :
    47 ∈ trim (dir ++ 47 :: rel) := by
  rw [← List.singleton_append, ← List.append_assoc, trim_append _ (trim_ne_nil h hne)]
  simp

/-- **Everything that is made for a safe name is below the target.** -/
theorem allowed_wholeName (h : Safe rel) (hne : rel ≠ []) (hfits : FitsBuffers (wholeName dir rel)) :
    Allowed (Below dir) (wholeName dir rel) := by
  have hbelow : Below dir (wholeName dir rel) := below_wholeName h
  have hdir : Below dir (dirname (wholeName dir rel)) := by
    by_cases hslash : 47 ∈ trim (wholeName dir rel)
    · refine ⟨(head?_dirname hslash).trans hbelow.1, hbelow.2.of_isPrefix ?_⟩
      rw [steps_dirname hslash]
      exact List.dropLast_prefix _
    · match dir with
      | some dir => exact absurd (slash_mem_trim h hne dir) hslash
      | none =>
        rw [wholeName] at hslash ⊢
        rw [dirname_of_notMem (trim_ne_nil h hne) hslash]
        exact ⟨iff_of_false (by decide) id, show dotDot ∉ steps [46] by decide⟩
  refine ⟨hbelow, fun _ => hdir, fun hlen d hd => ?_⟩
  rw [List.take_of_length_le (by have := hfits.2; omega)] at hd
  obtain ⟨⟨k, hk⟩, hhead⟩ := hierNames_spec (fun p hp => slash_notMem hp) hd
  have hstart : steps (if (dirname (wholeName dir rel)).head? = some 47 then [47] else []) = [] := by
    split_ifs <;> rfl
  refine ⟨hhead.trans (Iff.trans ?_ hdir.1), hdir.2.of_isPrefix ?_⟩
  · split_ifs with habs <;> simp [habs]
  · rw [hk, hstart, List.nil_append]
    exact List.take_prefix _ _

end Below

/-! ## The names that are made -/

/-- The system, with a list of the names it was asked to make. -/
def logged {σ : Type} (sys : System σ) : System (σ × List Bytes) where
  superuser := sys.superuser
  getpwnam := sys.getpwnam
  getgrnam := sys.getgrnam
  mkdir name mode s := ((sys.mkdir name mode s.1).1, (sys.mkdir name mode s.1).2, name :: s.2)
  chown name uid gid s := ((sys.chown name uid gid s.1).1, (sys.chown name uid gid s.1).2, s.2)
  utime name time s := ((sys.utime name time s.1).1, (sys.utime name time s.1).2, s.2)
  chmod name mode s := ((sys.chmod name mode s.1).1, (sys.chmod name mode s.1).2, s.2)
  create name s := ((sys.create name s.1).1, (sys.create name s.1).2, name :: s.2)
  write fd bytes s := ((sys.write fd bytes s.1).1, (sys.write fd bytes s.1).2, s.2)
  close fd s := ((sys.close fd s.1).1, (sys.close fd s.1).2, s.2)
  link target name s := ((sys.link target name s.1).1, (sys.link target name s.1).2, name :: s.2)
  symlink target name s := ((sys.symlink target name s.1).1, (sys.symlink target name s.1).2,
    name :: s.2)
  unlink name s := ((sys.unlink name s.1).1, (sys.unlink name s.1).2, s.2)

/-- An unpacking before its first call, with no name in the list. -/
def parStart {σ : Type} (stream : Stream) (s : σ) : Unpacking (σ × List Bytes) :=
  ⟨parOpen stream, ChainedHash.empty, s, []⟩

theorem keeps_logged {σ : Type} (sys : System σ) (ok : Bytes → Prop) :
    Keeps (logged sys) ok fun s => ∀ name ∈ s.2, ok name where
  mkdir _ _ _ hname hs := List.forall_mem_cons.mpr ⟨hname, hs⟩
  create _ _ hname hs := List.forall_mem_cons.mpr ⟨hname, hs⟩
  link _ _ _ hname hs := List.forall_mem_cons.mpr ⟨hname, hs⟩
  symlink _ _ _ hname hs := List.forall_mem_cons.mpr ⟨hname, hs⟩
  chown _ _ _ _ hs := hs
  utime _ _ _ hs := hs
  chmod _ _ _ hs := hs
  write _ _ _ hs := hs
  close _ _ hs := hs
  unlink _ _ hs := hs

theorem saferNameSuffix_ne_nil (s : Bytes) : saferNameSuffix s ≠ [] := by
  rw [saferNameSuffix_eq]
  split_ifs with h
  · exact List.cons_ne_nil _ _
  · exact h

/-- **A name is made safe if and only if it does not end with `..` and its last `..` is not
followed by two slashes and more; and a package whose names are all of this kind is unpacked
below the target directory**, however far the loop of `par_extract_all` gets and whatever the
system answers. -/
theorem names_stay_below {σ : Type} (sys : System σ) (cuts : Bool) (memory : ℕ → Bytes)
    (malloc : List ℕ → ℕ → Option ℕ) (dir : Option Bytes) (stream : Stream) (s : σ) (n : ℕ) :
    (∀ name, Safe (saferNameSuffix name) ↔ Cleanable (components name)) ∧
    ((∀ b ∈ headersRead (logged sys) cuts memory malloc dir n (parStart stream s),
        Cleanable (components (pathText memory b)) ∧
        FitsBuffers (wholeName dir (thGetPathname memory b))) →
      ∀ name ∈ (extractLoop (logged sys) cuts memory malloc dir n (parStart stream s)).2.fs.2,
      Below dir name) := by
  refine ⟨safe_saferNameSuffix, fun hread => ?_⟩
  have hstart : ∀ name ∈ (parStart stream s).fs.2, Below dir name :=
    fun _ hname => absurd hname List.not_mem_nil
  refine extractLoop_keeps cuts memory (keeps_logged sys (Below dir))
    malloc dir n hstart fun b hb => ?_
  obtain ⟨hclean, hfits⟩ := hread b hb
  have hsafe : Safe (thGetPathname memory b) := by
    rw [thGetPathname_eq]
    exact (safe_saferNameSuffix _).mpr hclean
  have hne : thGetPathname memory b ≠ [] := by
    rw [thGetPathname_eq]
    exact saferNameSuffix_ne_nil _
  rw [extractName, List.take_of_length_le (Nat.le_sub_one_of_lt hfits.1)]
  exact allowed_wholeName hsafe hne hfits

/-- A system on which every call succeeds. -/
def obliging : System Unit where
  superuser := false
  getpwnam _ := none
  getgrnam _ := none
  mkdir _ _ s := (none, s)
  chown _ _ _ s := (none, s)
  utime _ _ s := (none, s)
  chmod _ _ s := (none, s)
  create _ s := (some 0, s)
  write _ _ s := (none, s)
  close _ s := (none, s)
  link _ _ s := (none, s)
  symlink _ _ s := (none, s)
  unlink _ s := (none, s)

/-- The header of a file that is called `path`, with a link to `target`. -/
def namedHeader (type : FileType) (path target : Bytes) : Bytes :=
  (thFinish (thSetLink target
    (thSetPath path (thSetMode (type.bits + 0o644) (thSetType type .zero))))).image

/-- A file `/x/../d/a` and a link `../l` that leads out of the target. -/
def wayward : Stream :=
  [namedHeader .reg (ascii "/x/../d/a") [], namedHeader .lnk (ascii "../l") (ascii "../../etc")]

/-- Both names are made safe, so the file and the link are made below `out`. -/
theorem names_stay_below_wayward :
    (extractLoop (logged obliging) false (fun _ => []) (fun _ _ => none) (some (ascii "out")) 3
      (parStart wayward ())).2.fs.2
      = [ascii "out/l", ascii "out", ascii "out/d/a", ascii "out/d", ascii "out"] ∧
    Below (some (ascii "out")) (ascii "out/d/a") ∧ Below (some (ascii "out")) (ascii "out/l") := by
  have hread : headersRead (logged obliging) false (fun _ => []) (fun _ _ => none)
      (some (ascii "out")) 3 (parStart wayward ()) = wayward := by
    decide +kernel
  have hnames : (extractLoop (logged obliging) false (fun _ => []) (fun _ _ => none)
      (some (ascii "out")) 3 (parStart wayward ())).2.fs.2
        = [ascii "out/l", ascii "out", ascii "out/d/a", ascii "out/d", ascii "out"] := by
    decide +kernel
  obtain ⟨hsafe, hbelow⟩ := names_stay_below obliging false (fun _ => []) (fun _ _ => none)
    (some (ascii "out")) wayward () 3
  have hfile : pathText (fun _ => []) (namedHeader .reg (ascii "/x/../d/a") [])
      = ascii "/x/../d/a" := by decide +kernel
  have hlink : pathText (fun _ => []) (namedHeader .lnk (ascii "../l") (ascii "../../etc"))
      = ascii "../l" := by decide +kernel
  have hall := hbelow fun b hb => by
    rw [hread, wayward, List.mem_cons, List.mem_singleton] at hb
    rcases hb with rfl | rfl
    · rw [thGetPathname_eq, hfile, ← hsafe]
      exact ⟨by decide, by decide, by decide⟩
    · rw [thGetPathname_eq, hlink, ← hsafe]
      exact ⟨by decide, by decide, by decide⟩
  rw [hnames] at hall
  exact ⟨hnames, hall _ (by decide), hall _ (by decide)⟩

/-- The name `a/..` is left as it is. -/
theorem not_safe_dotDot : ¬ ∀ s, Safe (saferNameSuffix s) := by
  intro h
  have : ¬ Safe (saferNameSuffix (ascii "a/..")) := by decide
  exact this (h _)

end Mavicona.Par
