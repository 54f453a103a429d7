import Mavicona.Packer.Entries

/-!
# Packages that can be unpacked

Reference: `packer/package.c`, `par/extract.c`, `par/wrapper.c`.

Unpacking replays the list. A file with content is made in its place. For a link
`par_extract_hardlink` calls `dirname` on the name of the new file, and a `dirname` that cuts this
name leaves the name of its directory, where a link can never be made. So there can be one name for
every inode, or one for every place if `dirname` leaves its argument alone.
-/

namespace Mavicona.Packer

open Bytes Path Par Disk ChainedHash

variable {T : Tree}

/-! ## Places -/

section Places

variable (dir : Bytes) (f g : Listed T)

/-- The name a file is extracted to. -/
def fullName : Bytes := dir ++ 47 :: f.name

/-- The place of the file. -/
def spot : List Bytes := place dir ++ walk f.name

theorem place_fullName (hdir : dir ≠ []) : place (fullName dir f) = spot dir f := place_append hdir _

theorem isLeaf_fullName : IsLeaf (fullName dir f) := by
  rw [IsLeaf, fullName, leaf_append]
  exact f.isLeaf

theorem walk_ne_nil : walk f.name ≠ [] := by
  rw [walk_eq_of_isLeaf f.isLeaf]
  exact List.concat_ne_nil _ _

theorem spot_ne_nil : spot dir f ≠ [] := List.append_ne_nil_of_right_ne_nil _ (walk_ne_nil f)

theorem slash_mem_trim : 47 ∈ trim (fullName dir f) := by
  have hname : trim f.name ≠ [] := by
    intro hnil
    obtain ⟨front, hsteps⟩ := steps_eq_of_leaf f.isLeaf.1
    rw [← steps_trim, hnil, steps_nil] at hsteps
    exact List.concat_ne_nil _ _ hsteps.symm
  rw [fullName, ← List.singleton_append, ← List.append_assoc, trim_append _ hname]
  simp

theorem place_dirname_fullName (hdir : dir ≠ []) :
    place (dirname (fullName dir f)) = (spot dir f).dropLast := by
  rw [place_dirname (slash_mem_trim dir f) (isLeaf_fullName dir f), place_fullName dir f hdir]

theorem afterDirname_fullName (cuts : Bool) : afterDirname cuts (fullName dir f) =
    if cuts then dirname (fullName dir f) else fullName dir f := by
  rw [afterDirname]
  simp [slash_mem_trim dir f]

variable {dir f g}

theorem spot_isPrefix : spot dir f <+: spot dir g ↔ walk f.name <+: walk g.name :=
  List.prefix_append_right_inj _

theorem spot_inj : spot dir f = spot dir g ↔ walk f.name = walk g.name := List.append_right_inj _

theorem not_prefix_dropLast : ¬ spot dir f <+: (spot dir f).dropLast := by
  intro h
  have hlen := h.length_le
  have hpos := List.length_pos_iff.mpr (spot_ne_nil dir f)
  rw [List.length_dropLast] at hlen
  omega

/-- A place is neither the start of the relative names nor that of the absolute ones. -/
theorem present_spot {d : Disk} : d.Present (spot dir f) ↔ d.node (spot dir f) ≠ none := by
  refine ⟨?_, .inr⟩
  rintro ((hnil | hroot | hdir) | hnode)
  · exact absurd hnil (spot_ne_nil dir f)
  · exfalso
    have hmem : leaf f.name ∈ spot dir f := by
      rw [spot, walk_eq_of_isLeaf f.isLeaf]
      simp
    rw [hroot, List.mem_singleton] at hmem
    have hslash : 47 ∉ leaf f.name := by
      obtain ⟨front, last, hsplit⟩ := components_eq_concat f.name
      refine slash_notMem (s := f.name) ?_
      rw [leaf, hsplit, List.getLastD_concat]
      simp
    exact hslash (hmem ▸ List.mem_singleton_self 47)
  · rw [hdir]
    exact Option.some_ne_none _
  · exact hnode

end Places

/-! ## What was unpacked -/

/-- Two files that cannot both be unpacked: names of one inode, or of one place. -/
def Clash (cuts : Bool) (g f : Listed T) : Prop :=
  if cuts then g.ino = f.ino else walk g.name = walk f.name

instance (cuts : Bool) (g f : Listed T) : Decidable (Clash cuts g f) :=
  inferInstanceAs (Decidable (if cuts then _ else _))

theorem walk_ne_of_not_clash {cuts : Bool} {g f : Listed T} (h : ¬ Clash cuts g f) :
    walk g.name ≠ walk f.name := by
  intro hwalk
  apply h
  rw [Clash]
  split_ifs
  · exact Listed.ino_eq_of_walk_eq hwalk
  · exact hwalk

/-- The files that were unpacked: the table has their names, they have their content, and there
are no other files in the places of files. -/
structure Unpacked (dir : Bytes) (done : List (Listed T)) (names : Table (Bytes × Bytes))
    (d : Disk) : Prop where
  names : ∀ key, (getkey pathHashfunc Prod.fst key names).map Prod.snd =
    if key ∈ done.map Listed.name then some (dir ++ 47 :: key) else none
  files : ∀ g ∈ done, ∃ j, d.node (spot dir g) = some (.file j) ∧ j < d.next ∧ d.data j = g.packed
  only : ∀ (f : Listed T) (j : ℕ), d.node (spot dir f) = some (.file j) →
    ∃ g ∈ done, walk g.name = walk f.name

section Unpacked

variable {dir : Bytes} {done : List (Listed T)} {names : Table (Bytes × Bytes)} {d e e' : Disk}
  {f : Listed T}
  {P : List Bytes → Prop} {j : ℕ}

/-- A name is added to the table. -/
theorem names_add (hw : Unpacked dir done names d) (f : Listed T) (key : Bytes) :
    (getkey pathHashfunc Prod.fst key
      (add pathHashfunc Prod.fst (f.name, fullName dir f) names)).map Prod.snd =
      if key ∈ (done ++ [f]).map Listed.name then some (dir ++ 47 :: key) else none := by
  have hnames := hw.names key
  rw [getkey_add, Option.map_or, hnames, List.map_append]
  by_cases hmem : key ∈ done.map Listed.name
  · rw [if_pos hmem, if_pos (List.mem_append_left _ hmem)]
    rfl
  · rw [if_neg hmem, Option.none_or]
    by_cases hkey : key = f.name
    · rw [if_pos hkey, if_pos (List.mem_append_right _ (by simpa using hkey)), hkey]
      rfl
    · have hnot : key ∉ done.map Listed.name ++ [f].map Listed.name := by
        simpa [hkey] using hmem
      rw [if_neg hkey, if_neg hnot, Option.map_none]

/-- One file more, in a place that no file has. -/
theorem Unpacked.extend (hw : Unpacked dir done names d) (hgrows : Grows P d e)
    (hnew : ∀ g ∈ done, walk g.name ≠ walk f.name)
    (hnode : e'.node = Function.update e.node (spot dir f) (some (.file j))) (hj : j < e'.next)
    (hdata : e'.data j = f.packed) (hnext : e.next ≤ e'.next)
    (hold : ∀ i < e.next, e'.data i = e.data i) :
    Unpacked dir (done ++ [f]) (add pathHashfunc Prod.fst (f.name, fullName dir f) names) e' := by
  refine ⟨names_add hw f, fun g hg => ?_, fun g i hfile => ?_⟩
  · rw [List.mem_append, List.mem_singleton] at hg
    rcases hg with hg | rfl
    · obtain ⟨i, hi, hlt, hcontent⟩ := hw.files g hg
      have hspot : spot dir g ≠ spot dir f := mt spot_inj.mp (hnew g hg)
      have hlt' : i < e.next := hgrows.next ▸ hlt
      refine ⟨i, ?_, hlt'.trans_le hnext, ?_⟩
      · rw [hnode, Function.update_of_ne hspot, hgrows.keeps hi]
      · rw [hold i hlt', hgrows.data, hcontent]
    · exact ⟨j, by rw [hnode, Function.update_self], hj, hdata⟩
  · by_cases hspot : spot dir g = spot dir f
    · exact ⟨f, List.mem_append_right _ (List.mem_singleton_self f), (spot_inj.mp hspot).symm⟩
    · rw [hnode, Function.update_of_ne hspot] at hfile
      obtain ⟨k, hk, hwalk⟩ := hw.only g i (hgrows.file hfile)
      exact ⟨k, List.mem_append_left _ hk, hwalk⟩

/-- What a new file is. -/
theorem Unpacked.extend_file (hw : Unpacked dir done names d) (hgrows : Grows P d e)
    (hnew : ∀ g ∈ done, walk g.name ≠ walk f.name) :
    Unpacked dir (done ++ [f]) (add pathHashfunc Prod.fst (f.name, fullName dir f) names)
      ((e.newFile (spot dir f)).append e.next f.packed) := by
  refine hw.extend hgrows hnew (j := e.next) rfl (Nat.lt_succ_self _) ?_ (Nat.le_succ _)
    fun i hi => ?_
  · simp [append, newFile]
  · simp [append, newFile, hi.ne]

/-- What another name of a file is. -/
theorem Unpacked.extend_link {g : Listed T} (hw : Unpacked dir done names d) (hgrows : Grows P d e)
    (hnew : ∀ g ∈ done, walk g.name ≠ walk f.name) (hg : g ∈ done) (hino : g.ino = f.ino)
    (hnode : e.node (spot dir g) = some (.file j)) :
    Unpacked dir (done ++ [f]) (add pathHashfunc Prod.fst (f.name, fullName dir f) names)
      (e.newName (spot dir f) j) := by
  obtain ⟨i, hi, hlt, hcontent⟩ := hw.files g hg
  obtain rfl : i = j := by
    rw [hgrows.keeps hi] at hnode
    exact Node.file.inj (Option.some.inj hnode)
  refine hw.extend hgrows hnew rfl (hgrows.next ▸ hlt) ?_ le_rfl fun _ _ => rfl
  change e.data i = f.packed
  rw [hgrows.data, hcontent, Listed.packed, Listed.packed, hino]

end Unpacked

/-! ## One step -/

section Step

variable {host : Host} {dir : Bytes} {done fs : List (Listed T)} {f : Listed T} {rest : Stream}
  {heap : List ℕ}
  {names : Table (Bytes × Bytes)} {d e e' : Disk} {u : Unpacking Disk} {j : ℕ}

theorem length_le_of_mkdirhier {path : Bytes} (h : mkdirhier host.system path d = (true, e)) :
    path.length ≤ hierLen := by
  by_contra hlen
  rw [mkdirhier, if_pos (not_le.mp hlen)] at h
  exact Bool.false_ne_true (congrArg Prod.fst h)

theorem grows_of_mkdirhier {path : Bytes} (h : mkdirhier host.system path d = (true, e)) :
    Grows (fun _ => True) d e := by
  have hgrows := mkdirhier_grows host path d
  rwa [h] at hgrows

/-- The target of a link, as the table has it. -/
theorem Unpacked.target (hw : Unpacked dir done names d) {target : Bytes}
    (h : firstListed done f = some target) :
    ∃ g ∈ done, g.ino = f.ino ∧
      ((getkey pathHashfunc Prod.fst target names).map Prod.snd).getD target = fullName dir g := by
  obtain ⟨g, hg, rfl, hino⟩ := exists_of_firstListed h
  refine ⟨g, hg, hino, ?_⟩
  rw [hw.names, if_pos (List.mem_map_of_mem hg)]
  rfl

/-- **A step that succeeds unpacks the file**, and then its directory is short enough and it
clashes with none of the files before. -/
theorem Unpacked.step (hdir : dir ≠ []) (hw : Unpacked dir done names d)
    (hfill : (dirname (fullName dir f)).length ≠ hierLen)
    (h : parExtractFile host.system host.cuts host.memory
      ⟨⟨entryData host done f ++ rest, entryImage host done f, heap⟩, names, d⟩ (fullName dir f) =
        (true, u)) :
    u.par = ⟨rest, entryImage host done f, heap⟩ ∧ Unpacked dir (done ++ [f]) u.names u.fs ∧
      (dirname (fullName dir f)).length ≤ hierLen ∧ ∀ g ∈ done, ¬ Clash host.cuts g f := by
  cases hfirst : firstListed done f with
  | none =>
    obtain ⟨e, j, e', hhier, hcreate, -, rfl⟩ := (parExtractFile_reg host hfirst).mp h
    have hgrows := grows_of_mkdirhier hhier
    have hino := firstListed_eq_none.mp hfirst
    have hwalk : ∀ g ∈ done, walk g.name ≠ walk f.name := fun g hg hsame =>
      hino g hg (Listed.ino_eq_of_walk_eq hsame)
    have hclash : ∀ g ∈ done, ¬ Clash host.cuts g f := by
      intro g hg
      rw [Clash]
      split_ifs
      · exact hino g hg
      · exact hwalk g hg
    rw [create_eq_some, place_fullName dir f hdir] at hcreate
    obtain ⟨-, ⟨-, rfl, rfl⟩ | ⟨hfile, -⟩⟩ := hcreate
    · exact ⟨rfl, hw.extend_file hgrows hwalk, length_le_of_mkdirhier hhier, hclash⟩
    · -- A file in this place would have the same inode.
      obtain ⟨g, hg, hsame⟩ := hw.only f j (hgrows.file hfile)
      exact absurd hsame (hwalk g hg)
  | some target =>
    obtain ⟨e, e', hhier, hlink, -, rfl⟩ := (parExtractFile_link host hfirst).mp h
    have hgrows := grows_of_mkdirhier hhier
    have hlen := length_le_of_mkdirhier hhier
    obtain ⟨g, hg, hino, htarget⟩ := hw.target hfirst
    rw [afterDirname_fullName] at hlink ⊢
    rw [htarget, link_eq_none, place_fullName dir g hdir] at hlink
    obtain ⟨j, hnode, habsent, -, -, rfl⟩ := hlink
    by_cases hcuts : host.cuts = true
    · -- The name was cut, and its directory is there.
      rw [if_pos hcuts] at habsent
      exact absurd (mkdirhier_present host (lt_of_le_of_ne hlen hfill) hhier) habsent
    · rw [if_neg hcuts, place_fullName dir f hdir] at habsent ⊢
      have hwalk : ∀ k ∈ done, walk k.name ≠ walk f.name := by
        intro k hk hsame
        obtain ⟨i, hi, -, -⟩ := hw.files k hk
        rw [spot_inj.mpr hsame] at hi
        apply habsent
        rw [present_spot, hgrows.keeps hi]
        exact Option.some_ne_none _
      refine ⟨rfl, hw.extend_link hgrows hwalk hg hino hnode, hlen, fun k hk => ?_⟩
      rw [Clash, if_neg hcuts]
      exact hwalk k hk

/-- There are no files on the way to the files of a list, and nothing in their places but the
files themselves. -/
structure Clear (dir : Bytes) (fs done : List (Listed T)) (d : Disk) : Prop where
  way : ∀ f ∈ fs, ∀ p, p <+: (spot dir f).dropLast → d.IsDir p ∨ d.node p = none
  free : ∀ f ∈ fs, (∀ g ∈ done, walk g.name ≠ walk f.name) → d.node (spot dir f) = none

/-- No file of the list stands where another one has a directory. -/
def NoPrefix (fs : List (Listed T)) : Prop :=
  ∀ f ∈ fs, ∀ g ∈ fs, walk f.name <+: walk g.name → walk f.name = walk g.name

instance (fs : List (Listed T)) : Decidable (NoPrefix fs) :=
  inferInstanceAs (Decidable (∀ f ∈ fs, ∀ g ∈ fs, _ → _))

theorem Clear.extend (hc : Clear dir fs done d) (hpre : NoPrefix fs) (hf : f ∈ fs)
    (hgrows : Grows (· <+: (spot dir f).dropLast) d e)
    (hnode : e'.node = Function.update e.node (spot dir f) (some (.file j))) :
    Clear dir fs (done ++ [f]) e' := by
  constructor
  · intro g hg p hp
    have hne : p ≠ spot dir f := by
      rintro rfl
      have hwalk := hpre f hf g hg (spot_isPrefix.mp (hp.trans (List.dropLast_prefix _)))
      rw [spot_inj.mpr hwalk] at hp
      exact not_prefix_dropLast hp
    have hsame : e'.node p = e.node p := by rw [hnode, Function.update_of_ne hne]
    rcases hc.way g hg p hp with hdir | hnone
    · left
      have hdir' := hdir.grows hgrows
      rw [IsDir] at hdir' ⊢
      rwa [hsame]
    · rw [IsDir, hsame]
      rcases hgrows.node p with hold | ⟨-, hmade, -⟩
      · exact .inr (hold.trans hnone)
      · exact .inl (.inr (.inr hmade))
  · intro g hg hnew
    have hfg : walk f.name ≠ walk g.name :=
      hnew f (List.mem_append_right _ (List.mem_singleton_self f))
    have hold := hc.free g hg fun k hk => hnew k (List.mem_append_left _ hk)
    rw [hnode, Function.update_of_ne fun hspot => hfg (spot_inj.mp hspot).symm]
    rcases hgrows.node (spot dir g) with hsame | ⟨-, -, hway⟩
    · exact hsame.trans hold
    · exact absurd (hpre g hg f hf (spot_isPrefix.mp (hway.trans (List.dropLast_prefix _)))).symm hfg

/-- **A step succeeds** if the way to the file is clear and it clashes with none of the files
before. -/
theorem Clear.step (hdir : dir ≠ []) (hw : Unpacked dir done names d) (hc : Clear dir fs done d)
    (hpre : NoPrefix fs) (hf : f ∈ fs) (hlen : (dirname (fullName dir f)).length < hierLen)
    (hclash : ∀ g ∈ done, ¬ Clash host.cuts g f) :
    ∃ u, parExtractFile host.system host.cuts host.memory
      ⟨⟨entryData host done f ++ rest, entryImage host done f, heap⟩, names, d⟩ (fullName dir f) =
        (true, u) ∧
      Clear dir fs (done ++ [f]) u.fs := by
  have hplace := place_fullName dir f hdir
  have hway : ∀ p, p <+: place (dirname (fullName dir f)) → d.IsDir p ∨ d.node p = none := by
    rw [place_dirname_fullName dir f hdir]
    exact hc.way f hf
  obtain ⟨e, hhier, hgrows, hparent⟩ := mkdirhier_clear host hlen hway
  rw [place_dirname_fullName dir f hdir] at hgrows hparent
  have hfree : e.node (spot dir f) = none := by
    have hold := hc.free f hf fun g hg => walk_ne_of_not_clash (hclash g hg)
    rcases hgrows.node (spot dir f) with hsame | ⟨-, -, hbelow⟩
    · exact hsame.trans hold
    · exact absurd hbelow not_prefix_dropLast
  cases hfirst : firstListed done f with
  | none =>
    have hcreate : e.create (fullName dir f) = (some e.next, e.newFile (spot dir f)) := by
      rw [create_eq_some, hplace]
      exact ⟨⟨isLeaf_fullName dir f, hparent⟩, .inl ⟨hfree, rfl, rfl⟩⟩
    have hpresent : ((e.newFile (spot dir f)).append e.next f.packed).Present
        (place (fullName dir f)) := by
      rw [hplace]
      exact present_of_update rfl
    exact ⟨_, (parExtractFile_reg host hfirst).mpr ⟨e, _, _, hhier, hcreate, hpresent, rfl⟩,
      hc.extend hpre hf hgrows rfl⟩
  | some target =>
    obtain ⟨g, hg, hino, htarget⟩ := hw.target hfirst
    have hcuts : host.cuts ≠ true := by
      intro hcuts
      apply hclash g hg
      rwa [Clash, if_pos hcuts]
    obtain ⟨i, hi, -, -⟩ := hw.files g hg
    have hname : afterDirname host.cuts (fullName dir f) = fullName dir f := by
      rw [afterDirname_fullName, if_neg hcuts]
    have hlink : e.link (fullName dir g) (fullName dir f) = (none, e.newName (spot dir f) i) := by
      rw [link_eq_none, hplace, place_fullName dir g hdir, present_spot]
      exact ⟨i, hgrows.keeps hi, not_not.mpr hfree, isLeaf_fullName dir f, hparent, rfl⟩
    have hpresent : (e.newName (spot dir f) i).Present (place (fullName dir f)) := by
      rw [hplace]
      exact present_of_update rfl
    refine ⟨_, (parExtractFile_link host hfirst).mpr ⟨e, e.newName (spot dir f) i, hhier, ?_, ?_,
      rfl⟩, hc.extend hpre hf hgrows rfl⟩
    · rw [htarget, hname, hlink]
    · rwa [hname]

end Step

/-! ## The whole package -/

/-- The directories of a path that `mkdirhier` makes fit into its buffers, with a second slash at
the start of an absolute path. -/
def HierFits (path : Bytes) : Prop := path.length + (if path.head? = some 47 then 1 else 0) < hierLen

/-- The path passes the check of `mkdirhier` and does not fit: it is cut, or written behind the
buffer. -/
def Overfills (path : Bytes) : Prop := ¬ HierFits path ∧ path.length ≤ hierLen

instance (path : Bytes) : Decidable (HierFits path) := inferInstanceAs (Decidable (_ < _))

instance (path : Bytes) : Decidable (Overfills path) := inferInstanceAs (Decidable (_ ∧ _))

section Run

variable {host : Host} {dir : Bytes} {done fs : List (Listed T)} {f : Listed T} {rest : Stream}
  {n : ℕ}
  {u v : Unpacking Disk}

/-- One round of the loop of `par_extract_all`. -/
theorem extractLoop_cons (hnull : NullPointers u.par.thBuf)
    (hlen : (fullName dir f).length < maxpathlen)
    (hstream : u.par.stream = entryImage host done f :: (entryData host done f ++ rest)) :
    extractLoop host.system host.cuts host.memory host.malloc (some dir) (n + 1) u =
      let r := parExtractFile host.system host.cuts host.memory
        ⟨⟨entryData host done f ++ rest, entryImage host done f, u.par.heap⟩, u.names,
          u.fs⟩ (fullName dir f)
      if r.1 then extractLoop host.system host.cuts host.memory host.malloc (some dir) n r.2 else
        (false, r.2) := by
  have htype := typeflag_entry host done f
  have hread := thRead_thFinish host.malloc (entryData host done f ++ rest)
    (describes_entry host done f)
    (by rw [htype]; split_ifs <;> decide) (by rw [htype]; split_ifs <;> decide) hnull hstream
  have hname : extractName (some dir)
    (thGetPathname host.memory (thFinish (entryHeader host done f)).image) =
      fullName dir f := by
    rw [pathname_entry]
    exact List.take_of_length_le (Nat.le_sub_one_of_lt hlen)
  rw [extractLoop, hread]
  dsimp only
  rw [hname]
  rfl

theorem nullPointers_entry (done : List (Listed T)) (f : Listed T) :
    NullPointers (entryImage host done f) :=
  (describes_entry host done f).thFinish.nullPointers

/-- The blocks behind the files. -/
def eofBlocks : Stream := List.replicate 2 (List.replicate blockSize 0)

/-- **A run that succeeds has unpacked all files**, the directories are short enough, and no two
files clash. -/
theorem Unpacked.run (hdir : dir ≠ []) (hw : Unpacked dir done u.names u.fs)
    (hnull : NullPointers u.par.thBuf)
    (hstream : u.par.stream = listBlocks host done fs ++ eofBlocks)
    (hlen : ∀ f ∈ fs, (fullName dir f).length < maxpathlen ∧ ¬ Overfills (dirname (fullName dir f)))
    (hpair : done.Pairwise fun g f => ¬ Clash host.cuts g f)
    (h : extractLoop host.system host.cuts host.memory host.malloc (some dir) n u = (true, v)) :
    Unpacked dir (done ++ fs) v.names v.fs ∧ (∀ f ∈ fs, HierFits (dirname (fullName dir f))) ∧
      (done ++ fs).Pairwise fun g f => ¬ Clash host.cuts g f := by
  induction fs generalizing n done u with
  | nil =>
    cases n with
    | zero => exact absurd (congrArg Prod.fst h) Bool.false_ne_true
    | succ n =>
      rw [extractLoop, thRead_eof host.malloc hnull hstream] at h
      obtain rfl : u = v := congrArg Prod.snd h
      rw [List.append_nil]
      exact ⟨hw, fun f hf => absurd hf List.not_mem_nil, hpair⟩
  | cons f fs ih =>
    rw [List.forall_mem_cons] at hlen
    cases n with
    | zero => exact absurd (congrArg Prod.fst h) Bool.false_ne_true
    | succ n =>
      rw [listBlocks, List.cons_append, List.append_assoc, ← entryImage] at hstream
      rw [extractLoop_cons hnull hlen.1.1 hstream] at h
      have hfill : (dirname (fullName dir f)).length ≠ hierLen := by
        intro hfull
        refine hlen.1.2 ⟨fun hfits => ?_, hfull.le⟩
        rw [HierFits] at hfits
        omega
      dsimp only at h
      split_ifs at h with hok
      case neg => exact absurd (congrArg Prod.fst h) Bool.false_ne_true
      obtain ⟨hpar, hw', hdirLen, hclash⟩ := hw.step hdir hfill (Prod.ext hok rfl)
      obtain ⟨hall, hfits, hpairs⟩ :=
        ih hw' (by rw [hpar]; exact nullPointers_entry done f) (by rw [hpar]) hlen.2
        (List.pairwise_append.mpr ⟨hpair, List.pairwise_singleton _ _, fun g hg k hk => by
          rw [List.mem_singleton] at hk
          exact hk ▸ hclash g hg⟩) h
      rw [List.append_assoc, List.singleton_append] at hall hpairs
      refine ⟨hall, List.forall_mem_cons.mpr ⟨?_, hfits⟩, hpairs⟩
      by_contra hnot
      exact hlen.1.2 ⟨hnot, hdirLen⟩

/-- **A run succeeds** if all names fit and no two files clash. -/
theorem Clear.run {all : List (Listed T)} (hdir : dir ≠ []) (hpre : NoPrefix all) (hsub : fs ⊆ all)
    (hw : Unpacked dir done u.names u.fs) (hc : Clear dir all done u.fs)
    (hnull : NullPointers u.par.thBuf)
    (hstream : u.par.stream = listBlocks host done fs ++ eofBlocks)
    (hlen : ∀ f ∈ fs, (fullName dir f).length < maxpathlen ∧ HierFits (dirname (fullName dir f)))
    (hpair : (done ++ fs).Pairwise fun g f => ¬ Clash host.cuts g f) (hn : fs.length < n) :
    ∃ v, extractLoop host.system host.cuts host.memory host.malloc (some dir) n u = (true, v) ∧
      Unpacked dir (done ++ fs) v.names v.fs := by
  induction fs generalizing n done u with
  | nil =>
    obtain ⟨n, rfl⟩ := Nat.exists_eq_succ_of_ne_zero (Nat.ne_of_gt hn)
    refine ⟨u, ?_, by rwa [List.append_nil]⟩
    rw [extractLoop, thRead_eof host.malloc hnull hstream]
    rfl
  | cons f fs ih =>
    obtain ⟨n, rfl⟩ := Nat.exists_eq_succ_of_ne_zero
      (Nat.ne_of_gt (Nat.lt_of_le_of_lt (Nat.zero_le _) hn))
    rw [List.forall_mem_cons] at hlen
    rw [List.cons_subset] at hsub
    rw [listBlocks, List.cons_append, List.append_assoc, ← entryImage] at hstream
    have hshort : (dirname (fullName dir f)).length < hierLen :=
      (Nat.le_add_right _ _).trans_lt hlen.1.2
    have hclash : ∀ g ∈ done, ¬ Clash host.cuts g f := fun g hg =>
      (List.pairwise_append.mp hpair).2.2 g hg f List.mem_cons_self
    obtain ⟨w, hstep, hc'⟩ := Clear.step hdir hw hc hpre hsub.1 hshort hclash
    obtain ⟨hpar, hw', -, -⟩ := hw.step hdir hshort.ne hstep
    have hassoc : done ++ [f] ++ fs = done ++ f ::
      fs := by rw [List.append_assoc, List.singleton_append]
    obtain ⟨v, hrun, hall⟩ :=
      ih hsub.2 hw' hc' (by rw [hpar]; exact nullPointers_entry done f) (by rw [hpar])
      hlen.2 (hassoc ▸ hpair) (Nat.lt_of_succ_lt_succ hn)
    refine ⟨v, ?_, hassoc ▸ hall⟩
    rw [extractLoop_cons hnull hlen.1.1 hstream, hstep]
    exact hrun

end Run

/-! ## The theorem -/

/-- What a list needs to be unpacked: contents whose size is an `int`, no two files that clash,
and names that fit into the buffers. -/
structure Replayable (cuts : Bool) (dir : Bytes) (fs : List (Listed T)) : Prop where
  sizes : ∀ f ∈ fs, (T.disk.data f.ino).length < 2 ^ 31
  distinct : fs.Pairwise fun g f => ¬ Clash cuts g f
  fits : ∀ f ∈ fs, (fullName dir f).length < maxpathlen ∧ HierFits (dirname (fullName dir f))

/-- The package of a list, when there is one, is unpacked to an empty directory:
`package_extract` returns 0, and every name of the list has the content it had. -/
def Unpacks (host : Host) (n : ℕ) (E : EmptyDir) (fs : List (Listed T)) : Prop :=
  ∀ p, packageCreate (T.source host) (n + 1) (some [46]) (fs.map Listed.name) = some p →
    let r := packageExtract host.system host.cuts host.memory host.malloc (some E.dir) p E.disk
    r.1 = true ∧ ∀ f ∈ fs, r.2.read (E.dir ++ 47 :: f.name) = some (T.disk.data f.ino)

section Theorem

variable {host : Host} {E : EmptyDir} {done fs : List (Listed T)} {n : ℕ}

theorem EmptyDir.node_eq (E : EmptyDir) (f : Listed T) {p : List Bytes} (hne : p ≠ [])
    (hp : p <+: walk f.name) :
    E.disk.node (place E.dir ++ p) = none := by
  refine E.empty p hne fun hhead => ?_
  -- A step has no slash in it.
  have hmem : [47] ∈ walk f.name := hp.subset (List.mem_of_mem_head? hhead)
  exact slash_notMem (mem_steps (List.mem_filter.mp hmem).1) (List.mem_singleton_self 47)

theorem EmptyDir.spot_eq (E : EmptyDir) (f : Listed T) : E.disk.node (spot E.dir f) = none :=
  E.node_eq f (walk_ne_nil f) List.prefix_rfl

theorem EmptyDir.unpacked (E : EmptyDir) : Unpacked (T := T) E.dir [] ChainedHash.empty E.disk := by
  refine ⟨fun key => rfl, fun g hg => absurd hg List.not_mem_nil, fun f j hfile => ?_⟩
  rw [E.spot_eq f] at hfile
  exact absurd hfile.symm (Option.some_ne_none _)

theorem EmptyDir.clear (E : EmptyDir) (fs : List (Listed T)) : Clear E.dir fs [] E.disk := by
  refine ⟨fun f _ p hp => ?_, fun f _ _ => E.spot_eq f⟩
  replace hp : p <+: spot E.dir f := hp.trans (List.dropLast_prefix _)
  rcases List.prefix_or_prefix_of_prefix hp (List.prefix_append (place E.dir) (walk f.name))
    with habove | ⟨q, rfl⟩
  · exact .inl (E.isDir p habove)
  · by_cases hq : q = []
    · rw [hq, List.append_nil]
      exact .inl (E.isDir _ List.prefix_rfl)
    · exact .inr (E.node_eq f hq ((List.prefix_append_right_inj _).mp hp))

theorem read_unpacked {names : Table (Bytes × Bytes)} {d : Disk} (hw : Unpacked E.dir fs names d)
    {f : Listed T}
    (hf : f ∈ fs) : d.read (E.dir ++ 47 :: f.name) = some f.packed := by
  obtain ⟨j, hnode, -, hdata⟩ := hw.files f hf
  rw [Disk.read, ← fullName, place_fullName E.dir f E.ne_nil, hnode]
  exact congrArg some hdata

theorem length_listBlocks (host : Host) (done fs : List (Listed T)) :
    fs.length ≤ (listBlocks host done fs).length := by
  induction fs generalizing done with
  | nil => exact Nat.zero_le _
  | cons f fs ih =>
    have := ih (done ++ [f])
    rw [listBlocks, List.length_cons, List.length_cons, List.length_append]
    omega

/-- What `package_extract` runs. -/
theorem packageExtract_run (host : Host) (E : EmptyDir) (blocks : Stream) :
    ∃ ok v, extractLoop host.system host.cuts host.memory host.malloc (some E.dir) (blocks.length + 1)
        ⟨parOpen blocks, ChainedHash.empty, E.disk⟩ = (ok, v) ∧
      packageExtract host.system host.cuts host.memory host.malloc (some E.dir)
        ⟨packageMagic, blocks⟩ E.disk = (ok, v.fs) := by
  have hlen : (parOpen blocks).stream.length = blocks.length := rfl
  refine ⟨_, _, Prod.mk.eta.symm, ?_⟩
  rw [packageExtract, if_neg (not_not.mpr rfl), parExtractAll, hlen]

theorem unpacks_of_replayable (hpre : NoPrefix fs) (h : Replayable host.cuts E.dir fs) :
    Unpacks host n E fs := by
  intro p hp
  obtain rfl := Option.some.inj (hp.symm.trans (packageCreate_listed host n fs))
  rw [← eofBlocks]
  obtain ⟨ok, v, hloop, hextract⟩ := packageExtract_run host E (listBlocks host [] fs ++ eofBlocks)
  have hfuel : fs.length < (listBlocks host [] fs ++ eofBlocks).length + 1 := by
    have := length_listBlocks host [] fs
    rw [List.length_append]
    omega
  obtain ⟨w, hrun, hw⟩ := Clear.run (u := ⟨parOpen (listBlocks host [] fs ++ eofBlocks),
    ChainedHash.empty, E.disk⟩)
    E.ne_nil hpre (List.Subset.refl fs) E.unpacked (E.clear fs)
    nullPointers_zero rfl h.fits h.distinct hfuel
  obtain ⟨rfl, rfl⟩ := Prod.mk.inj (hloop.symm.trans hrun)
  rw [hextract]
  refine ⟨rfl, fun f hf => ?_⟩
  rw [← (f.packed_eq_iff).mpr (h.sizes f hf)]
  exact read_unpacked hw hf

theorem replayable_of_unpacks (h : Unpacks host n E fs)
    (hlen : ∀ f ∈ fs, (fullName E.dir f).length < maxpathlen ∧
      ¬ Overfills (dirname (fullName E.dir f))) :
    Replayable host.cuts E.dir fs := by
  have hboth := h _ (packageCreate_listed host n fs)
  rw [← eofBlocks] at hboth
  obtain ⟨ok, v, hloop, hextract⟩ := packageExtract_run host E (listBlocks host [] fs ++ eofBlocks)
  rw [hextract] at hboth
  obtain ⟨rfl, hread⟩ := hboth
  obtain ⟨hw, hfits, hdistinct⟩ := Unpacked.run
    (u := ⟨parOpen (listBlocks host [] fs ++ eofBlocks), ChainedHash.empty, E.disk⟩)
    E.ne_nil E.unpacked
    nullPointers_zero rfl hlen List.Pairwise.nil hloop
  refine ⟨fun f hf => ?_, hdistinct, fun f hf => ⟨(hlen f hf).1, hfits f hf⟩⟩
  have hcontent := (read_unpacked hw hf).symm.trans (hread f hf)
  exact f.packed_eq_iff.mp (Option.some.inj hcontent)

/-- **A list of regular files is always packed, and the package is unpacked** if the sizes are
`int`s, no two files clash and the names fit into the buffers. Only then, unless `mkdirhier`
overfills a buffer. -/
theorem unpacks_listed (T : Tree) (host : Host) (n : ℕ) (E : EmptyDir) (fs : List (Listed T))
    (hpre : NoPrefix fs) :
    (∃ p, packageCreate (T.source host) (n + 1) (some [46]) (fs.map Listed.name) = some p) ∧
    (Replayable host.cuts E.dir fs → Unpacks host n E fs) ∧
    ((∀ f ∈ fs, (fullName E.dir f).length < maxpathlen ∧ ¬ Overfills (dirname (fullName E.dir f))) →
      Unpacks host n E fs → Replayable host.cuts E.dir fs) :=
  ⟨⟨_, packageCreate_listed host n fs⟩, unpacks_of_replayable hpre,
  fun hlen h => replayable_of_unpacks h hlen⟩

end Theorem

/-! ## Two files -/

/-- A tree with the files `a` and `d/b`. -/
def smallTree : Tree where
  disk := {
    node := fun p =>
      if p = [ascii "a"] then some (.file 0) else if p = [ascii "d"] then some .dir
      else if p = [ascii "d", ascii "b"] then some (.file 1) else none
    data := fun i => if i = 0 then ascii "hi" else []
    next := 2 }
  stat i := { smallFile.stat with size := (if i = 0 then ascii "hi" else []).length, ino := i }
  type_eq _ := rfl
  size_eq _ := rfl
  injective _ _ _ h := h

/-- A machine with a `dirname` that cuts its argument. -/
def smallHost : Host where
  superuser := true
  getpwnam _ := some 0
  getgrnam _ := some 0
  getpwuid _ := some (ascii "root")
  getgrgid _ := some (ascii "root")
  stack := List.replicate blockSize 0
  cuts := true
  memory _ := []
  malloc _ _ := none

/-- The file `a`. -/
def fileA : Listed smallTree := ⟨ascii "a", 0, by decide, by decide, by decide, by decide⟩

/-- The file `d/b`. -/
def fileB : Listed smallTree := ⟨ascii "d/b", 1, by decide, by decide, by decide, by decide⟩

/-- An empty directory `out`. -/
def outDir : EmptyDir where
  dir := ascii "out"
  disk := ⟨fun p => if p = [ascii "out"] then some .dir else none, fun _ => [], 0⟩
  ne_nil := by decide
  isDir p hp := by
    have hplace : place (ascii "out") = [ascii "out"] := by decide
    rw [hplace, List.prefix_cons_iff] at hp
    rcases hp with rfl | ⟨q, rfl, hq⟩
    · exact .inl rfl
    · rw [List.prefix_nil.mp hq]
      exact .inr (.inr rfl)
  empty p hne _ := by
    refine if_neg fun h => hne ?_
    have hplace : place (ascii "out") = [ascii "out"] := by decide
    rw [hplace] at h
    exact List.append_right_eq_self.mp h

theorem unpacks_small : Unpacks smallHost 0 outDir [fileA, fileB] :=
  (unpacks_listed smallTree smallHost 0 outDir [fileA, fileB] (by decide)).2.1
    ⟨by decide, by decide, by decide⟩

/-- A file that is listed twice is packed, and the package cannot be unpacked. -/
theorem not_unpacks_repeated :
    ¬ ∀ (T : Tree) (host : Host) (n : ℕ) (E : EmptyDir) (fs : List (Listed T)),
    NoPrefix fs → Unpacks host n E fs := by
  intro h
  have hextract := h smallTree smallHost 0 outDir [fileA, fileA] (by decide) _
    (packageCreate_listed smallHost 0 [fileA, fileA])
  exact absurd hextract.1 (by decide +kernel)

end Mavicona.Packer
