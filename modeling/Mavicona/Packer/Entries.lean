import Mavicona.Packer.Listing

/-!
# Extracting an entry to a disk

Reference: `par/extract.c`, `compat/mkdirhier.c`.

What `mkdirhier` makes on the way to a file, and when `par_extract_file` succeeds on an entry of a
list: for a file with content, and for a link to one.
-/

namespace Mavicona.Packer

open Bytes Path Par Disk ChainedHash

/-! ## Directories -/

section Directories

variable (host : Host) {d e : Disk} {c dst path : Bytes} {parts : List Bytes}

/-- The parts of a path that lead on. -/
def walkOf (parts : List Bytes) : List Bytes := (parts.filter (· ≠ [])).filter (· ≠ [46])

theorem walkOf_cons_nil (parts : List Bytes) : walkOf ([] :: parts) = walkOf parts := rfl

theorem walkOf_cons (hc : c ≠ []) (hslash : 47 ∉ c) (parts : List Bytes) :
    walkOf (c :: parts) = walk c ++ walkOf parts := by
  have happend := List.filter_append (p := (· ≠ [46])) [c] (parts.filter (· ≠ []))
  rw [walkOf, List.filter_cons_of_pos (by simpa using hc), walk, steps_component hc hslash]
  exact happend

/-- The next directory that `mkdirhier` makes. -/
def nextDir (dst c : Bytes) : Bytes := if dst = [] then c else dst ++ 47 :: c

theorem place_nextDir (hslash : 47 ∉ c) (dst : Bytes) :
    place (nextDir dst c) = place dst ++ walk c := by
  rw [nextDir]
  by_cases hdst : dst = []
  · have hrel : c.head? ≠ some 47 := fun h => hslash (List.mem_of_mem_head? h)
    rw [if_pos hdst, hdst, place, if_neg hrel]
    rfl
  · rw [if_neg hdst, place_append hdst]

/-- One round of the loop of `mkdirhier`. -/
theorem mkdirParts_cons (hc : c ≠ []) (parts : List Bytes) (dst : Bytes) (d : Disk) :
    mkdirParts host.system (c :: parts) dst d =
      if (d.mkdir (nextDir dst c)).1 = none ∨ (d.mkdir (nextDir dst c)).1 = some .exists then
        mkdirParts host.system parts (nextDir dst c) (d.mkdir (nextDir dst c)).2
      else (false, (d.mkdir (nextDir dst c)).2) := by
  have haccept : ∀ r : Option Fault, (r.map errno = none ∨ r.map errno = some .eexist) ↔
      (r = none ∨ r = some .exists) := by
    rintro (_ | _ | _) <;> decide
  rw [mkdirParts, if_neg hc]
  exact if_congr (haccept _) rfl rfl

theorem mkdirParts_grows (parts : List Bytes) (dst : Bytes) (d : Disk) :
    Grows (fun _ => True) d (mkdirParts host.system parts dst d).2 := by
  induction parts generalizing dst d with
  | nil => exact .refl d
  | cons c parts ih =>
    by_cases hc : c = []
    · rw [mkdirParts, if_pos hc]
      exact ih dst d
    · rw [mkdirParts_cons host hc]
      have hgrows := fun name => (mkdir_grows name d).mono (Q := fun _ => True) fun _ _ => trivial
      split_ifs
      · exact (hgrows _).trans (ih _ _)
      · exact hgrows _

/-- Behind a loop that has succeeded there is something in the last place. -/
theorem mkdirParts_present (hparts : ∀ c ∈ parts, 47 ∉ c) (hdst : d.Present (place dst))
    (h : mkdirParts host.system parts dst d = (true, e)) : e.Present (place dst ++ walkOf parts) := by
  induction parts generalizing dst d with
  | nil =>
    obtain rfl : d = e := congrArg Prod.snd h
    rwa [walkOf, List.filter_nil, List.filter_nil, List.append_nil]
  | cons c parts ih =>
    rw [List.forall_mem_cons] at hparts
    by_cases hc : c = []
    · rw [mkdirParts, if_pos hc] at h
      rw [hc, walkOf_cons_nil]
      exact ih hparts.2 hdst h
    · rw [mkdirParts_cons host hc] at h
      rw [walkOf_cons hc hparts.1, ← List.append_assoc, ← place_nextDir hparts.1]
      split_ifs at h with hmade
      · exact ih hparts.2 (present_mkdir hmade) h
      · exact absurd (congrArg Prod.fst h) Bool.false_ne_true

/-- Where there are only directories on the way, all of it is made. -/
theorem mkdirParts_clear (hparts : ∀ c ∈ parts, 47 ∉ c) (hdst : d.IsDir (place dst))
    (hclear : ∀ p, p <+: place dst ++ walkOf parts → d.IsDir p ∨ d.node p = none) :
    ∃ e, mkdirParts host.system parts dst d = (true, e) ∧
    Grows (· <+: place dst ++ walkOf parts) d e ∧
      e.IsDir (place dst ++ walkOf parts) := by
  induction parts generalizing dst d with
  | nil =>
    refine ⟨d, rfl, .refl d, ?_⟩
    rwa [walkOf, List.filter_nil, List.filter_nil, List.append_nil]
  | cons c parts ih =>
    rw [List.forall_mem_cons] at hparts
    by_cases hc : c = []
    · rw [hc, walkOf_cons_nil] at hclear ⊢
      rw [mkdirParts, if_pos rfl]
      exact ih hparts.2 hdst hclear
    · rw [walkOf_cons hc hparts.1, ← List.append_assoc, ← place_nextDir hparts.1] at hclear ⊢
      rw [mkdirParts_cons host hc]
      have hplace := place_nextDir hparts.1 dst
      generalize nextDir dst c = name at hclear hplace ⊢
      -- The component is `.`, or one step from the directory.
      have hparent : d.IsDir (place name) ∨ d.IsDir (place name).dropLast := by
        rw [hplace, walk, steps_component hc hparts.1]
        by_cases hdot : c = [46]
        · rw [List.filter_cons_of_neg (by simpa using hdot), List.filter_nil, List.append_nil]
          exact .inl hdst
        · rw [List.filter_cons_of_pos (by simpa using hdot), List.filter_nil, List.dropLast_concat]
          exact .inr hdst
      have hpre : place name <+: place name ++ walkOf parts := List.prefix_append _ _
      obtain ⟨hmade, hdir⟩ := isDir_mkdir hparent (hclear _ hpre)
      have hgrows := (mkdir_grows name d).mono (Q := (· <+: place name ++ walkOf parts))
        fun q hq => hq ▸ hpre
      obtain ⟨e, hrun, hrest, hlast⟩ := ih hparts.2 hdir fun p hp => by
        rcases hclear p hp with hold | hold
        · exact .inl (hold.grows hgrows)
        · rcases hgrows.node p with hsame | ⟨-, hnew, -⟩
          · exact .inr (hsame.trans hold)
          · exact .inl (.inr (.inr hnew))
      exact ⟨e, by rw [if_pos hmade, hrun], hgrows.trans hrest, hlast⟩

/-- What the loop of `mkdirhier` starts with. -/
theorem place_start (path : Bytes) :
    place (if path.head? = some 47 then [47] else []) ++ walkOf (components path) = place path := by
  rw [place.eq_def path]
  split_ifs <;> rfl

theorem isDir_start (path : Bytes) (d : Disk) :
    d.IsDir (place (if path.head? = some 47 then [47] else [])) := by
  split_ifs
  · exact .inr (.inl rfl)
  · exact .inl rfl

theorem mkdirhier_grows (path : Bytes) (d : Disk) :
    Grows (fun _ => True) d (mkdirhier host.system path d).2 := by
  rw [mkdirhier]
  by_cases hlen : path.length > hierLen
  · rw [if_pos hlen]
    exact .refl d
  · rw [if_neg hlen]
    exact mkdirParts_grows host _ _ d

theorem mkdirhier_eq (hlen : path.length < hierLen) (d : Disk) : mkdirhier host.system path d =
    mkdirParts host.system (components path) (if path.head? = some 47 then [47] else []) d := by
  rw [mkdirhier, if_neg (by omega), List.take_of_length_le (Nat.le_sub_one_of_lt hlen)]

theorem mkdirhier_present (hlen : path.length < hierLen)
    (h : mkdirhier host.system path d = (true, e)) :
    e.Present (place path) := by
  rw [mkdirhier_eq host hlen] at h
  rw [← place_start]
  exact mkdirParts_present host (fun _ hc => slash_notMem hc) (.inl (isDir_start path d)) h

theorem mkdirhier_clear (hlen : path.length < hierLen)
    (hclear : ∀ p, p <+: place path → d.IsDir p ∨ d.node p = none) :
    ∃ e, mkdirhier host.system path d = (true, e) ∧ Grows (· <+: place path) d e ∧
    e.IsDir (place path) := by
  rw [← place_start] at hclear ⊢
  rw [mkdirhier_eq host hlen]
  exact mkdirParts_clear host (fun _ hc => slash_notMem hc) (isDir_start path d) hclear

end Directories

/-! ## One entry -/

section Entry

variable {T : Tree} (host : Host) {done : List (Listed T)} {f : Listed T} {name : Bytes}
  {rest : Stream}
  {heap : List ℕ} {names : Table (Bytes × Bytes)} {d : Disk} {u : Unpacking Disk}

/-- The image of the header of an entry. -/
def entryImage (done : List (Listed T)) (f : Listed T) : Bytes :=
  (thFinish (entryHeader host done f)).image

/-- The permissions of a file that is there can be set. -/
theorem parSetFilePerms_disk {b : Bytes} (hsym : isSym b = false) (name : Bytes) (d : Disk) :
    parSetFilePerms host.system b name d = (decide (d.Present (place name)), d) := by
  have htouch : succeeded (call (d.touch name)) = (decide (d.Present (place name)), d) := by
    rw [succeeded, call, touch]
    by_cases h : d.Present (place name)
    · rw [if_pos h, decide_eq_true h]
      rfl
    · rw [if_neg h, decide_eq_false h]
      rfl
  have howner : (if host.superuser then succeeded (call (d.touch name)) else (true, d)) =
      (decide (host.superuser = true → d.Present (place name)), d) := by
    by_cases hsuper : host.superuser = true
    · rw [if_pos hsuper, htouch]
      simp [hsuper]
    · rw [if_neg hsuper]
      simp [hsuper]
  rw [parSetFilePerms, hsym, if_neg Bool.false_ne_true]
  change andThen (if host.superuser then succeeded (call (d.touch name)) else (true, d)) (fun d =>
    andThen (succeeded (call (d.touch name))) fun d => succeeded (call (d.touch name))) = _
  rw [howner, andThen]
  by_cases h : d.Present (place name)
  · rw [decide_eq_true h] at htouch ⊢
    rw [if_pos (decide_eq_true fun _ => h)]
    dsimp only
    rw [htouch, andThen, if_pos rfl, htouch]
  · rw [decide_eq_false h] at htouch ⊢
    by_cases hsuper : host.superuser = true
    · rw [decide_eq_false fun hall : _ → _ => h (hall hsuper), if_neg Bool.false_ne_true]
    · rw [if_pos (decide_eq_true fun hyes => absurd hyes hsuper)]
      dsimp only
      rw [htouch, andThen, if_neg Bool.false_ne_true]

/-- The content of an entry is appended to its file. -/
theorem readContent_entry (h : firstListed done f = none) (j : ℕ) (rest : Stream) (d : Disk) :
    readContent (fun buf s => succeeded (host.system.write j buf s)) (entryData host done f ++ rest)
      (toSSize (thGetSize (entryImage host done f))) d = (true, rest, d.append j f.packed) := by
  have hdata := Item.readContent_data (f.item_exists host) f.item_named (T.type_eq f.ino)
    (fun buf s => succeeded (host.system.write j buf s)) (fun d buf => d.append j buf)
    (fun _ _ => rfl)
    (fun d a b => append_append j a b d) (append_nil j) rest d
  rw [entryImage, entryHeader, entryData, h]
  exact hdata

/-- The permissions are set, and the name is kept, if the entry was made. -/
theorem parExtractFile_eq_true {cuts ok : Bool} {memory : ℕ → Bytes} {name' : Bytes}
    {v w : Unpacking Disk}
    (hentry : parExtractEntry host.system cuts memory v name = (name', ok, w))
    (hsym : isSym w.par.thBuf = false) :
    parExtractFile host.system cuts memory v name = (true, u) ↔
      ok = true ∧ w.fs.Present (place name') ∧
      u = { w with names := add pathHashfunc Prod.fst (thGetPathname memory w.par.thBuf, name') w.names } := by
  rw [parExtractFile, hentry]
  dsimp only
  rw [parSetFilePerms_disk host hsym]
  cases ok with
  | false => simp
  | true => by_cases h : w.fs.Present (place name') <;> simp [h, eq_comm]

/-- **A file with content is made in its place**, and the blocks of the content are read. -/
theorem parExtractRegfile_eq_true (h : firstListed done f = none) {t : PAR} {d' : Disk} :
    parExtractRegfile host.system
      ⟨entryData host done f ++ rest, entryImage host done f, heap⟩ name d = (true, t, d') ↔
    ∃ e j e', mkdirhier host.system (dirname name) d = (true, e) ∧ e.create name = (some j, e') ∧
      t = ⟨rest, entryImage host done f, heap⟩ ∧ d' = e'.append j f.packed := by
  obtain ⟨-, -, -, hreg⟩ := kind_entry host done f
  rw [← entryImage, decide_eq_true h] at hreg
  rw [parExtractRegfile, hreg, Bool.not_true, if_neg Bool.false_ne_true]
  rcases mkdirhier host.system (dirname name) d with ⟨_ | _, e⟩
  · simp
  · dsimp only
    rw [Bool.not_true, if_neg Bool.false_ne_true]
    have hcreate : host.system.create name e = e.create name := rfl
    rw [hcreate]
    rcases hmade : e.create name with ⟨_ | j, e'⟩
    · simp [hmade]
    · dsimp only
      rw [readContent_entry host h]
      have hclose : host.system.close j (e'.append j f.packed) = (none, e'.append j f.packed) := rfl
      simp [hmade, hclose, eq_comm]

theorem thBuf_parExtractRegfile (t : PAR) (name : Bytes) (d : Disk) :
    (parExtractRegfile host.system t name d).2.1.thBuf = t.thBuf := by
  rw [parExtractRegfile]
  split_ifs
  · rfl
  · rcases mkdirhier host.system (dirname name) d with ⟨_ | _, e⟩
    · rfl
    · dsimp only
      rcases host.system.create name e with ⟨_ | j, e'⟩ <;> rfl

theorem parExtractFile_reg (h : firstListed done f = none) :
    parExtractFile host.system host.cuts host.memory
      ⟨⟨entryData host done f ++ rest, entryImage host done f, heap⟩, names, d⟩ name = (true, u) ↔
    ∃ e j e', mkdirhier host.system (dirname name) d = (true, e) ∧ e.create name = (some j, e') ∧
      (e'.append j f.packed).Present (place name) ∧
      u = ⟨⟨rest, entryImage host done f, heap⟩, add pathHashfunc Prod.fst (f.name, name) names,
        e'.append j f.packed⟩ := by
  obtain ⟨hdir, hlnk, hsym, -⟩ := kind_entry host done f
  have hpath := pathname_entry host done f host.memory
  rw [← entryImage] at hdir hlnk hsym hpath
  rw [decide_eq_false (not_not.mpr h)] at hlnk
  have hbuf := thBuf_parExtractRegfile host
    ⟨entryData host done f ++ rest, entryImage host done f, heap⟩ name d
  rcases hmade : parExtractRegfile host.system
    ⟨entryData host done f ++ rest, entryImage host done f, heap⟩ name d with ⟨ok, t, d'⟩
  rw [hmade] at hbuf
  have hentry : parExtractEntry host.system host.cuts host.memory
      ⟨⟨entryData host done f ++ rest, entryImage host done f, heap⟩, names, d⟩ name =
        (name, ok, ⟨t, names, d'⟩) := by
    rw [parExtractEntry]
    dsimp only
    rw [hdir, hlnk, hsym, if_neg Bool.false_ne_true, if_neg Bool.false_ne_true,
      if_neg Bool.false_ne_true, hmade]
  rw [parExtractFile_eq_true host hentry (hbuf ▸ hsym)]
  constructor
  · rintro ⟨rfl, hpresent, rfl⟩
    obtain ⟨e, j, e', hhier, hcreate, rfl, rfl⟩ := (parExtractRegfile_eq_true host h).mp hmade
    exact ⟨e, j, e', hhier, hcreate, hpresent, by rw [← hpath]⟩
  · rintro ⟨e, j, e', hhier, hcreate, hpresent, rfl⟩
    have hboth := hmade.symm.trans
      ((parExtractRegfile_eq_true host h).mpr ⟨e, j, e', hhier, hcreate, rfl, rfl⟩)
    obtain ⟨rfl, rfl, rfl⟩ : ok = true ∧ t = _ ∧ d' = _ := by simpa using hboth
    exact ⟨rfl, hpresent, by rw [hpath]⟩

theorem parExtractHardlink_eq_true {target : Bytes} (h : firstListed done f = some target)
    {e' : Disk} :
    parExtractHardlink host.system host.cuts host.memory (entryImage host done f) name names d =
      (true, e') ↔
    ∃ e, mkdirhier host.system (dirname name) d = (true, e) ∧
      e.link (((getkey pathHashfunc Prod.fst target names).map Prod.snd).getD target)
      (afterDirname host.cuts name) =
        (none, e') := by
  obtain ⟨-, hlnk, -, -⟩ := kind_entry host done f
  rw [← entryImage, decide_eq_true (by simp [h])] at hlnk
  have htarget := linkname_entry host done f host.memory h
  rw [← entryImage] at htarget
  rw [parExtractHardlink, hlnk, Bool.not_true, if_neg Bool.false_ne_true, htarget, andThen]
  rcases mkdirhier host.system (dirname name) d with ⟨_ | _, e⟩
  · simp
  · dsimp only
    have hlink : ∀ a b, host.system.link a b e = call (e.link a b) := fun _ _ => rfl
    rw [if_pos rfl, hlink, succeeded, call]
    simp [Prod.ext_iff]

/-- **For another name of an inode a link is made**, at what `dirname` leaves of the name. -/
theorem parExtractFile_link {target : Bytes} (h : firstListed done f = some target) :
    parExtractFile host.system host.cuts host.memory
      ⟨⟨entryData host done f ++ rest, entryImage host done f, heap⟩, names, d⟩ name = (true, u) ↔
    ∃ e e', mkdirhier host.system (dirname name) d = (true, e) ∧
      e.link (((getkey pathHashfunc Prod.fst target names).map Prod.snd).getD target)
      (afterDirname host.cuts name) =
        (none, e') ∧
      e'.Present (place (afterDirname host.cuts name)) ∧
      u = ⟨⟨rest, entryImage host done f, heap⟩,
        add pathHashfunc Prod.fst (f.name, afterDirname host.cuts name) names, e'⟩ := by
  obtain ⟨hdir, hlnk, hsym, -⟩ := kind_entry host done f
  have hpath := pathname_entry host done f host.memory
  have hdata : entryData host done f ++ rest = rest := by
    rw [entryData, h]
    rfl
  rw [← entryImage] at hdir hlnk hsym hpath
  rw [decide_eq_true (by simp [h])] at hlnk
  rcases hmade : parExtractHardlink host.system host.cuts host.memory (entryImage host done f)
    name names d with
    ⟨ok, d'⟩
  have hentry : parExtractEntry host.system host.cuts host.memory
      ⟨⟨entryData host done f ++ rest, entryImage host done f, heap⟩, names, d⟩ name =
        (afterDirname host.cuts name, ok, ⟨⟨rest, entryImage host done f, heap⟩, names, d'⟩) := by
    rw [parExtractEntry]
    dsimp only
    rw [hdir, hlnk, if_neg Bool.false_ne_true, if_pos rfl, hmade, hdata]
  rw [parExtractFile_eq_true host hentry hsym]
  dsimp only
  rw [hpath]
  constructor
  · rintro ⟨rfl, hpresent, rfl⟩
    obtain ⟨e, hhier, hnew⟩ := (parExtractHardlink_eq_true host h).mp hmade
    exact ⟨e, d', hhier, hnew, hpresent, rfl⟩
  · rintro ⟨e, e', hhier, hnew, hpresent, rfl⟩
    have hboth := hmade.symm.trans ((parExtractHardlink_eq_true host h).mpr ⟨e, hhier, hnew⟩)
    obtain ⟨rfl, rfl⟩ : ok = true ∧ d' = e' := by simpa using hboth
    exact ⟨rfl, hpresent, rfl⟩

end Entry

end Mavicona.Packer
