import Mavicona.Par.RoundTrip

/-!
# The names a header can hold

Reference: `par/append.c` (`par_append_file`), `par/encode.c` (`th_set_path`), `par/decode.c`
(`th_get_pathname`), `par/block.c` (`th_read_internal`).

`th_set_path` writes a name of at most 100 bytes to the field for names, and cuts a longer one at a
slash into a prefix and a name. Each piece goes through `snprintf`, which keeps a byte for its
terminator and drops what does not fit, and a name without a slash in its last 101 bytes is not
written at all. `par_append_file` learns of none of this. `Representable` is what does fit.
-/

namespace Mavicona.Par

open Bytes Numeral Path ChainedHash

/-! ## What a call writes -/

/-- The fields of two headers that `par_append_file` sets once are the same. -/
structure SameFields (h h' : FileHeader) : Prop where
  name : h.name = h'.name
  namePrefix : h.namePrefix = h'.namePrefix
  pointers : h.pointers = h'.pointers
  mode : h.mode = h'.mode
  size : h.size = h'.size

theorem SameFields.refl (h : FileHeader) : SameFields h h := ⟨rfl, rfl, rfl, rfl, rfl⟩

/-- The files that are packed at all. -/
def Stat.IsPacked (s : Stat) : Prop := s.type = .reg ∨ s.type = .dir ∨ s.type = .lnk

theorem thSetFromStat_some {src : Source} {s : Stat} {h : FileHeader}
    (hs : thSetFromStat src s .zero = some h) : s.IsPacked ∧ h = statHeader src s := by
  unfold thSetFromStat at hs
  split_ifs at hs with htype hreg
  · refine ⟨.inl hreg, ?_⟩
    rw [statHeader, if_pos hreg]
    exact (Option.some.inj hs).symm
  · refine ⟨?_, ?_⟩
    · unfold Stat.IsPacked
      cases htypes : s.type <;> simp_all
    · rw [statHeader, if_neg hreg]
      exact (Option.some.inj hs).symm

/-- The header of `par_append_file` is written, and the content of a regular file behind it. -/
theorem append_content {src : Source} {t t' : Packing} {realname : Bytes} {head : FileHeader}
    {devices : Table TarDev}
    (h : (do
      let b := (thFinish head).image
      let content ← if isReg b then parAppendRegfile src b realname else some []
      some (⟨t.blocks ++ b :: content, devices⟩ : Packing)) = some t') :
    ∃ content, t'.blocks = t.blocks ++ (thFinish head).image :: content ∧
      (if isReg (thFinish head).image then parAppendRegfile src (thFinish head).image realname
        else some []) = some content := by
  dsimp only at h
  split_ifs at h with hreg
  · obtain ⟨content, hcontent, h⟩ := Option.bind_eq_some_iff.mp h
    exact ⟨content, by rw [← Option.some.inj h], by rw [if_pos hreg, hcontent]⟩
  · exact ⟨[], by rw [← Option.some.inj h], if_neg hreg⟩

/-- The part of `par_append_file` behind the check for hard links. -/
theorem append_tail {src : Source} {t t' : Packing} {realname : Bytes} {h₀ : FileHeader}
    {devices : Table TarDev}
    (h : (do
      let h ←
        if isSym h₀.image then
          (src.readlink realname).map fun path => thSetLink (path.take (4096 - 1)) h₀
        else some h₀
      let b := (thFinish h).image
      let content ← if isReg b then parAppendRegfile src b realname else some []
      some (⟨t.blocks ++ b :: content, devices⟩ : Packing)) = some t') :
    ∃ head content, SameFields head h₀ ∧ t'.blocks = t.blocks ++ (thFinish head).image :: content ∧
      (if isReg (thFinish head).image then parAppendRegfile src (thFinish head).image realname
        else some []) = some content := by
  split_ifs at h with hsym
  · obtain ⟨head, hhead, h⟩ := Option.bind_eq_some_iff.mp h
    obtain ⟨path, -, rfl⟩ := Option.map_eq_some_iff.mp hhead
    obtain ⟨content, hblocks, hcontent⟩ := append_content h
    exact ⟨thSetLink (path.take (4096 - 1)) h₀, content, ⟨rfl, rfl, rfl, rfl, rfl⟩, hblocks, hcontent⟩
  · obtain ⟨content, hblocks, hcontent⟩ := append_content h
    exact ⟨h₀, content, .refl h₀, hblocks, hcontent⟩

/-- A call that succeeds has written one header, with the name, the prefix and the size that were set
first, and the content of a regular file behind it. -/
theorem parAppendFile_some {src : Source} {t t' : Packing} {realname : Bytes}
    {savename : Option Bytes} (h : parAppendFile src t realname savename = some t') :
    ∃ s head content, src.lstat realname = some s ∧ s.IsPacked ∧
      SameFields head (thSetPath (savename.getD realname) (statHeader src s)) ∧
      t'.blocks = t.blocks ++ (thFinish head).image :: content ∧
      (if isReg (thFinish head).image then parAppendRegfile src (thFinish head).image realname
        else some []) = some content := by
  obtain ⟨s, hs, h⟩ := Option.bind_eq_some_iff.mp h
  obtain ⟨h₀, hstat, h⟩ := Option.bind_eq_some_iff.mp h
  obtain ⟨hpacked, rfl⟩ := thSetFromStat_some hstat
  dsimp only at h
  -- the type flag and the link name of a hard link or a symbolic link are set last
  rcases hfirst : firstName s.dev s.ino (deviceTable s.dev t.devices) with _ | tiName
  · rw [hfirst] at h
    obtain ⟨head, content, hsame, hblocks, hcontent⟩ := append_tail h
    exact ⟨s, head, content, hs, hpacked, hsame, hblocks, hcontent⟩
  · rw [hfirst] at h
    obtain ⟨head, content, hsame, hblocks, hcontent⟩ := append_tail h
    exact ⟨s, head, content, hs, hpacked,
      ⟨hsame.name, hsame.namePrefix, hsame.pointers, hsame.mode, hsame.size⟩, hblocks, hcontent⟩

/-! ## What a header is read as -/

/-- A text that went through `snprintf` to a cleared array is what fits. -/
theorem cstr_snprintf {n m : ℕ} {text : Bytes} (hzero : 0 ∉ text) (hm : 0 < m) (hmn : m ≤ n) :
    cstr ((Chars.zero n).copy (snprintf m text)).bytes = text.take (m - 1) := by
  have hlen : (snprintf m text).length ≤ n := by
    simp only [snprintf, List.length_append, List.length_take, List.length_singleton]
    omega
  rw [Chars.zero_copy hlen, snprintf, List.append_assoc]
  exact cstr_append_zero (fun h => hzero (List.mem_of_mem_take h)) _

theorem head?_snprintf {n m : ℕ} {text : Bytes} (hm : 1 < m) (hmn : m ≤ n) {b : UInt8}
    (h : text.head? = some b) :
    ((Chars.zero n).copy (snprintf m text)).bytes.head? = some b := by
  obtain ⟨c, text, rfl⟩ : ∃ c text', text = c :: text' := by
    cases text with
    | nil => simp at h
    | cons c text => exact ⟨c, text, rfl⟩
  have hlen : (snprintf m (c :: text)).length ≤ n := by
    simp only [snprintf, List.length_append, List.length_take, List.length_singleton]
    omega
  obtain ⟨k, rfl⟩ : ∃ k, m = k + 2 := ⟨m - 2, by omega⟩
  rw [Chars.zero_copy hlen, snprintf]
  simpa using h

/-- The pathname of a header without pointers, from its prefix and its name. -/
theorem thGetPathname_thFinish {h : FileHeader} (hpointers : h.pointers = .zero 16)
    (memory : ℕ → Bytes) :
    thGetPathname memory (thFinish h).image =
      if h.namePrefix.bytes.head? = some 0 then saferNameSuffix (cstr h.name.bytes)
      else saferNameSuffix (cstr h.namePrefix.bytes ++ 47 :: cstr h.name.bytes) := by
  have hmagic : magic (thFinish h).image = tmagic :=
    (magic_image _).trans (Chars.copy_of_length _ rfl)
  have hname : name (thFinish h).image = h.name.bytes := name_image _
  have hprefix : namePrefix (thFinish h).image = h.namePrefix.bytes := namePrefix_image _
  have hnull : gnuLongname (thFinish h).image = 0 := (nullPointers_of_zero (h := thFinish h) hpointers).1
  rw [thGetPathname, if_neg fun hne => hne hnull, hmagic, hname, hprefix]
  simp

/-! ## Names that fit -/

/-- A name of a file as a package may have it. -/
structure PlainName (path : Bytes) : Prop where
  ne_nil : path ≠ []
  zero_notMem : 0 ∉ path
  head : path.head? ≠ some 47
  last : path.getLast? ≠ some 47
  dots : dotDot ∉ components path

/-- Where a long name is cut: at the first slash of its last 101 bytes. -/
def cutAt (path : Bytes) : ℕ := path.length - 101 + (path.drop (path.length - 101)).idxOf 47

/-- The header holds the whole name: with the slash of a directory it has at most 99 bytes, or it has
more than 100, a slash to cut it at, and room for the pieces, of 154 and of 99 bytes. -/
def Representable (s : Stat) (path : Bytes) : Prop :=
  (entryName s path).length ≤ 99 ∨
    (100 < path.length ∧ 47 ∈ path.drop (path.length - 101) ∧ cutAt path ≤ 154 ∧
      (entryName s path).length ≤ cutAt path + 100)

instance (s : Stat) (path : Bytes) : Decidable (Representable s path) :=
  inferInstanceAs (Decidable (_ ∨ _))

/-- A long name around the slash it is cut at. -/
theorem PlainName.cutAt_spec {path : Bytes} (hp : PlainName path)
    (hmem : 47 ∈ path.drop (path.length - 101)) :
    0 < cutAt path ∧ cutAt path + 1 < path.length ∧
      path = path.take (cutAt path) ++ 47 :: path.drop (cutAt path + 1) := by
  have hlt : (path.drop (path.length - 101)).idxOf 47 < (path.drop (path.length - 101)).length :=
    List.idxOf_lt_length_of_mem hmem
  have hcut : cutAt path < path.length := by
    rw [List.length_drop] at hlt
    rw [cutAt]
    omega
  have hslash : path[cutAt path] = 47 := by
    have hidx := List.getElem_idxOf hlt
    rwa [List.getElem_drop] at hidx
  have hsplit : path = path.take (cutAt path) ++ 47 :: path.drop (cutAt path + 1) := by
    conv_lhs => rw [← List.take_append_drop (cutAt path) path, List.drop_eq_getElem_cons hcut, hslash]
  refine ⟨?_, ?_, hsplit⟩
  · rcases Nat.eq_zero_or_pos (cutAt path) with hzero | hpos
    · rw [hzero, List.take_zero, List.nil_append] at hsplit
      exact absurd (congrArg List.head? hsplit) hp.head
    · exact hpos
  · rcases Nat.lt_or_ge (cutAt path + 1) path.length with hlt | hge
    · exact hlt
    · rw [List.drop_of_length_le hge] at hsplit
      refine absurd (congrArg List.getLast? hsplit) ?_
      rw [List.getLast?_concat]
      exact hp.last

/-- What a header is read as, before it is made safe. -/
def storedName (s : Stat) (path : Bytes) : Bytes :=
  if path.length ≤ 100 then (entryName s path).take 99
  else if 47 ∈ path.drop (path.length - 101) then
    path.take (min (cutAt path) 154) ++ 47 :: ((entryName s path).drop (cutAt path + 1)).take 99
  else []

theorem entryName_eq_append (s : Stat) (path : Bytes) :
    entryName s path = path ++ if s.type = .dir then [47] else [] := by
  rw [entryName]
  split_ifs
  · rfl
  · rw [List.append_nil]

/-- What fits is stored whole, and what does not is stored shorter. -/
theorem storedName_spec {s : Stat} {path : Bytes} (hp : PlainName path) :
    (Representable s path → storedName s path = entryName s path) ∧
    (¬ Representable s path → (storedName s path).length < (entryName s path).length ∧
      1 < (entryName s path).length) := by
  have hle : path.length ≤ (entryName s path).length := by
    rw [entryName_eq_append, List.length_append]
    omega
  have hle' : (entryName s path).length ≤ path.length + 1 := by
    rw [entryName]
    split_ifs
    · rw [List.length_append, List.length_singleton]
    · omega
  unfold storedName
  split_ifs with hshort hslash
  · constructor
    · intro hr
      refine List.take_of_length_le ?_
      rcases hr with hr | ⟨hr, -⟩ <;> omega
    · intro hr
      have hlong : 99 < (entryName s path).length := by
        by_contra hnot
        exact hr (.inl (by omega))
      rw [List.length_take]
      omega
  · obtain ⟨hpos, hlt, hsplit⟩ := hp.cutAt_spec hslash
    have hentry : entryName s path
        = path.take (cutAt path) ++ 47 :: (entryName s path).drop (cutAt path + 1) := by
      rw [entryName_eq_append, List.drop_append_of_le_length (by omega), ← List.cons_append,
        ← List.append_assoc, ← hsplit]
    constructor
    · intro hr
      have hfit : cutAt path ≤ 154 ∧ (entryName s path).length ≤ cutAt path + 100 := by
        rcases hr with hr | ⟨-, -, hr⟩
        · omega
        · exact hr
      have hall : ((entryName s path).drop (cutAt path + 1)).take 99
          = (entryName s path).drop (cutAt path + 1) := by
        refine List.take_of_length_le ?_
        rw [List.length_drop]
        omega
      rw [min_eq_left hfit.1, hall, ← hentry]
    · intro hr
      have hnot : ¬ (cutAt path ≤ 154 ∧ (entryName s path).length ≤ cutAt path + 100) :=
        fun h => hr (.inr ⟨by omega, hslash, h⟩)
      simp only [List.length_append, List.length_take, List.length_cons, List.length_drop]
      omega
  · constructor
    · rintro (hr | ⟨-, hr, -⟩)
      · omega
      · exact absurd hr hslash
    · intro
      rw [List.length_nil]
      omega

/-! ## The header of a path -/

section Header

variable (src : Source) {s : Stat} {path : Bytes}

theorem isDir_statHeader (hs : s.IsPacked) :
    isDir (statHeader src s).image = decide (s.type = .dir) := by
  have hmode := modeBits_image (statHeader_mode src) (mode_lt s)
  have hflag : (statHeader src s).typeflag = (thSetType s.type .zero).typeflag := by
    dsimp only [statHeader, thSetSize, thSetMtime, thSetMode, thSetGroup, thSetUser]
  rw [isDir, typeflag_image, hmode, fmt_mode, hflag]
  rcases hs with htype | htype | htype <;> rw [htype] <;> rfl

/-- What `th_set_path` writes. -/
theorem thSetPath_statHeader (hs : s.IsPacked) (hp : PlainName path) :
    thSetPath path (statHeader src s) =
      if path.length ≤ 100 then
        { statHeader src s with name := (Chars.zero 100).copy (snprintf 100 (entryName s path)) }
      else if 47 ∈ path.drop (path.length - 101) then
        { statHeader src s with
          name := (Chars.zero 100).copy (snprintf 100 ((entryName s path).drop (cutAt path + 1)))
          namePrefix := (Chars.zero 155).copy
            (snprintf (if cutAt path + 1 < 155 then cutAt path + 1 else 155) path) }
      else statHeader src s := by
  obtain ⟨hname, hprefix, -⟩ := statHeader_empty (s := s) src
  have hsuffix : (if path.getLast? ≠ some 47 ∧ isDir (statHeader src s).image then [47] else [])
      = if s.type = .dir then ([47] : Bytes) else [] := by
    rw [isDir_statHeader src hs]
    simp [hp.last]
  have hstart : path.length - 100 - 1 = path.length - 101 := by omega
  rw [thSetPath]
  dsimp only
  rw [hsuffix, hname, hprefix, hstart, ← entryName_eq_append s path]
  by_cases hlen : path.length ≤ 100
  · rw [if_neg (by omega), if_pos hlen]
  · rw [if_pos (by omega), if_neg hlen]
    by_cases hmem : 47 ∈ path.drop (path.length - 101)
    · obtain ⟨-, hlt, -⟩ := hp.cutAt_spec hmem
      have hdrop : path.drop (cutAt path + 1) ++ (if s.type = .dir then [47] else [])
          = (entryName s path).drop (cutAt path + 1) := by
        rw [entryName_eq_append, List.drop_append_of_le_length (by omega)]
      rw [if_neg (not_not.mpr hmem), if_pos hmem, ← hdrop]
      rfl
    · rw [if_pos hmem, if_neg hmem]

variable {src}

theorem PlainName.zero_notMem_entryName (hp : PlainName path) : 0 ∉ entryName s path := by
  rw [entryName]
  split_ifs
  · simp [hp.zero_notMem]
  · exact hp.zero_notMem

/-- The fields `th_set_path` leaves, in its three cases. -/
theorem thSetPath_cases (hs : s.IsPacked) (hp : PlainName path) {h : FileHeader}
    (hset : h = thSetPath path (statHeader src s)) :
    h.pointers = .zero 16 ∧ h.size = (statHeader src s).size ∧
    ((path.length ≤ 100 ∧ h.name = (Chars.zero 100).copy (snprintf 100 (entryName s path)) ∧
        h.namePrefix = .zero 155) ∨
      (¬ path.length ≤ 100 ∧ 47 ∈ path.drop (path.length - 101) ∧
        h.name = (Chars.zero 100).copy (snprintf 100 ((entryName s path).drop (cutAt path + 1))) ∧
        h.namePrefix = (Chars.zero 155).copy (snprintf (min (cutAt path + 1) 155) path)) ∨
      (¬ path.length ≤ 100 ∧ 47 ∉ path.drop (path.length - 101) ∧ h.name = .zero 100 ∧
        h.namePrefix = .zero 155)) := by
  obtain ⟨hname, hprefix, hpointers⟩ := statHeader_empty (s := s) src
  have hmin : (if cutAt path + 1 < 155 then cutAt path + 1 else 155) = min (cutAt path + 1) 155 := by
    split_ifs <;> omega
  rw [thSetPath_statHeader src hs hp, hmin] at hset
  by_cases hlen : path.length ≤ 100
  · rw [if_pos hlen] at hset
    subst hset
    exact ⟨hpointers, rfl, .inl ⟨hlen, rfl, hprefix⟩⟩
  · rw [if_neg hlen] at hset
    by_cases hmem : 47 ∈ path.drop (path.length - 101)
    · rw [if_pos hmem] at hset
      subst hset
      exact ⟨hpointers, rfl, .inr (.inl ⟨hlen, hmem, rfl, rfl⟩)⟩
    · rw [if_neg hmem] at hset
      subst hset
      exact ⟨hpointers, rfl, .inr (.inr ⟨hlen, hmem, hname, hprefix⟩)⟩

/-- The pathname a header is read as. -/
theorem thGetPathname_path {head : FileHeader} (hs : s.IsPacked) (hp : PlainName path)
    (hsame : SameFields head (thSetPath path (statHeader src s))) (memory : ℕ → Bytes) :
    thGetPathname memory (thFinish head).image = saferNameSuffix (storedName s path) := by
  have hzero := hp.zero_notMem_entryName (s := s)
  have hempty : (Chars.zero 155).bytes.head? = some 0 := rfl
  obtain ⟨hpointers, -, hcases⟩ := @thSetPath_cases src s path hs hp _ rfl
  rw [← hsame.name, ← hsame.namePrefix] at hcases
  rw [thGetPathname_thFinish (hsame.pointers.trans hpointers), storedName]
  rcases hcases with ⟨hlen, hname, hprefix⟩ | ⟨hlen, hmem, hname, hprefix⟩ |
    ⟨hlen, hmem, hname, hprefix⟩
  · rw [hname, hprefix, if_pos hempty, if_pos hlen, cstr_snprintf hzero (by decide) le_rfl]
  · obtain ⟨hpos, hlt, -⟩ := hp.cutAt_spec hmem
    obtain ⟨b, hb⟩ : ∃ b, path.head? = some b :=
      Option.ne_none_iff_exists'.mp (by simpa using hp.ne_nil)
    have hfirst := head?_snprintf (n := 155) (m := min (cutAt path + 1) 155) (by omega) (by omega) hb
    have hbne : b ≠ 0 := fun h => hp.zero_notMem (h ▸ List.mem_of_head? hb)
    have hmin : min (cutAt path + 1) 155 - 1 = min (cutAt path) 154 := by omega
    rw [hname, hprefix, if_neg (by rw [hfirst]; simpa using hbne), if_neg hlen, if_pos hmem,
      cstr_snprintf hp.zero_notMem (by omega) (by omega), hmin,
      cstr_snprintf (fun h => hzero (List.mem_of_mem_drop h)) (by decide) le_rfl]
  · rw [hname, hprefix, if_pos hempty, if_neg hlen, if_neg hmem]
    rfl

/-- A name that fits leaves a header that is not taken for a block of zeros. -/
theorem head?_name_path {head : FileHeader} (hs : s.IsPacked) (hp : PlainName path)
    (hsame : SameFields head (thSetPath path (statHeader src s))) (hr : Representable s path) :
    (Par.name (thFinish head).image).head? ≠ some 0 := by
  have hzero := hp.zero_notMem_entryName (s := s)
  have hname' : Par.name (thFinish head).image = head.name.bytes := name_image _
  have hnonzero : ∀ text : Bytes, text ≠ [] → 0 ∉ text →
      ((Chars.zero 100).copy (snprintf 100 text)).bytes.head? ≠ some 0 := by
    intro text hne htext
    obtain ⟨b, hb⟩ : ∃ b, text.head? = some b :=
      Option.ne_none_iff_exists'.mp (by simpa using hne)
    rw [head?_snprintf (by decide) le_rfl hb]
    intro h
    exact htext (Option.some.inj h ▸ List.mem_of_head? hb)
  have hle : path.length ≤ (entryName s path).length := by
    rw [entryName_eq_append, List.length_append]
    omega
  obtain ⟨-, -, hcases⟩ := @thSetPath_cases src s path hs hp _ rfl
  rw [← hsame.name] at hcases
  rw [hname']
  rcases hcases with ⟨hlen, hname, -⟩ | ⟨hlen, hmem, hname, -⟩ | ⟨hlen, hmem, -, -⟩
  · have hpos := List.length_pos_iff.mpr hp.ne_nil
    rw [hname]
    exact hnonzero _ (List.length_pos_iff.mp (by omega)) hzero
  · obtain ⟨-, hlt, -⟩ := hp.cutAt_spec hmem
    rw [hname]
    refine hnonzero _ (List.length_pos_iff.mp ?_) fun h => hzero (List.mem_of_mem_drop h)
    rw [List.length_drop]
    omega
  · rcases hr with hr | ⟨-, hr, -⟩
    · omega
    · exact absurd hr hmem

end Header

/-! ## Names that are refused and names that are not -/

/-- Making a name safe never makes it longer, but for the empty one. -/
theorem length_saferNameSuffix_le (name : Bytes) :
    (saferNameSuffix name).length ≤ max 1 name.length := by
  have hdots : ∀ p t : Bytes, p.length ≤ t.length →
      (skipDots p t).1.length ≤ (skipDots p t).2.length ∧ (skipDots p t).2.length ≤ t.length := by
    intro p t
    fun_induction skipDots p t with
    | case1 a b c p t h ih =>
      intro hle
      simp only [List.length_cons] at hle
      have := ih le_rfl
      omega
    | case2 a b c p t h => exact fun hle => ⟨hle, le_rfl⟩
    | case3 p t h => exact fun hle => ⟨hle, le_rfl⟩
  have hpart : ∀ p : Bytes, (skipPart p).length ≤ p.length := by
    intro p
    induction p with
    | nil => exact le_rfl
    | cons b p ih =>
      rw [skipPart]
      split_ifs
      · exact ih.trans (Nat.le_succ _)
      · exact Nat.le_succ _
  have hscan : ∀ (n : ℕ) (p t : Bytes), p.length ≤ t.length → (scan n p t).length ≤ t.length := by
    intro n
    induction n with
    | zero => exact fun p t _ => le_rfl
    | succ n ih =>
      intro p t hle
      rw [scan]
      split_ifs
      · exact le_rfl
      · obtain ⟨hrest, hcut⟩ := hdots p t hle
        exact (ih _ _ ((hpart _).trans hrest)).trans hcut
  have hdrop : (name.dropWhile (· = 47)).length ≤ name.length :=
    (List.dropWhile_suffix _).length_le
  rw [saferNameSuffix]
  split_ifs
  · exact le_max_left _ _
  · exact ((hscan _ _ _ le_rfl).trans hdrop).trans (le_max_right _ _)

/-- The header block says which file it is for: it is read as the name it was given, and not as a
block of zeros. -/
def Identifies (memory : ℕ → Bytes) (b path : Bytes) (s : Stat) : Prop :=
  thGetPathname memory b = entryName s path ∧ (Par.name b).head? ≠ some 0

/-- **The header of a file is read as its name exactly if the name is representable.** A call that
succeeds says nothing about it. -/
theorem parAppendFile_identifies_iff {src : Source} {t t' : Packing} {realname : Bytes}
    {savename : Option Bytes} {s : Stat} (hs : src.lstat realname = some s)
    (hpath : PlainName (savename.getD realname))
    (happend : parAppendFile src t realname savename = some t') (memory : ℕ → Bytes) :
    Identifies memory (t'.blocks.getD t.blocks.length []) (savename.getD realname) s
      ↔ Representable s (savename.getD realname) := by
  obtain ⟨s', head, content, hs', hpacked, hsame, hblocks, -⟩ := parAppendFile_some happend
  obtain rfl : s' = s := Option.some.inj (hs'.symm.trans hs)
  have hblock : t'.blocks.getD t.blocks.length [] = (thFinish head).image := by
    rw [hblocks]
    simp
  have hread := thGetPathname_path hpacked hpath hsame memory
  obtain ⟨hwhole, hshort⟩ := storedName_spec (s := s') hpath
  rw [hblock, Identifies, hread]
  constructor
  · rintro ⟨hsame', -⟩
    by_contra hr
    obtain ⟨hlt, hone⟩ := hshort hr
    have hle := length_saferNameSuffix_le (storedName s' (savename.getD realname))
    rw [hsame'] at hle
    omega
  · intro hr
    refine ⟨?_, head?_name_path hpacked hpath hsame hr⟩
    have hne : entryName s' (savename.getD realname) ≠ [] := by
      rw [entryName_eq_append]
      simp [hpath.ne_nil]
    rw [hwhole hr]
    exact saferNameSuffix_self hne (safe_entryName _ hpath.ne_nil ⟨hpath.head, hpath.dots⟩)

/-- A name that just fills its field, and one that is split between the two fields. -/
theorem parAppendFile_identifies_small :
    (∃ t', parAppendFile smallSource parCreate (ascii "./a") (some (List.replicate 99 97)) = some t' ∧
      Identifies (fun _ => []) (t'.blocks.getD 0 []) (List.replicate 99 97) smallFile.stat) ∧
    ∃ t', parAppendFile smallSource parCreate (ascii "./a")
        (some (List.replicate 150 98 ++ 47 :: List.replicate 99 97)) = some t' ∧
      Identifies (fun _ => []) (t'.blocks.getD 0 [])
        (List.replicate 150 98 ++ 47 :: List.replicate 99 97) smallFile.stat := by
  have hiff : ∀ path : Bytes, PlainName path → Representable smallFile.stat path →
      (parAppendFile smallSource parCreate (ascii "./a") (some path)).isSome = true →
      ∃ t', parAppendFile smallSource parCreate (ascii "./a") (some path) = some t' ∧
        Identifies (fun _ => []) (t'.blocks.getD 0 []) path smallFile.stat := by
    intro path hpath hr hsome
    obtain ⟨t', happend⟩ := Option.isSome_iff_exists.mp hsome
    have hname : PlainName ((some path).getD (ascii "./a")) := hpath
    have happly := parAppendFile_identifies_iff (s := smallFile.stat) rfl hname happend fun _ => []
    exact ⟨t', happend, happly.mpr hr⟩
  constructor
  · exact hiff _ ⟨by decide, by decide, by decide, by decide, by decide⟩ (by decide)
      (by decide +kernel)
  · exact hiff _ ⟨by decide, by decide, by decide +kernel, by decide +kernel, by decide +kernel⟩
      (by decide +kernel) (by decide +kernel)

/-- A name of 100 bytes is accepted and loses its last byte. -/
theorem hundred_bytes_truncated :
    ∃ t', parAppendFile smallSource parCreate (ascii "./a") (some (List.replicate 100 97)) = some t' ∧
      ¬ Identifies (fun _ => []) (t'.blocks.getD 0 []) (List.replicate 100 97) smallFile.stat := by
  have hsome : (parAppendFile smallSource parCreate (ascii "./a")
      (some (List.replicate 100 97))).isSome = true := by decide +kernel
  obtain ⟨t', happend⟩ := Option.isSome_iff_exists.mp hsome
  refine ⟨t', happend, ?_⟩
  obtain ⟨s, head, content, hs, hpacked, hsame, hblocks, -⟩ := parAppendFile_some happend
  obtain rfl : s = smallFile.stat := (Option.some.inj hs).symm
  have hblock : t'.blocks.getD 0 [] = (thFinish head).image := by
    rw [hblocks]
    rfl
  have hpath : PlainName ((some (List.replicate 100 97)).getD (ascii "./a")) :=
    ⟨by decide, by decide, by decide, by decide, by decide⟩
  have hshort : saferNameSuffix (storedName smallFile.stat (List.replicate 100 97))
      ≠ entryName smallFile.stat (List.replicate 100 97) := by decide +kernel
  rintro ⟨hread, -⟩
  rw [hblock, thGetPathname_path hpacked hpath hsame] at hread
  exact hshort hread

end Mavicona.Par
