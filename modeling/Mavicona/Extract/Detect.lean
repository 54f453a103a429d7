import Mathlib.Data.List.Lex
import Mavicona.Common.OrderedMap
import Mavicona.Extract.MimeTypes

/-!
# The type of a message

Reference: `extract/detect.h`, `extract/detect.cpp` (`loadMime`, `parseMagic`, `mimeFromBuffer`,
`mimeFromExtension`), `extract/extractor.cpp` (`parseData`).

What libmagic says of the content is looked up in a table with `operator[]`, which adds a null pointer
under a type that is not there. The extension of the file is looked up after that, by a loop over all
entries of the table, and the loop reads every one of them.
-/

namespace Mavicona.Extract

open Bytes OrderedMap

/-- Characters of a `std::string` are compared as unsigned bytes. -/
local instance unsignedOrder : LinearOrder UInt8 where
  le_refl := UInt8.le_refl
  le_trans _ _ _ := UInt8.le_trans
  le_antisymm _ _ := UInt8.le_antisymm
  le_total := UInt8.le_total
  lt_iff_le_not_ge a b := by
    rw [UInt8.not_le]
    exact ⟨fun h => ⟨UInt8.le_of_lt h, h⟩, And.right⟩
  toDecidableLE := inferInstance

/-- What keeps the detection from returning: the exception `std::out_of_range`, or a null pointer that
is followed. -/
inductive DetectFault
  | outOfRange
  | nullPointer
deriving DecidableEq, Repr

/-- `Detect`; `none` in the table is a null pointer. -/
structure Detect where
  charset : Bytes := []
  mimeMatch : Option Mime := none
  mimeList : List (Bytes × Option Mime)

/-- Enter a type. -/
def enter (m : List (Bytes × Option Mime)) (mime : Mime) : List (Bytes × Option Mime) :=
  insert mime.type (some mime) m

/-- `Detect::loadMime`. -/
def loadMime : List (Bytes × Option Mime) := mimeTypes.foldl enter []

namespace Detect

/-- The constructor. -/
def construct : Detect where
  mimeList := loadMime

/-- `mimeList[type]`. -/
def entry (d : Detect) (type : Bytes) : Option Mime × Detect :=
  match find type d.mimeList with
  | some mime => (mime, d)
  | none => (none, { d with mimeList := insert type none d.mimeList })

/-- `Detect::parseCharset`. -/
def parseCharset (d : Detect) (charset : Bytes) : Detect :=
  let pos := charset.idxOf 61
  if pos < charset.length then { d with charset := charset.drop (pos + 1) } else d

/-- `Detect::parseMagic`. -/
def parseMagic (d : Detect) (str : Bytes) : Except DetectFault Detect :=
  let pos := str.idxOf 59
  if pos < str.length then
    let (mime, d) := d.entry (str.take pos)
    let d := { d with mimeMatch := mime }
    if mime.isNone then .ok d
    else
      match str[pos + 1]? with
      | none => .error .outOfRange
      | some c =>
        let pos := if c = 32 then pos + 1 else pos
        .ok (d.parseCharset (str.drop (pos + 1)))
  else .ok d

/-- `Detect::mimeFromBuffer`, for what `magic_buffer` returns. -/
def mimeFromBuffer (d : Detect) (rs : Option Bytes) : Except DetectFault Detect :=
  match rs with
  | none => .ok d
  | some rs => d.parseMagic rs

/-- A turn of the loop of `Detect::mimeFromExtension`. -/
def tryItem (extension : Bytes) (d : Detect) (item : Bytes × Option Mime) :
    Except DetectFault Detect :=
  match item.2 with
  | none => .error .nullPointer
  | some mime => .ok (if extension = mime.extension then { d with mimeMatch := some mime } else d)

/-- `Detect::mimeFromExtension`. -/
def mimeFromExtension (d : Detect) (extension : Bytes) : Except DetectFault Detect :=
  d.mimeList.foldlM (tryItem extension) d

end Detect

/-- The detection step of `parseData`. -/
def detect (rs : Option Bytes) (extension : Bytes) : Except DetectFault Detect := do
  let detector ← Detect.construct.mimeFromBuffer rs
  if detector.mimeMatch.isNone && !extension.isEmpty then detector.mimeFromExtension extension
  else return detector

/-! ## What the step is for -/

/-- The part of an answer before the semicolon. -/
def typePart (rs : Option Bytes) : Option Bytes :=
  rs.bind fun str => if 59 ∈ str then some (str.take (str.idxOf 59)) else none

/-- An entry of the table. -/
def Known (mime : Mime) : Prop := (mime.type, some mime) ∈ loadMime

/-- The table has the keys it was built with, and the match is an entry of the given type or, failing
that, of the given extension, if there is any. -/
structure Detected (rs : Option Bytes) (extension : Bytes) (d : Detect) : Prop where
  keys : ∀ key, key ∈ d.mimeList.map Prod.fst ↔ key ∈ loadMime.map Prod.fst
  sound : ∀ mime, d.mimeMatch = some mime → Known mime ∧
    (typePart rs = some mime.type ∨
      (∀ mime', Known mime' → typePart rs ≠ some mime'.type) ∧ mime.extension = extension)
  complete : extension ≠ [] → (∃ mime, Known mime ∧ mime.extension = extension) → d.mimeMatch ≠ none

/-- The detection returns, in a known type or in none. -/
def Detects (rs : Option Bytes) (extension : Bytes) : Prop :=
  ∃ d, detect rs extension = .ok d ∧ Detected rs extension d

/-- A semicolon of an answer stands behind a type of the table and before something. -/
def Expected (rs : Option Bytes) : Prop :=
  ∀ str, rs = some str → 59 ∈ str →
    str.take (str.idxOf 59) ∈ loadMime.map Prod.fst ∧ str.idxOf 59 + 1 < str.length

/-! ## The table -/

section Table

/-- A type is under its own name. -/
theorem mem_loadMime {e : Bytes × Option Mime} (h : e ∈ loadMime) :
    ∃ mime ∈ mimeTypes, e = (mime.type, some mime) := by
  have hall : ∀ (types : List Mime) (m : List (Bytes × Option Mime)), e ∈ types.foldl enter m →
      e ∈ m ∨ ∃ mime ∈ types, e = (mime.type, some mime) := by
    intro types
    induction types with
    | nil => exact fun m he => .inl he
    | cons mime types ih =>
      intro m he
      rcases ih _ he with he | ⟨mime', hmem, he⟩
      · rcases mem_of_mem_insert he with rfl | he
        · exact .inr ⟨mime, List.mem_cons_self, rfl⟩
        · exact .inl he
      · exact .inr ⟨mime', List.mem_cons_of_mem _ hmem, he⟩
  exact (hall mimeTypes [] h).resolve_left List.not_mem_nil

theorem known_of_mem {key : Bytes} {x : Option Mime} (h : (key, x) ∈ loadMime) :
    ∃ mime, x = some mime ∧ mime.type = key ∧ Known mime := by
  obtain ⟨mime, -, he⟩ := mem_loadMime h
  obtain ⟨rfl, rfl⟩ := Prod.mk.inj he
  exact ⟨mime, rfl, rfl, h⟩

/-- A type that is in the table is found there. -/
theorem find_of_mem_keys {key : Bytes} (h : key ∈ loadMime.map Prod.fst) :
    ∃ mime, find key loadMime = some (some mime) ∧ mime.type = key ∧ Known mime := by
  obtain ⟨e, hmem, rfl⟩ := List.mem_map.mp h
  obtain ⟨x, hfind⟩ := Option.ne_none_iff_exists'.mp (find_ne_none hmem)
  obtain ⟨mime, rfl, htype, hknown⟩ := known_of_mem (mem_of_find_eq_some hfind)
  exact ⟨mime, hfind, htype, hknown⟩

/-- Every type is in the table. -/
theorem mem_keys_loadMime {mime : Mime} (h : mime ∈ mimeTypes) :
    mime.type ∈ loadMime.map Prod.fst := by
  have hkeep : ∀ (types : List Mime) (m : List (Bytes × Option Mime)), find mime.type m ≠ none →
      find mime.type (types.foldl enter m) ≠ none := by
    intro types
    induction types with
    | nil => exact fun m hm => hm
    | cons mime' types ih =>
      intro m hm
      refine ih _ ?_
      by_cases htype : mime.type = mime'.type
      · rw [enter, htype, find_insert_self]
        exact Option.some_ne_none _
      · rw [enter, find_insert_of_ne htype]
        exact hm
  obtain ⟨before, after, hsplit⟩ := List.append_of_mem h
  have hfound : find mime.type loadMime ≠ none := by
    rw [loadMime, hsplit, List.foldl_append, List.foldl_cons]
    refine hkeep after _ ?_
    rw [enter, find_insert_self]
    exact Option.some_ne_none _
  obtain ⟨x, hx⟩ := Option.ne_none_iff_exists'.mp hfound
  exact List.mem_map_of_mem (mem_of_find_eq_some hx)

theorem find_of_notMem_keys {key : Bytes} (h : key ∉ loadMime.map Prod.fst) :
    find key loadMime = none := by
  by_contra hfind
  obtain ⟨x, hx⟩ := Option.ne_none_iff_exists'.mp hfind
  exact h (List.mem_map_of_mem (mem_of_find_eq_some hx))

end Table

/-! ## The answer of libmagic -/

section Magic

variable {d : Detect} {str : Bytes}

theorem entry_of_some {key : Bytes} {x : Option Mime} (h : find key d.mimeList = some x) :
    d.entry key = (x, d) := by
  rw [Detect.entry, h]

theorem entry_of_none {key : Bytes} (h : find key d.mimeList = none) :
    d.entry key = (none, { d with mimeList := insert key none d.mimeList }) := by
  rw [Detect.entry, h]

theorem parseCharset_eq (d : Detect) (charset : Bytes) :
    ∃ charset', d.parseCharset charset = { d with charset := charset' } := by
  unfold Detect.parseCharset
  dsimp only
  split_ifs
  · exact ⟨_, rfl⟩
  · exact ⟨d.charset, rfl⟩

/-- Without a semicolon nothing is looked up. -/
theorem parseMagic_of_notMem (h : 59 ∉ str) : d.parseMagic str = .ok d :=
  if_neg (mt List.idxOf_lt_length_iff.mp h)

/-- A type that is not in the table is added to it. -/
theorem parseMagic_of_unknown (h : 59 ∈ str) (hkey : find (str.take (str.idxOf 59)) d.mimeList = none) :
    d.parseMagic str = .ok { d with
      mimeMatch := none, mimeList := insert (str.take (str.idxOf 59)) none d.mimeList } := by
  rw [Detect.parseMagic, if_pos (List.idxOf_lt_length_iff.mpr h), entry_of_none hkey]
  rfl

/-- A type of the table is the match. -/
theorem parseMagic_of_known {mime : Mime} (h : 59 ∈ str)
    (hkey : find (str.take (str.idxOf 59)) d.mimeList = some (some mime))
    (hlen : str.idxOf 59 + 1 < str.length) :
    ∃ charset, d.parseMagic str = .ok { d with charset := charset, mimeMatch := some mime } := by
  rw [Detect.parseMagic, if_pos (List.idxOf_lt_length_iff.mpr h), entry_of_some hkey,
    List.getElem?_eq_getElem hlen]
  dsimp only [Option.isNone_some]
  rw [if_neg Bool.false_ne_true]
  obtain ⟨charset, hcharset⟩ := parseCharset_eq { d with mimeMatch := some mime }
    (str.drop ((if str[str.idxOf 59 + 1] = 32 then str.idxOf 59 + 1 else str.idxOf 59) + 1))
  exact ⟨charset, by rw [hcharset]⟩

/-- An answer that ends at the semicolon is read past its end. -/
theorem parseMagic_of_ended {mime : Mime} (h : 59 ∈ str)
    (hkey : find (str.take (str.idxOf 59)) d.mimeList = some (some mime))
    (hlen : ¬ str.idxOf 59 + 1 < str.length) : d.parseMagic str = .error .outOfRange := by
  rw [Detect.parseMagic, if_pos (List.idxOf_lt_length_iff.mpr h), entry_of_some hkey,
    List.getElem?_eq_none (Nat.le_of_not_lt hlen)]
  rfl

end Magic

/-! ## The extension -/

section Extension

variable {extension : Bytes} {items : List (Bytes × Option Mime)}

/-- A null pointer in the table is followed. -/
theorem foldlM_tryItem_of_null {key : Bytes} (h : (key, none) ∈ items) (d : Detect) :
    items.foldlM (Detect.tryItem extension) d = .error .nullPointer := by
  induction items generalizing d with
  | nil => exact absurd h List.not_mem_nil
  | cons item items ih =>
    obtain ⟨key', x⟩ := item
    rw [List.foldlM_cons]
    cases x with
    | none => rfl
    | some mime =>
      have hrest : (key, none) ∈ items := by simpa using h
      exact ih hrest _

/-- In a table without null pointers the loop finds an entry of the extension, if there is one. -/
theorem foldlM_tryItem (h : ∀ item ∈ items, item.2 ≠ none) (d : Detect) :
    ∃ d', items.foldlM (Detect.tryItem extension) d = .ok d' ∧ d'.mimeList = d.mimeList ∧
      (∀ mime, d'.mimeMatch = some mime → d.mimeMatch = some mime ∨
        (∃ key, (key, some mime) ∈ items) ∧ mime.extension = extension) ∧
      (d.mimeMatch ≠ none ∨ (∃ key mime, (key, some mime) ∈ items ∧ mime.extension = extension) →
        d'.mimeMatch ≠ none) := by
  induction items generalizing d with
  | nil => exact ⟨d, rfl, rfl, fun mime hmime => .inl hmime, fun hd => by simpa using hd⟩
  | cons item items ih =>
    obtain ⟨key, x⟩ := item
    obtain ⟨mime, rfl⟩ : ∃ mime, x = some mime :=
      Option.ne_none_iff_exists'.mp (h (key, x) List.mem_cons_self)
    obtain ⟨d', hfold, hlist, hsound, hcomplete⟩ := ih
      (fun item hitem => h item (List.mem_cons_of_mem _ hitem))
      (if extension = mime.extension then { d with mimeMatch := some mime } else d)
    refine ⟨d', hfold, hlist.trans (by split_ifs <;> rfl), ?_, ?_⟩
    · intro mime' hmime'
      rcases hsound mime' hmime' with hbefore | ⟨⟨key', hmem⟩, hext⟩
      · split_ifs at hbefore with hext
        · obtain rfl := Option.some.inj hbefore
          exact .inr ⟨⟨key, List.mem_cons_self⟩, hext.symm⟩
        · exact .inl hbefore
      · exact .inr ⟨⟨key', List.mem_cons_of_mem _ hmem⟩, hext⟩
    · intro hd
      refine hcomplete ?_
      by_cases hext : extension = mime.extension
      · rw [if_pos hext]
        exact .inl (Option.some_ne_none mime)
      · rw [if_neg hext]
        rcases hd with hd | ⟨key', mime', hmem, hext'⟩
        · exact .inl hd
        · rcases List.mem_cons.mp hmem with heq | hmem
          · obtain ⟨-, heq⟩ := Prod.mk.inj heq
            obtain rfl := Option.some.inj heq
            exact absurd hext'.symm hext
          · exact .inr ⟨key', mime', hmem, hext'⟩

end Extension

/-! ## The detection step -/

section Step

variable {str extension : Bytes} {rs : Option Bytes} {d : Detect}

theorem construct_mimeList : Detect.construct.mimeList = loadMime := rfl

theorem construct_mimeMatch : Detect.construct.mimeMatch = none := rfl

theorem detect_eq (h : Detect.construct.mimeFromBuffer rs = .ok d) :
    detect rs extension
      = if d.mimeMatch = none ∧ extension ≠ [] then d.mimeFromExtension extension else .ok d := by
  rw [detect, h]
  dsimp only [Except.bind, bind]
  cases d.mimeMatch <;> cases extension <;> rfl

theorem mimeFromBuffer_of_unknown (h : 59 ∈ str)
    (hkey : str.take (str.idxOf 59) ∉ loadMime.map Prod.fst) :
    Detect.construct.mimeFromBuffer (some str) = .ok { Detect.construct with
      mimeMatch := none, mimeList := insert (str.take (str.idxOf 59)) none loadMime } :=
  parseMagic_of_unknown h (find_of_notMem_keys hkey)

/-- A type that is not in the table, and an extension: the null pointer is followed. -/
theorem detect_of_unknown (h : 59 ∈ str) (hkey : str.take (str.idxOf 59) ∉ loadMime.map Prod.fst)
    (hext : extension ≠ []) : detect (some str) extension = .error .nullPointer := by
  rw [detect_eq (mimeFromBuffer_of_unknown h hkey), if_pos ⟨rfl, hext⟩]
  exact foldlM_tryItem_of_null (mem_of_find_eq_some find_insert_self) _

/-- A type that is not in the table: the table changes, or the null pointer is followed. -/
theorem not_detects_of_unknown (h : 59 ∈ str)
    (hkey : str.take (str.idxOf 59) ∉ loadMime.map Prod.fst) : ¬ Detects (some str) extension := by
  rintro ⟨d, hdetect, hdetected⟩
  by_cases hext : extension = []
  · rw [detect_eq (mimeFromBuffer_of_unknown h hkey), if_neg fun hboth => hboth.2 hext] at hdetect
    obtain rfl := Except.ok.inj hdetect
    exact hkey ((hdetected.keys _).mp (List.mem_map_of_mem (mem_of_find_eq_some find_insert_self)))
  · rw [detect_of_unknown h hkey hext] at hdetect
    exact absurd hdetect (by simp)

/-- A type of the table, and nothing behind the semicolon: the detection throws. -/
theorem detect_of_ended (h : 59 ∈ str) (hkey : str.take (str.idxOf 59) ∈ loadMime.map Prod.fst)
    (hlen : ¬ str.idxOf 59 + 1 < str.length) : detect (some str) extension = .error .outOfRange := by
  obtain ⟨mime, hfind, -, -⟩ := find_of_mem_keys hkey
  have hbuffer : Detect.construct.mimeFromBuffer (some str) = .error .outOfRange :=
    parseMagic_of_ended h hfind hlen
  rw [detect, hbuffer]
  rfl

theorem typePart_of_mem (h : 59 ∈ str) : typePart (some str) = some (str.take (str.idxOf 59)) :=
  if_pos h

/-- A type of the table is the match. -/
theorem detects_of_known (h : 59 ∈ str) (hkey : str.take (str.idxOf 59) ∈ loadMime.map Prod.fst)
    (hlen : str.idxOf 59 + 1 < str.length) : Detects (some str) extension := by
  obtain ⟨mime, hfind, htype, hknown⟩ := find_of_mem_keys hkey
  obtain ⟨charset, hbuffer⟩ : ∃ charset, Detect.construct.mimeFromBuffer (some str)
      = .ok { Detect.construct with charset := charset, mimeMatch := some mime } :=
    parseMagic_of_known h hfind hlen
  refine ⟨_, (detect_eq hbuffer).trans (if_neg fun hboth => Option.some_ne_none mime hboth.1), ?_⟩
  refine ⟨fun key => Iff.rfl, fun mime' hmime' => ?_, fun _ _ => Option.some_ne_none mime⟩
  obtain rfl := Option.some.inj hmime'
  exact ⟨hknown, .inl ((typePart_of_mem h).trans (congrArg some htype.symm))⟩

/-- What is detected has the type of the answer. -/
theorem detect_of_known (h : 59 ∈ str) (hkey : str.take (str.idxOf 59) ∈ loadMime.map Prod.fst)
    (hlen : str.idxOf 59 + 1 < str.length) : ∃ d mime, detect (some str) extension = .ok d ∧
      d.mimeMatch = some mime ∧ mime.type = str.take (str.idxOf 59) := by
  obtain ⟨mime, hfind, htype, -⟩ := find_of_mem_keys hkey
  obtain ⟨charset, hbuffer⟩ : ∃ charset, Detect.construct.mimeFromBuffer (some str)
      = .ok { Detect.construct with charset := charset, mimeMatch := some mime } :=
    parseMagic_of_known h hfind hlen
  exact ⟨_, mime, (detect_eq hbuffer).trans (if_neg fun hboth => Option.some_ne_none mime hboth.1),
    rfl, htype⟩

/-- Without a type the extension decides. -/
theorem detects_of_untyped (hbuffer : Detect.construct.mimeFromBuffer rs = .ok .construct)
    (htype : typePart rs = none) : Detects rs extension := by
  have huntyped : ∀ mime', Known mime' → typePart rs ≠ some mime'.type := fun mime' _ =>
    htype ▸ (Option.some_ne_none _).symm
  by_cases hext : extension = []
  · refine ⟨_, (detect_eq hbuffer).trans (if_neg fun hboth => hboth.2 hext), ?_⟩
    refine ⟨fun key => Iff.rfl, fun mime hmime => ?_, fun hne => absurd hext hne⟩
    rw [construct_mimeMatch] at hmime
    exact absurd hmime.symm (Option.some_ne_none mime)
  · have hnonnull : ∀ item ∈ Detect.construct.mimeList, item.2 ≠ none := by
      rintro ⟨key, x⟩ hitem
      obtain ⟨mime, rfl, -, -⟩ := known_of_mem hitem
      exact Option.some_ne_none mime
    obtain ⟨d, hfold, hlist, hsound, hcomplete⟩ :=
      @foldlM_tryItem extension _ hnonnull .construct
    refine ⟨d, (detect_eq hbuffer).trans ((if_pos ⟨rfl, hext⟩).trans hfold), ?_⟩
    refine ⟨fun key => by rw [hlist, construct_mimeList], fun mime hmime => ?_, ?_⟩
    · rcases hsound mime hmime with hbefore | ⟨⟨key, hmem⟩, hmext⟩
      · rw [construct_mimeMatch] at hbefore
        exact absurd hbefore.symm (Option.some_ne_none mime)
      · obtain ⟨mime', heq, -, hknown⟩ := known_of_mem hmem
        obtain rfl := Option.some.inj heq
        exact ⟨hknown, .inr ⟨huntyped, hmext⟩⟩
    · rintro - ⟨mime, hknown, hmext⟩
      exact hcomplete (.inr ⟨mime.type, mime, hknown, hmext⟩)

/-- **When the detection ends in a known type or in none.** -/
theorem detects_iff (rs : Option Bytes) (extension : Bytes) : Detects rs extension ↔ Expected rs := by
  constructor
  · rintro hdetects str rfl hsemi
    have hkey : str.take (str.idxOf 59) ∈ loadMime.map Prod.fst := by
      by_contra hkey
      exact not_detects_of_unknown hsemi hkey hdetects
    refine ⟨hkey, ?_⟩
    by_contra hlen
    obtain ⟨d, hdetect, -⟩ := hdetects
    rw [detect_of_ended hsemi hkey hlen] at hdetect
    exact absurd hdetect (by simp)
  · intro hexpected
    cases rs with
    | none => exact detects_of_untyped rfl rfl
    | some str =>
      by_cases hsemi : 59 ∈ str
      · obtain ⟨hkey, hlen⟩ := hexpected str rfl hsemi
        exact detects_of_known hsemi hkey hlen
      · exact detects_of_untyped (parseMagic_of_notMem hsemi) (if_neg hsemi)

/-- A shell script in a file with the extension of a shell script. -/
theorem not_detects_shellscript :
    ¬ Detects (some (utf8 "text/x-shellscript; charset=us-ascii")) (utf8 ".sh") := by
  rintro ⟨d, hdetect, -⟩
  have hpart : (utf8 "text/x-shellscript; charset=us-ascii").take
      ((utf8 "text/x-shellscript; charset=us-ascii").idxOf 59)
      = [116, 101, 120, 116, 47, 120, 45, 115, 104, 101, 108, 108, 115, 99, 114, 105, 112, 116] := by
    decide +kernel
  have hunknown : (mimeTypes.all fun mime => mime.type
      ≠ [116, 101, 120, 116, 47, 120, 45, 115, 104, 101, 108, 108, 115, 99, 114, 105, 112, 116]) = true := by
    decide +kernel
  rw [detect_of_unknown (by decide +kernel) ?_ (by decide +kernel)] at hdetect
  · exact absurd hdetect (by simp)
  · rw [hpart, List.mem_map]
    rintro ⟨e, hmem, hfst⟩
    obtain ⟨mime, hmime, rfl⟩ := mem_loadMime hmem
    exact of_decide_eq_true (List.all_eq_true.mp hunknown mime hmime) hfst

end Step

end Mavicona.Extract
