import Mathlib.Data.Bool.AllAny
import Mathlib.Data.List.DropRight
import Mavicona.Common.Lines
import Mavicona.Common.Multimap
import Mavicona.Extract.Detect

/-!
# Host configuration

Reference: `common/config.h` (`ConfigFile`).

Every daemon reads its peers from a file of lines `key = value`. A comment is cut off before a line is
looked at, and what is left is skipped if there are only blanks in it: a tab is no blank there, so that
a line with nothing but a tab in front of its comment is taken for an invalid one.
-/

namespace Mavicona.Extract

open Bytes

/-- The keys are compared as strings of unsigned bytes. -/
local instance keyOrder : LinearOrder UInt8 := unsignedOrder

/-- `ConfigErrors`, as far as reading a file throws them. -/
inductive ConfigError
  | invalidSyntax (line : ℕ)
  | fileNotFound
deriving DecidableEq, Repr

/-- A blank or a tab. -/
def isBlankOrTab (b : UInt8) : Bool := b = 9 || b = 32

/-- What stands in front of the first `=`. -/
def beforeSep (s : Bytes) : Bytes := s.takeWhile (· ≠ 61)

/-- What stands behind the first `=`. -/
def behindSep (s : Bytes) : Bytes := if 61 ∈ s then (s.dropWhile (· ≠ 61)).drop 1 else s

namespace ConfigFile

/-- `removeComment`. -/
def removeComment (line : Bytes) : Bytes := (line.takeWhile (· ≠ 59)).takeWhile (· ≠ 35)

/-- `onlyWhitespace`. -/
def onlyWhitespace (line : Bytes) : Bool := line.all (· = 32)

/-- `validLine`. -/
def validLine (line : Bytes) : Bool :=
  let temp := line.dropWhile isBlankOrTab
  if temp.head? = some 61 then false else (behindSep temp).any (· ≠ 32)

/-- `extractKey`. -/
def extractKey (line : Bytes) : Bytes := (beforeSep line).takeWhile (! isBlankOrTab ·)

/-- `extractValue`. -/
def extractValue (line : Bytes) : Bytes :=
  ((behindSep line).dropWhile isBlankOrTab).rdropWhile isBlankOrTab

/-- `extractContents`. -/
def extractContents (line : Bytes) (contents : Multimap Bytes Bytes) : Multimap Bytes Bytes :=
  let temp := line.dropWhile isBlankOrTab
  contents.insert (extractKey temp) (extractValue temp)

/-- `parseLine`. -/
def parseLine (line : Bytes) (lineNo : ℕ) (contents : Multimap Bytes Bytes) :
    Except ConfigError (Multimap Bytes Bytes) :=
  if 61 ∉ line then .error (.invalidSyntax lineNo)
  else if ! validLine line then .error (.invalidSyntax lineNo)
  else .ok (extractContents line contents)

/-- The loop of `extractKeys`, with the number of the last line. -/
def readLines : ℕ → List Bytes → Multimap Bytes Bytes → Except ConfigError (Multimap Bytes Bytes)
  | _, [], contents => .ok contents
  | lineNo, line :: lines, contents =>
    if line = [] then readLines (lineNo + 1) lines contents
    else
      let temp := removeComment line
      if onlyWhitespace temp then readLines (lineNo + 1) lines contents
      else
        match parseLine temp (lineNo + 1) contents with
        | .error e => .error e
        | .ok contents => readLines (lineNo + 1) lines contents

/-- The constructor: `extractKeys` of a file, if there is one. -/
def construct (file : Option Bytes) : Except ConfigError (Multimap Bytes Bytes) :=
  match file with
  | none => .error .fileNotFound
  | some bytes => readLines 0 (getlines bytes) .empty

end ConfigFile

/-! ## Files -/

/-- A text of blanks and tabs. -/
structure Blanks where
  text : Bytes
  blank : ∀ b ∈ text, isBlankOrTab b = true

/-- A key and a value. -/
structure ConfigPair where
  key : Bytes
  value : Bytes
  key_ne_nil : key ≠ []
  key_unbroken : ∀ b ∈ key, isBlankOrTab b = false ∧ b ≠ 61 ∧ b ≠ 59 ∧ b ≠ 35 ∧ b ≠ 10
  value_ne_nil : value ≠ []
  value_unbroken : ∀ b ∈ value, b ≠ 59 ∧ b ≠ 35 ∧ b ≠ 10
  value_head : ∀ b ∈ value.head?, isBlankOrTab b = false
  value_last : ∀ b ∈ value.getLast?, isBlankOrTab b = false

/-- A line of a file. -/
inductive ConfigLine
  | pair (p : ConfigPair) (indent beforeSep behindSep trail : Blanks)
  | blank (blanks : Blanks)
  | comment (indent : Blanks) (mark : UInt8) (text : Bytes) (hmark : mark = 59 ∨ mark = 35)
    (htext : 10 ∉ text)

namespace ConfigLine

def text : ConfigLine → Bytes
  | pair p indent beforeSep behindSep trail =>
    indent.text ++ (p.key ++ (beforeSep.text ++ 61 :: (behindSep.text ++ (p.value ++ trail.text))))
  | blank blanks => blanks.text
  | comment indent mark text _ _ => indent.text ++ mark :: text

/-- The pair of a line, if it has one. -/
def pair? : ConfigLine → Option (Bytes × Bytes)
  | pair p _ _ _ _ => some (p.key, p.value)
  | _ => none

/-- No tab stands in a line of blanks or in front of a comment. -/
def TabFree : ConfigLine → Prop
  | pair _ _ _ _ _ => True
  | blank blanks => 9 ∉ blanks.text
  | comment indent _ _ _ _ => 9 ∉ indent.text

end ConfigLine

/-- A file of lines. Its last line may have no newline. -/
def configText (lines : List ConfigLine) (ended : Bool) : Bytes :=
  let text := (lines.map fun l => l.text ++ [10]).flatten
  if ended then text else text.dropLast

/-- What is to be read of a file: the pairs of its lines, and for each key the values in their
order. -/
def ReadsPairs (lines : List ConfigLine) (ended : Bool) : Prop :=
  ∃ contents, ConfigFile.construct (some (configText lines ended)) = .ok contents ∧
    contents.entries.Perm (lines.filterMap ConfigLine.pair?) ∧
    ∀ key, contents.equalRange key =
      ((lines.filterMap ConfigLine.pair?).filter fun e => e.1 = key).map Prod.snd

/-! ## One line -/

namespace ConfigFile

section Line

variable {line s : Bytes} {lines : List Bytes} {contents : Multimap Bytes Bytes} {n : ℕ}

theorem removeComment_eq_self (h : ∀ b ∈ line, b ≠ 59 ∧ b ≠ 35) : removeComment line = line := by
  have hsemicolon : line.takeWhile (· ≠ 59) = line :=
    List.takeWhile_eq_self_iff.mpr fun b hb => decide_eq_true (h b hb).1
  rw [removeComment, hsemicolon]
  exact List.takeWhile_eq_self_iff.mpr fun b hb => decide_eq_true (h b hb).2

theorem isBlankOrTab_ne {b : UInt8} (h : isBlankOrTab b = true) :
    b ≠ 61 ∧ b ≠ 59 ∧ b ≠ 35 ∧ b ≠ 10 := by
  rcases Bool.or_eq_true_iff.mp h with h | h
  · rw [of_decide_eq_true h]
    decide
  · rw [of_decide_eq_true h]
    decide

/-- What is left of a comment is its indentation. -/
theorem removeComment_comment (indent : Blanks) {mark : UInt8} (hmark : mark = 59 ∨ mark = 35)
    (text : Bytes) : removeComment (indent.text ++ mark :: text) = indent.text := by
  have hindent (b : UInt8) (hb : b ∈ indent.text) := isBlankOrTab_ne (indent.blank b hb)
  have hsemicolon : ∀ b ∈ indent.text, decide (b ≠ 59) = true := fun b hb =>
    decide_eq_true (hindent b hb).2.1
  have hhash : ∀ b ∈ indent.text, decide (b ≠ 35) = true := fun b hb =>
    decide_eq_true (hindent b hb).2.2.1
  rw [removeComment, List.takeWhile_append_of_pos hsemicolon]
  rcases hmark with rfl | rfl
  · rw [List.takeWhile_cons_of_neg (by decide), List.append_nil]
    exact List.takeWhile_eq_self_iff.mpr hhash
  · rw [List.takeWhile_cons_of_pos (by decide)]
    exact (cut_append hhash fun b hb => by rw [← Option.some.inj hb]; rfl).1

theorem onlyWhitespace_iff (blanks : Blanks) :
    onlyWhitespace blanks.text = true ↔ 9 ∉ blanks.text := by
  rw [onlyWhitespace, List.all_eq_true]
  constructor
  · exact fun h htab => absurd (h 9 htab) (by decide)
  · intro h b hb
    rcases Bool.or_eq_true_iff.mp (blanks.blank b hb) with h9 | h32
    · exact absurd (of_decide_eq_true h9 ▸ hb) h
    · exact h32

/-- A line of which only blanks are left is skipped, unless one of them is a tab. -/
theorem readLines_blanks (blanks : Blanks) (h : removeComment line = blanks.text) :
    readLines n (line :: lines) contents =
      if 9 ∈ blanks.text then .error (.invalidSyntax (n + 1))
      else readLines (n + 1) lines contents := by
  rw [readLines]
  by_cases hempty : line = []
  · have hblanks : blanks.text = [] := by rw [← h, hempty]; rfl
    rw [if_pos hempty, hblanks, if_neg List.not_mem_nil]
  · rw [if_neg hempty, h]
    dsimp only
    by_cases htab : 9 ∈ blanks.text
    · have hsep : 61 ∉ blanks.text := fun hmem => (isBlankOrTab_ne (blanks.blank 61 hmem)).1 rfl
      rw [if_neg fun hw => (onlyWhitespace_iff blanks).mp hw htab, parseLine, if_pos hsep,
        if_pos htab]
    · rw [if_pos ((onlyWhitespace_iff blanks).mpr htab), if_neg htab]

/-- A line without its indentation. -/
def body (p : ConfigPair) (before behind trail : Blanks) : Bytes :=
  p.key ++ (before.text ++ 61 :: (behind.text ++ (p.value ++ trail.text)))

section Pair

variable (p : ConfigPair) (indent before behind trail : Blanks)

theorem dropWhile_pair :
    (ConfigLine.pair p indent before behind trail).text.dropWhile isBlankOrTab =
      body p before behind trail := by
  refine (cut_append indent.blank fun b hb => ?_).2
  obtain ⟨k, key, hkey⟩ := List.exists_cons_of_ne_nil p.key_ne_nil
  rw [hkey] at hb
  obtain rfl := Option.some.inj hb
  exact (p.key_unbroken k (hkey ▸ List.mem_cons_self)).1

theorem cut_body : beforeSep (body p before behind trail) = p.key ++ before.text ∧
    behindSep (body p before behind trail) = behind.text ++ (p.value ++ trail.text) := by
  have hfront : ∀ b ∈ p.key ++ before.text, decide (b ≠ 61) = true := by
    intro b hb
    rcases List.mem_append.mp hb with hb | hb
    · exact decide_eq_true (p.key_unbroken b hb).2.1
    · exact decide_eq_true (isBlankOrTab_ne (before.blank b hb)).1
  have hstop : ∀ b ∈ (61 :: (behind.text ++ (p.value ++ trail.text))).head?,
      decide (b ≠ 61) = false := by
    intro b hb
    rw [← Option.some.inj hb]
    rfl
  have hbody : body p before behind trail =
      (p.key ++ before.text) ++ 61 :: (behind.text ++ (p.value ++ trail.text)) :=
    (List.append_assoc _ _ _).symm
  have hmem : 61 ∈ body p before behind trail := by
    rw [hbody]
    exact List.mem_append_right _ List.mem_cons_self
  have hcut := cut_append hfront hstop
  rw [beforeSep, behindSep, if_pos hmem, hbody, hcut.1, hcut.2]
  exact ⟨rfl, rfl⟩

theorem extractKey_body : extractKey (body p before behind trail) = p.key := by
  have hkey : ∀ b ∈ p.key, (! isBlankOrTab b) = true := fun b hb => by
    rw [(p.key_unbroken b hb).1]
    rfl
  have hstop : ∀ b ∈ before.text.head?, (! isBlankOrTab b) = false := fun b hb => by
    rw [before.blank b (List.mem_of_mem_head? hb)]
    rfl
  rw [extractKey, (cut_body p before behind trail).1, (cut_append hkey hstop).1]

theorem extractValue_body : extractValue (body p before behind trail) = p.value := by
  have hstart : ∀ b ∈ (p.value ++ trail.text).head?, isBlankOrTab b = false := by
    intro b hb
    obtain ⟨v, value, hvalue⟩ := List.exists_cons_of_ne_nil p.value_ne_nil
    rw [hvalue] at hb
    exact p.value_head b (hvalue ▸ hb)
  have htrail : ∀ b ∈ trail.text.reverse, isBlankOrTab b = true := fun b hb =>
    trail.blank b (List.mem_reverse.mp hb)
  have hend : ∀ b ∈ p.value.reverse.head?, isBlankOrTab b = false := by
    rw [List.head?_reverse]
    exact p.value_last
  rw [extractValue, (cut_body p before behind trail).2, (cut_append behind.blank hstart).2,
    List.rdropWhile, List.reverse_append, (cut_append htrail hend).2, List.reverse_reverse]

/-- No byte of a pair's line starts a comment, and the value is more than blanks. -/
theorem mem_pair_text {b : UInt8} (hb : b ∈ (ConfigLine.pair p indent before behind trail).text) :
    b ≠ 59 ∧ b ≠ 35 ∧ b ≠ 10 := by
  have hblanks (s : Blanks) (hb : b ∈ s.text) : b ≠ 59 ∧ b ≠ 35 ∧ b ≠ 10 :=
    (isBlankOrTab_ne (s.blank b hb)).2
  simp only [ConfigLine.text, List.mem_append, List.mem_cons] at hb
  rcases hb with hb | hb | hb | rfl | hb | hb | hb
  · exact hblanks _ hb
  · exact (p.key_unbroken b hb).2.2
  · exact hblanks _ hb
  · decide
  · exact hblanks _ hb
  · exact p.value_unbroken b hb
  · exact hblanks _ hb

theorem validLine_pair :
    validLine (ConfigLine.pair p indent before behind trail).text = true := by
  obtain ⟨k, key, hkey⟩ := List.exists_cons_of_ne_nil p.key_ne_nil
  obtain ⟨v, value, hvalue⟩ := List.exists_cons_of_ne_nil p.value_ne_nil
  have hhead : (body p before behind trail).head? ≠ some 61 := by
    rw [body, hkey]
    exact fun h => (p.key_unbroken k (hkey ▸ List.mem_cons_self)).2.1 (Option.some.inj h)
  have hv : v ≠ 32 := by
    rintro rfl
    exact absurd (p.value_head 32 (hvalue ▸ rfl)) (by decide)
  rw [validLine, dropWhile_pair]
  rw [if_neg hhead, (cut_body p before behind trail).2, List.any_eq_true]
  refine ⟨v, ?_, decide_eq_true hv⟩
  rw [hvalue]
  exact List.mem_append_right _ (List.mem_append_left _ List.mem_cons_self)

/-- A pair is stored as it is. -/
theorem readLines_pair :
    readLines n ((ConfigLine.pair p indent before behind trail).text :: lines) contents =
      readLines (n + 1) lines (contents.insert p.key p.value) := by
  have hsep : 61 ∈ (ConfigLine.pair p indent before behind trail).text := by
    simp [ConfigLine.text]
  have hcomment := removeComment_eq_self fun b hb =>
    ⟨(mem_pair_text p indent before behind trail hb).1,
      (mem_pair_text p indent before behind trail hb).2.1⟩
  have hspace : ¬ onlyWhitespace (ConfigLine.pair p indent before behind trail).text = true :=
    fun h => absurd (List.all_eq_true.mp h 61 hsep) (by decide)
  have hvalid := validLine_pair p indent before behind trail
  rw [readLines, if_neg (List.ne_nil_of_mem hsep), hcomment]
  dsimp only
  rw [if_neg hspace, parseLine, if_neg (not_not.mpr hsep), hvalid, extractContents, dropWhile_pair]
  rw [extractKey_body, extractValue_body]
  rfl

end Pair

end Line

/-! ## All lines -/

section Lines

variable {lines : List ConfigLine} {contents : Multimap Bytes Bytes} {n : ℕ}

theorem not_mem_text (l : ConfigLine) : 10 ∉ l.text := by
  have hblanks (s : Blanks) : 10 ∉ s.text := fun h => (isBlankOrTab_ne (s.blank 10 h)).2.2.2 rfl
  cases l with
  | pair p indent before behind trail =>
    exact fun h => (mem_pair_text p indent before behind trail h).2.2 rfl
  | blank blanks => exact hblanks blanks
  | comment indent mark text hmark htext =>
    rw [ConfigLine.text, List.mem_append, List.mem_cons, not_or, not_or]
    exact ⟨hblanks indent, by rcases hmark with rfl | rfl <;> decide, htext⟩

/-- What is stored of a line. -/
def store (contents : Multimap Bytes Bytes) (l : ConfigLine) : Multimap Bytes Bytes :=
  match l.pair? with
  | some (key, value) => contents.insert key value
  | none => contents

/-- One line: it is stored or skipped, or the reading ends there. -/
theorem readLines_cons (l : ConfigLine) (rest : List Bytes) :
    (l.TabFree → readLines n (l.text :: rest) contents =
      readLines (n + 1) rest (store contents l)) ∧
    (¬ l.TabFree → readLines n (l.text :: rest) contents = .error (.invalidSyntax (n + 1))) := by
  have hskip (blanks : Blanks) (hcomment : removeComment l.text = blanks.text)
      (hpair : l.pair? = none) (hfree : l.TabFree ↔ 9 ∉ blanks.text) :
      (l.TabFree → readLines n (l.text :: rest) contents =
        readLines (n + 1) rest (store contents l)) ∧
      (¬ l.TabFree → readLines n (l.text :: rest) contents = .error (.invalidSyntax (n + 1))) := by
    rw [readLines_blanks blanks hcomment, store, hpair, hfree, not_not]
    exact ⟨fun h => if_neg h, fun h => if_pos h⟩
  cases l with
  | pair p indent before behind trail =>
    exact ⟨fun _ => readLines_pair p indent before behind trail, fun h => absurd trivial h⟩
  | blank blanks =>
    refine hskip blanks (removeComment_eq_self fun b hb => ?_) rfl Iff.rfl
    exact ⟨(isBlankOrTab_ne (blanks.blank b hb)).2.1, (isBlankOrTab_ne (blanks.blank b hb)).2.2.1⟩
  | comment indent mark text hmark htext =>
    exact hskip indent (removeComment_comment indent hmark text) rfl Iff.rfl

/-- The lines are stored one after the other. -/
theorem readLines_map (h : ∀ l ∈ lines, l.TabFree) :
    readLines n (lines.map ConfigLine.text) contents = .ok (lines.foldl store contents) := by
  induction lines generalizing n contents with
  | nil => rfl
  | cons l lines ih =>
    obtain ⟨hl, hlines⟩ := List.forall_mem_cons.mp h
    rw [List.map_cons, (readLines_cons l _).1 hl, ih hlines, List.foldl_cons]

/-- The reading ends at the first line with a tab in the wrong place. -/
theorem readLines_map_error (h : ∃ l ∈ lines, ¬ l.TabFree) :
    ∃ k, readLines n (lines.map ConfigLine.text) contents = .error (.invalidSyntax k) := by
  induction lines generalizing n contents with
  | nil => exact absurd h (by simp)
  | cons l lines ih =>
    by_cases hl : l.TabFree
    · have hlines : ∃ l ∈ lines, ¬ l.TabFree := by
        obtain ⟨m, hm, hfree⟩ := h
        rcases List.mem_cons.mp hm with rfl | hm
        · exact absurd hl hfree
        · exact ⟨m, hm, hfree⟩
      rw [List.map_cons, (readLines_cons l _).1 hl]
      exact ih hlines
    · exact ⟨n + 1, (readLines_cons l _).2 hl⟩

/-- What is stored of all lines. -/
theorem foldl_store (lines : List ConfigLine) (contents : Multimap Bytes Bytes) :
    (lines.foldl store contents).entries.Perm
        (contents.entries ++ lines.filterMap ConfigLine.pair?) ∧
      ∀ key, (lines.foldl store contents).equalRange key = contents.equalRange key ++
        ((lines.filterMap ConfigLine.pair?).filter fun e => e.1 = key).map Prod.snd := by
  induction lines generalizing contents with
  | nil => exact ⟨by simp, by simp⟩
  | cons l lines ih =>
    obtain ⟨hperm, hrange⟩ := ih (store contents l)
    rw [List.foldl_cons]
    cases hpair : l.pair? with
    | none =>
      have hstore : store contents l = contents := by rw [store, hpair]
      rw [hstore] at hperm hrange ⊢
      rw [List.filterMap_cons_none hpair]
      exact ⟨hperm, hrange⟩
    | some e =>
      have hstore : store contents l = contents.insert e.1 e.2 := by rw [store, hpair]
      rw [hstore] at hperm hrange ⊢
      rw [List.filterMap_cons_some hpair]
      constructor
      · refine hperm.trans ?_
        have hinsert := Multimap.insertEntry_perm e.1 e.2 contents.entries
        exact (hinsert.append_right _).trans List.perm_middle.symm
      · intro key
        rw [hrange, Multimap.equalRange_insert, List.filter_cons]
        by_cases hkey : e.1 = key
        · simp [hkey]
        · simp [hkey]

/-- An empty line at the end is skipped. -/
theorem readLines_lastLine (ls : List Bytes) (l : Bytes) :
    readLines n (ls ++ lastLine l) contents = readLines n (ls ++ [l]) contents := by
  rw [lastLine]
  split_ifs with hl
  · subst hl
    induction ls generalizing n contents with
    | nil => rfl
    | cons l ls ih =>
      rw [List.append_nil] at ih ⊢
      rw [List.cons_append, readLines, readLines]
      split_ifs
      · exact ih
      · dsimp only
        split_ifs
        · exact ih
        · cases parseLine (removeComment l) (n + 1) contents with
          | error e => rfl
          | ok contents => exact ih
  · rfl

theorem readLines_getlines (lines : List ConfigLine) (ended : Bool) :
    readLines n (getlines (configText lines ended)) contents =
      readLines n (lines.map ConfigLine.text) contents := by
  have hlines (ls : List ConfigLine) : ∀ t ∈ ls.map ConfigLine.text, 10 ∉ t := by
    intro t ht
    obtain ⟨l, -, rfl⟩ := List.mem_map.mp ht
    exact not_mem_text l
  have htext : (lines.map fun l => l.text ++ [10]).flatten =
      joinLines (lines.map ConfigLine.text) [] := by
    rw [joinLines, List.append_nil, List.map_map]
    rfl
  rw [configText, htext]
  cases ended with
  | true =>
    rw [if_pos rfl, getlines_joinLines (hlines lines) List.not_mem_nil, lastLine, if_pos rfl,
      List.append_nil]
  | false =>
    rw [if_neg Bool.false_ne_true]
    rcases List.eq_nil_or_concat lines with rfl | ⟨init, l, rfl⟩
    · rfl
    · rw [List.concat_eq_append, List.map_append, List.map_singleton, dropLast_joinLines,
        getlines_joinLines (hlines init) (not_mem_text l), readLines_lastLine]

end Lines

end ConfigFile

/-- **A file of pairs is read as it is written,** exactly if there is no tab in its lines of blanks
and in front of its comments. -/
theorem readsPairs_iff (lines : List ConfigLine) (ended : Bool) :
    ReadsPairs lines ended ↔ ∀ l ∈ lines, l.TabFree := by
  rw [ReadsPairs, ConfigFile.construct]
  rw [ConfigFile.readLines_getlines]
  constructor
  · rintro ⟨contents, hread, -⟩
    by_contra hall
    have htab : ∃ l ∈ lines, ¬ l.TabFree := by simpa using hall
    obtain ⟨k, herror⟩ := @ConfigFile.readLines_map_error lines .empty 0 htab
    rw [herror] at hread
    cases hread
  · intro h
    obtain ⟨hperm, hrange⟩ := ConfigFile.foldl_store lines .empty
    exact ⟨_, ConfigFile.readLines_map h, hperm, hrange⟩

/-- A line with a tab and nothing else ends the reading. -/
theorem not_readsPairs_tab :
    ¬ ReadsPairs [.blank ⟨[9], List.all_iff_forall_prop.mp (by decide)⟩] true := by
  rintro ⟨contents, hread, -⟩
  have herror : ConfigFile.construct
      (some (configText [.blank ⟨[9], List.all_iff_forall_prop.mp (by decide)⟩] true)) =
      .error (.invalidSyntax 1) := rfl
  rw [herror] at hread
  cases hread

end Mavicona.Extract
