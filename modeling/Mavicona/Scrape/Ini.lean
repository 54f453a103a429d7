import Mathlib.Data.Int.Notation
import Mathlib.Data.List.DropRight
import Mathlib.Data.List.Infix
import Mavicona.Common.Numeral

/-!
# The configuration of extensions

Reference: `scrape/ini.c`, `scrape/ini.h`.

A file of sections and pairs is read line by line. A pair may go on in indented lines, for which the
handler is called again with its name, and a `;` behind a blank starts a comment. An error does not
end the file: what counts is the number of the first line that has one.
-/

namespace Mavicona.Scrape

open Bytes Numeral

/-! ## The parser -/

/-- `rstrip`. -/
def rstrip (s : Bytes) : Bytes := s.rdropWhile isSpace

/-- `lskip`. -/
def lskip (s : Bytes) : Bytes := s.dropWhile isSpace

/-- `find_chars_or_comment`, from a point on: what is before the pointer and what is behind it. -/
def findCharsOrComment (chars : Bytes) : Bool → Bytes → Bytes × Bytes
  | _, [] => ([], [])
  | wasSpace, c :: s =>
    if c ∈ chars ∨ wasSpace = true ∧ c = 59 then ([], c :: s)
    else (c :: (findCharsOrComment chars (isSpace c) s).1, (findCharsOrComment chars (isSpace c) s).2)

/-- `strncpy0` to 50 bytes. -/
def strncpy0 (s : Bytes) : Bytes := s.take 49

/-- `fgets` to a buffer of `n + 1` bytes, and what it leaves. -/
def fgets : ℕ → Bytes → Bytes × Bytes
  | 0, s => ([], s)
  | _ + 1, [] => ([], [])
  | n + 1, b :: s => if b = 10 then ([b], s) else (b :: (fgets n s).1, (fgets n s).2)

/-- What the loop of `ini_parse_stream` reads with `fgets`. -/
def fgetsLines : ℕ → Bytes → List Bytes
  | 0, _ => []
  | _ + 1, [] => []
  | fuel + 1, b :: s => (fgets 199 (b :: s)).1 :: fgetsLines fuel (fgets 199 (b :: s)).2

/-- `ini_handler`, for the user's data: section, name and value. -/
abbrev IniHandler (σ : Type) := σ → Bytes → Bytes → Bytes → Bool × σ

/-- A call of a handler: section, name and value. -/
abbrev IniCall := Bytes × Bytes × Bytes

/-- The variables of `ini_parse_stream`, and the user's data. -/
structure IniState (σ : Type) where
  sect : Bytes
  prevName : Bytes
  error : ℕ
  user : σ

section Parser

variable {σ : Type} (handler : IniHandler σ)

/-- `error = lineno`, for the first error. -/
def IniState.fail (lineno : ℕ) (st : IniState σ) : IniState σ :=
  { st with error := if st.error = 0 then lineno else st.error }

/-- A call of the handler, which fails if it returns 0. -/
def IniState.call (lineno : ℕ) (name value : Bytes) (st : IniState σ) : IniState σ :=
  let (ok, user) := handler st.user st.sect name value
  if ok then { st with user := user } else { st.fail lineno with user := user }

/-- A stripped line, which may have been indented. -/
def iniText (lineno : ℕ) (indented : Bool) (start : Bytes) (st : IniState σ) : IniState σ :=
  match start with
  | [] => st
  | c :: rest =>
    if c = 59 ∨ c = 35 then st
    else if st.prevName ≠ [] ∧ indented = true then st.call handler lineno st.prevName (c :: rest)
    else if c = 91 then
      let (name, stop) := findCharsOrComment [93] false rest
      if stop.head? = some 93 then { st with sect := strncpy0 name, prevName := [] }
      else st.fail lineno
    else
      let (name, stop) := findCharsOrComment [61, 58] false (c :: rest)
      if stop.head? = some 61 ∨ stop.head? = some 58 then
        let name := rstrip name
        let value := rstrip (findCharsOrComment [] false (lskip stop.tail)).1
        { st with prevName := strncpy0 name }.call handler lineno name value
      else st.fail lineno

/-- The byte order mark. -/
def bom : Bytes := [0xEF, 0xBB, 0xBF]

/-- A line of the file. The pointer behind its indentation or the byte order mark is not `line`. -/
def iniLine (lineno : ℕ) (line : Bytes) (st : IniState σ) : IniState σ :=
  let start := if lineno = 1 ∧ bom <+: line then line.drop 3 else line
  let stripped := rstrip start
  iniText handler lineno
    (0 < (line.length - start.length) + (stripped.length - (lskip stripped).length))
    (lskip stripped) st

/-- The loop of `ini_parse_stream`, with the number of the last line. -/
def iniLines : ℕ → List Bytes → IniState σ → IniState σ
  | _, [], st => st
  | lineno, line :: lines, st => iniLines (lineno + 1) lines (iniLine handler (lineno + 1) line st)

/-- `ini_parse`: the error and what the handler made of the user's data. A line ends at its first null
byte. -/
def iniParse (file : Option Bytes) (user : σ) : ℤ × σ :=
  match file with
  | none => (-1, user)
  | some bytes =>
    let st := iniLines handler 0 ((fgetsLines bytes.length bytes).map cstr) ⟨[], [], 0, user⟩
    (st.error, st.user)

end Parser

section Parts

variable {s pre rest chars : Bytes} {c : UInt8} {w : Bool}

theorem isSpace_ne {b : UInt8} (h : isSpace b = true) :
    b ≠ 0 ∧ b ≠ 59 ∧ b ≠ 35 ∧ b ≠ 91 ∧ b ≠ 93 ∧ b ≠ 61 ∧ b ≠ 58 := by
  refine ⟨?_, ?_, ?_, ?_, ?_, ?_, ?_⟩ <;>
  · rintro rfl
    exact absurd h (by decide)

/-- No comment starts in a text. -/
def quiet : Bool → Bytes → Bool
  | _, [] => true
  | wasSpace, c :: s => (! wasSpace || c ≠ 59) && quiet (isSpace c) s

/-- What is found, for every text. -/
theorem findCharsOrComment_spec (chars : Bytes) (w : Bool) (s : Bytes) :
    (findCharsOrComment chars w s).1 ++ (findCharsOrComment chars w s).2 = s ∧
      (∀ c ∈ (findCharsOrComment chars w s).1, c ∉ chars) ∧
      quiet w (findCharsOrComment chars w s).1 = true := by
  induction s generalizing w with
  | nil => exact ⟨rfl, nofun, rfl⟩
  | cons c s ih =>
    rw [findCharsOrComment]
    split_ifs with hc
    · exact ⟨rfl, nofun, rfl⟩
    · obtain ⟨hsplit, hchars, hquiet⟩ := ih (isSpace c)
      rw [not_or, not_and] at hc
      refine ⟨congrArg (c :: ·) hsplit, List.forall_mem_cons.mpr ⟨hc.1, hchars⟩, ?_⟩
      rw [quiet, hquiet, Bool.and_true]
      cases w with
      | false => rfl
      | true => exact decide_eq_true (hc.2 rfl)

end Parts

/-! ## Files -/

/-- A text of blanks on one line. -/
structure Blanks where
  text : Bytes
  blank : ∀ b ∈ text, isSpace b = true ∧ b ≠ 10

/-- Neither an end of the line nor one of the text. -/
def OnLine (s : Bytes) : Prop := ∀ b ∈ s, b ≠ 10 ∧ b ≠ 0

/-- Nothing that is stripped. -/
def Stripped (s : Bytes) : Prop :=
  (∀ b ∈ s.head?, isSpace b = false) ∧ ∀ b ∈ s.getLast?, isSpace b = false

/-- A line with a pair, between blanks, and a comment behind it. -/
structure PairLine where
  name : Bytes
  value : Bytes
  sep : UInt8
  before : Blanks
  behind : Blanks
  trail : Blanks
  comment : Option Bytes
  name_ne_nil : name ≠ []
  name_onLine : OnLine name
  name_stripped : Stripped name
  name_head : ∀ b ∈ name.head?, b ≠ 59 ∧ b ≠ 35 ∧ b ≠ 91
  name_chars : ∀ b ∈ name, b ≠ 61 ∧ b ≠ 58
  name_quiet : quiet false name = true
  sep_eq : sep = 61 ∨ sep = 58
  value_onLine : OnLine value
  value_stripped : Stripped value
  value_quiet : quiet false value = true
  comment_ok : ∀ text ∈ comment, trail.text ≠ [] ∧ value ≠ [] ∧ OnLine text

/-- A line of a file. -/
inductive IniLine
  | blank (blanks : Blanks)
  | comment (indent : Blanks) (mark : UInt8) (text : Bytes) (hmark : mark = 59 ∨ mark = 35)
    (htext : OnLine text)
  | sect (name behind : Bytes) (hname : OnLine name) (hchars : 93 ∉ name)
    (hquiet : quiet false name = true) (hbehind : OnLine behind)
  | pair (q : PairLine)
  | more (indent : Blanks) (c : UInt8) (text : Bytes) (hindent : indent.text ≠ [])
    (htext : OnLine (c :: text)) (hstripped : Stripped (c :: text)) (hc : c ≠ 59 ∧ c ≠ 35)
  | junk (c : UInt8) (text : Bytes) (htext : OnLine (c :: text)) (hspace : isSpace c = false)
    (hc : c ≠ 59 ∧ c ≠ 35)
    (hjunk : if c = 91 then 93 ∉ text else ∀ b ∈ c :: text, b ≠ 61 ∧ b ≠ 58)

namespace PairLine

variable (q : PairLine)

/-- What is behind the value. -/
def tail : Bytes := q.trail.text ++ (q.comment.map fun text => 59 :: text).getD []

def text : Bytes := q.name ++ (q.before.text ++ q.sep :: (q.behind.text ++ (q.value ++ q.tail)))

end PairLine

namespace IniLine

def text : IniLine → Bytes
  | blank blanks => blanks.text
  | comment indent mark text _ _ => indent.text ++ mark :: text
  | sect name behind _ _ _ _ => 91 :: (name ++ 93 :: behind)
  | pair q => q.text
  | more indent c text _ _ _ _ => indent.text ++ c :: text
  | junk c text _ _ _ _ => c :: text

/-- The section and the name after a line. -/
def next : IniLine → Bytes × Bytes → Bytes × Bytes
  | sect name _ _ _ _ _, _ => (strncpy0 name, [])
  | pair q, (section', _) => (section', strncpy0 q.name)
  | _, names => names

/-- What a line says, in a section and behind a name: a call of the handler, or an error. -/
def event? : IniLine → Bytes × Bytes → Option (Option IniCall)
  | pair q, names => some (some (names.1, q.name, q.value))
  | more _ c text _ _ _ _, names => some (some (names.1, names.2, c :: text))
  | junk _ _ _ _ _ _, _ => some none
  | _, _ => none

end IniLine

/-- A value goes on only behind a pair of its section. -/
def IniLine.FitsBehind : IniLine → Bytes × Bytes → Prop
  | more _ _ _ _ _ _ _, names => names.2 ≠ []
  | _, _ => True

/-- Every line fits behind the ones before it. -/
def Fits : Bytes × Bytes → List IniLine → Prop
  | _, [] => True
  | names, l :: ls => l.FitsBehind names ∧ Fits (l.next names) ls

/-- What the lines say, with their numbers. -/
def events : ℕ → Bytes × Bytes → List IniLine → List (ℕ × Option IniCall)
  | _, _, [] => []
  | n, names, l :: ls =>
    ((l.event? names).map fun e => (n + 1, e)).toList ++ events (n + 1) (l.next names) ls

section Lines

variable {σ : Type} {handler : IniHandler σ} {st : IniState σ} {n : ℕ} {indented : Bool} {s : Bytes}

/-- What a line does. -/
def IniLine.step (l : IniLine) (handler : IniHandler σ) (n : ℕ) (st : IniState σ) : IniState σ :=
  match l.event? (st.sect, st.prevName) with
  | none =>
    { st with
      sect := (l.next (st.sect, st.prevName)).1
      prevName := (l.next (st.sect, st.prevName)).2 }
  | some none => st.fail n
  | some (some (_, name, value)) =>
    { st with prevName := (l.next (st.sect, st.prevName)).2 }.call handler n name value

section Pair

variable (q : PairLine)

end Pair

theorem onLine_append {t : Bytes} (hs : OnLine s) (ht : OnLine t) : OnLine (s ++ t) := fun b hb =>
  (List.mem_append.mp hb).elim (hs b) (ht b)

theorem onLine_cons {c : UInt8} (hc : c ≠ 10 ∧ c ≠ 0) (hs : OnLine s) : OnLine (c :: s) :=
  List.forall_mem_cons.mpr ⟨hc, hs⟩

theorem Blanks.onLine (blanks : Blanks) : OnLine blanks.text := fun b hb =>
  ⟨(blanks.blank b hb).2, (isSpace_ne (blanks.blank b hb).1).1⟩

theorem IniLine.onLine (l : IniLine) : OnLine l.text := by
  cases l with
  | blank blanks => exact blanks.onLine
  | comment indent mark text hmark htext =>
    exact onLine_append indent.onLine (onLine_cons (by rcases hmark with rfl | rfl <;> decide) htext)
  | sect name behind hname _ _ hbehind =>
    exact onLine_cons (by decide) (onLine_append hname (onLine_cons (by decide) hbehind))
  | pair q =>
    have htail : OnLine q.tail := by
      refine onLine_append q.trail.onLine ?_
      cases hcomment : q.comment with
      | none => exact fun b hb => absurd hb List.not_mem_nil
      | some text => exact onLine_cons (by decide) (q.comment_ok text hcomment).2.2
    exact onLine_append q.name_onLine (onLine_append q.before.onLine (onLine_cons
      (by rcases q.sep_eq with h | h <;> rw [h] <;> decide)
      (onLine_append q.behind.onLine (onLine_append q.value_onLine htail))))
  | more indent c text _ htext _ _ => exact onLine_append indent.onLine htext
  | junk c text htext _ _ _ => exact htext

end Lines

end Mavicona.Scrape
