import Mavicona.Common.Scanner
import Mavicona.Extract.Grammar

/-!
# Reading a rule file

Reference: `extract/rule_scan.l`, `extract/ruler.cpp` (`Ruler::parseConfigFile`).

The scanner ends the input of the parser at the end of the file, and also at a character that no
token starts with. The parser accepts what came before such a character, and is called again only if
the file has not been read to its end by then, in which case it goes on behind the character.
-/

namespace Mavicona.Extract

open Bytes Scanner

/-! ## The scanner -/

/-- The rules of the scanner. -/
inductive ScanRule
  | include
  | blank
  | string
  | comment
  | token (t : Token)
  | unknown
deriving DecidableEq

/-- `['"]`. -/
def isQuote (c : UInt8) : Bool := c = 39 || c = 34

/-- `[a-zA-Z0-9\/\-\.\+]`. -/
def isWord (c : UInt8) : Bool :=
  (97 ≤ c && c ≤ 122) || (65 ≤ c && c ≤ 90) || (48 ≤ c && c ≤ 57) || c = 47 || c = 45 || c = 46 ||
    c = 43

/-- `[ \t]`. -/
def isSpace (c : UInt8) : Bool := c = 32 || c = 9

/-- `[ \t\n]`. -/
def isBlank (c : UInt8) : Bool := isSpace c || c = 10

/-- A word, character by character. -/
def literal (w : Bytes) : Pattern UInt8 := w.map fun c => .one (· = c)

/-- The rules of `rule_scan.l`, outside of an include directive, in order. -/
def scanRules : List (Pattern UInt8 × ScanRule) :=
  [(literal (ascii "include") ++ [.many isSpace, .one fun c => isQuote c || c = 60], .include),
    ([.one isBlank, .many isBlank], .blank),
    ([.one isQuote, .many isWord, .one isQuote], .string),
    (literal (ascii "#") ++ [.many (· ≠ 10)], .comment),
    (literal (ascii ";"), .token .semicolon),
    (literal (ascii "\x7b"), .token .lbrace),
    (literal (ascii "\x7d"), .token .rbrace),
    (literal (ascii "mime"), .token (.kind .mime)),
    (literal (ascii "type"), .token (.kind .type)),
    (literal (ascii "extension"), .token (.kind .extension)),
    (literal (ascii "category"), .token (.kind .category)),
    (literal (ascii "unknown"), .token (.kind .unknown)),
    (literal (ascii "then"), .token .then),
    (literal (ascii "store"), .token (.action .store)),
    (literal (ascii "discard"), .token (.action .discard)),
    (literal (ascii "queue"), .token (.action .queue)),
    (literal (ascii "log"), .token (.action .log)),
    ([.one (· ≠ 10)], .unknown)]

theorem exclusive_literal_append (w : Bytes) (parts : Pattern UInt8) :
    (literal w ++ parts).Exclusive ↔ parts.Exclusive := by
  induction w with
  | nil => rfl
  | cons c w ih => exact ih

theorem exclusive_literal (w : Bytes) : (literal w).Exclusive := by
  rw [← List.append_nil (literal w), exclusive_literal_append]
  trivial

theorem lawful_scanRules : Lawful scanRules where
  exclusive := by
    have hinclude : ∀ c, isSpace c = true → isQuote c = false ∧ c ≠ 60 := by
      intro c hc
      rcases (Bool.or_eq_true _ _).mp hc with hc | hc <;>
        rw [of_decide_eq_true hc] <;> decide
    have hstring : ∀ c, isWord c = true → isQuote c = false := by
      intro c hc
      by_contra hq
      rcases (Bool.or_eq_true _ _).mp (Bool.eq_true_of_not_eq_false hq) with hq | hq <;>
        rw [of_decide_eq_true hq] at hc <;> exact absurd hc (by decide)
    simpa [scanRules, exclusive_literal_append, exclusive_literal, Pattern.Exclusive] using
      And.intro hinclude hstring
  covering := by
    intro c s
    by_cases hc : c = 10
    · refine ⟨([.one isBlank, .many isBlank], .blank), by simp [scanRules],
        (s.takeWhile isBlank).length + 1, Nat.succ_pos _, ?_⟩
      have hblank : isBlank c = true := by rw [hc]; rfl
      simp [Pattern.greedy, hblank]
    · exact ⟨([.one (· ≠ 10)], .unknown), by simp [scanRules], 1, Nat.one_pos, by
        simp [Pattern.greedy, hc]⟩

/-! ## The file -/

/-- A lexeme, with the rule that matched it. -/
abbrev Lexeme := ScanRule × Bytes

/-- A rule file without include directives. -/
structure RuleText where
  text : Bytes
  no_include : ∀ l ∈ scan scanRules text.length text, l.1 ≠ .include

/-- The lexemes of a file. -/
def RuleText.lexemes (t : RuleText) : List Lexeme := scan scanRules t.text.length t.text

/-- The token that `yylex` returns for a lexeme, if it does not go on. -/
def tokenOf : Lexeme → Option Token
  | (.token t, _) => some t
  | (.string, s) => some (.string s)
  | _ => none

section Parse

variable (eof : List Lexeme → Bool)

/-- The loop of `Ruler::parseConfigFile`, from the lexemes and the tokens of the running `yyparse`
on: the vector of rules, or `none` after a call of `yyerror`. The file has been read to its end when
the scanner comes to it, and `eof` says if it has been when the scanner comes to an unknown
character, with these lexemes left. -/
def parseLexemes : List Lexeme → List Token → List RuleNode → Option (List RuleNode)
  | [], ts, rules => (yyparse ts).map (rules ++ ·)
  | l :: ls, ts, rules =>
    if l.1 = .unknown then
      match yyparse ts with
      | none => none
      | some rs => if eof ls then some (rules ++ rs) else parseLexemes ls [] (rules ++ rs)
    else parseLexemes ls (ts ++ (tokenOf l).toList) rules

/-- `Ruler::parseConfigFile`; the argument is `none` if the file cannot be opened, and the result is
if the caller gets no ruleset. -/
def parseConfigFile : Option RuleText → Option (List RuleNode)
  | none => none
  | some t =>
    match parseLexemes eof t.lexemes [] [] with
    | none => none
    | some rules => if verifyRules (some rules) then some rules else none

/-- The tokens of the parts that the unknown characters cut a file into, up to the part behind
which the file has been read to its end. -/
def pieces : List Lexeme → List (List Token)
  | [] => [[]]
  | l :: ls =>
    if l.1 = .unknown then if eof ls then [[]] else [] :: pieces ls
    else (pieces ls).modifyHead ((tokenOf l).toList ++ ·)

theorem modifyHead_nil_append (tss : List (List Token)) : tss.modifyHead ([] ++ ·) = tss := by
  cases tss <;> rfl

/-- The last part of a file. -/
theorem forall₂_config_singleton {ts : List Token} {rss : List (List RuleNode)} :
    List.Forall₂ Config [ts] rss ↔ ∃ rs, yyparse ts = some rs ∧ rss = [rs] := by
  simp only [List.forall₂_cons_left_iff, List.forall₂_nil_left_iff, yyparse_eq_some_iff]
  constructor
  · rintro ⟨rs, -, hrs, rfl, rfl⟩
    exact ⟨rs, hrs, rfl⟩
  · rintro ⟨rs, hrs, rfl⟩
    exact ⟨rs, [], hrs, rfl, rfl⟩

/-- The parts of a file are configurations, one by one. -/
theorem parseLexemes_eq_some_iff (ls : List Lexeme) (ts : List Token) (rules out : List RuleNode) :
    parseLexemes eof ls ts rules = some out ↔
      ∃ rss, List.Forall₂ Config ((pieces eof ls).modifyHead (ts ++ ·)) rss ∧
        out = rules ++ rss.flatten := by
  induction ls generalizing ts rules out with
  | nil =>
    rw [parseLexemes, pieces, List.modifyHead_cons, List.append_nil]
    simp only [forall₂_config_singleton, Option.map_eq_some_iff]
    constructor
    · rintro ⟨rs, hrs, rfl⟩
      exact ⟨[rs], ⟨rs, hrs, rfl⟩, by simp⟩
    · rintro ⟨rss, ⟨rs, hrs, rfl⟩, rfl⟩
      exact ⟨rs, hrs, by simp⟩
  | cons l ls ih =>
    rw [parseLexemes, pieces]
    by_cases hl : l.1 = .unknown
    · rw [if_pos hl, if_pos hl]
      by_cases heof : eof ls = true
      · rw [if_pos heof, List.modifyHead_cons, List.append_nil]
        simp only [forall₂_config_singleton]
        cases hparse : yyparse ts with
        | none => simp
        | some rs => simp [heof, eq_comm]
      · -- The parser is called again, behind the character.
        rw [if_neg heof, List.modifyHead_cons, List.append_nil]
        cases hparse : yyparse ts with
        | none =>
          have hno : ∀ rs, ¬ Config ts rs := fun rs h => by
            rw [yyparse_eq_some_iff.mpr h] at hparse
            exact absurd hparse (by simp)
          simp [List.forall₂_cons_left_iff, hno]
        | some rs =>
          dsimp only
          rw [if_neg heof, ih, modifyHead_nil_append]
          constructor
          · rintro ⟨rss, hrss, rfl⟩
            exact ⟨rs :: rss, .cons (yyparse_eq_some_iff.mp hparse) hrss, by simp⟩
          · rintro ⟨rss, hrss, rfl⟩
            obtain ⟨rs', rss', hrs', hrss', rfl⟩ := List.forall₂_cons_left_iff.mp hrss
            obtain rfl := Option.some_inj.mp (hparse.symm.trans (yyparse_eq_some_iff.mpr hrs'))
            exact ⟨rss', hrss', by simp⟩
    · rw [if_neg hl, if_neg hl, ih, List.modifyHead_modifyHead]
      simp only [Function.comp_def, List.append_assoc]

end Parse

/-! ## What is accepted -/

/-- The whole file is a configuration, and has a rule for unknown data. -/
def Grammatical (t : RuleText) (rs : List RuleNode) : Prop :=
  ∃ ls, Lexes scanRules t.text ls ∧ (∀ l ∈ ls, l.1 ≠ .unknown) ∧ Config (ls.filterMap tokenOf) rs ∧
    ∃ r ∈ rs, r.nodeType = .unknown

/-- Some character of the file belongs to no token. -/
def Foreign (t : RuleText) : Prop :=
  ∃ ls, Lexes scanRules t.text ls ∧ ∃ l ∈ ls, l.1 = .unknown

/-- The parts of a file are configurations, and some of them has a rule for unknown data. -/
def Piecewise (eof : List Lexeme → Bool) (t : RuleText) : Prop :=
  ∃ rss, List.Forall₂ Config (pieces eof t.lexemes) rss ∧
    ∃ r ∈ rss.flatten, r.nodeType = .unknown

section Accept

variable (eof : List Lexeme → Bool) (t : RuleText)

theorem lexes_lexemes_iff {ls : List Lexeme} : Lexes scanRules t.text ls ↔ t.lexemes = ls :=
  lawful_scanRules.lexes_iff le_rfl

theorem verifyRules_iff (rules : List RuleNode) :
    verifyRules (some rules) = true ↔ ∃ r ∈ rules, r.nodeType = .unknown := by
  rw [verifyRules, Bool.and_eq_true, List.find?_isSome]
  simp only [decide_eq_true_eq]
  refine ⟨fun h => h.1, fun h => ⟨h, ?_⟩⟩
  obtain ⟨r, hr, -⟩ := h
  exact (List.length_pos_of_mem hr).ne'

theorem parseConfigFile_eq_some_iff (rs : List RuleNode) :
    parseConfigFile eof (some t) = some rs ↔
      ∃ rss, List.Forall₂ Config (pieces eof t.lexemes) rss ∧ rs = rss.flatten ∧
        ∃ r ∈ rs, r.nodeType = .unknown := by
  have hparse : ∀ out, parseLexemes eof t.lexemes [] [] = some out ↔
      ∃ rss, List.Forall₂ Config (pieces eof t.lexemes) rss ∧ out = rss.flatten := by
    intro out
    rw [parseLexemes_eq_some_iff, modifyHead_nil_append]
    rfl
  rw [parseConfigFile]
  constructor
  · intro h
    split at h
    · exact absurd h (by simp)
    · rename_i rules hrules
      split_ifs at h with hverify
      obtain rfl := Option.some_inj.mp h
      obtain ⟨rss, hrss, rfl⟩ := (hparse _).mp hrules
      exact ⟨rss, hrss, rfl, (verifyRules_iff _).mp hverify⟩
  · rintro ⟨rss, hrss, rfl, hunknown⟩
    rw [(hparse _).mpr ⟨rss, hrss, rfl⟩]
    exact if_pos ((verifyRules_iff _).mpr hunknown)

theorem foreign_iff : Foreign t ↔ ∃ l ∈ t.lexemes, l.1 = .unknown := by
  simp only [Foreign, lexes_lexemes_iff, exists_eq_left']

theorem grammatical_iff (rs : List RuleNode) :
    Grammatical t rs ↔ ¬ Foreign t ∧ Config (t.lexemes.filterMap tokenOf) rs ∧
      ∃ r ∈ rs, r.nodeType = .unknown := by
  simp only [Grammatical, lexes_lexemes_iff, exists_eq_left', foreign_iff, not_exists, not_and]

theorem pieces_of_all_known {ls : List Lexeme} (h : ∀ l ∈ ls, l.1 ≠ .unknown) :
    pieces eof ls = [ls.filterMap tokenOf] := by
  induction ls with
  | nil => rfl
  | cons l ls ih =>
    obtain ⟨hl, hls⟩ := List.forall_mem_cons.mp h
    rw [pieces, if_neg hl, ih hls, List.modifyHead_cons, List.filterMap_cons]
    cases tokenOf l <;> rfl

/-- **What the extractor takes for its ruleset are the rules of the whole file, exactly if the file
has no character outside of the tokens, or is refused in spite of it:** one of the parts that are
parsed is no configuration, or none of them has a rule for unknown data. -/
theorem parseConfigFile_grammatical_iff :
    (∀ rs, parseConfigFile eof (some t) = some rs ↔ Grammatical t rs) ↔
      ¬ Foreign t ∨ ¬ Piecewise eof t := by
  simp only [parseConfigFile_eq_some_iff, grammatical_iff]
  by_cases hforeign : Foreign t
  · -- No ruleset is right, so none may be given.
    simp only [hforeign, not_true_eq_false, false_and, iff_false, false_or, Piecewise]
    constructor
    · rintro h ⟨rss, hrss, hunknown⟩
      exact h rss.flatten ⟨rss, hrss, rfl, hunknown⟩
    · rintro h rs ⟨rss, hrss, rfl, hunknown⟩
      exact h ⟨rss, hrss, hunknown⟩
  · refine iff_of_true (fun rs => ?_) (Or.inl hforeign)
    have hknown : ∀ l ∈ t.lexemes, l.1 ≠ .unknown := by
      intro l hl heq
      exact hforeign ((foreign_iff t).mpr ⟨l, hl, heq⟩)
    rw [pieces_of_all_known eof hknown]
    simp only [forall₂_config_singleton, yyparse_eq_some_iff, hforeign, not_false_eq_true, true_and]
    constructor
    · rintro ⟨_, ⟨rs', hrs', rfl⟩, hrs, hunknown⟩
      rw [List.flatten_singleton] at hrs
      exact ⟨hrs ▸ hrs', hunknown⟩
    · rintro ⟨hrs, hunknown⟩
      exact ⟨[rs], ⟨rs, hrs, rfl⟩, by simp, hunknown⟩

end Accept

/-- Two rules, with a stray character between them. -/
def strayText : Bytes := ascii "unknown \x7bthen log;\x7d ! mime 'a' \x7bthen discard;\x7d"

theorem strayText_no_include :
    ∀ l ∈ scan scanRules strayText.length strayText, l.1 ≠ .include := by
  decide +kernel

/-- The file is taken for a configuration of its first rule. -/
theorem parseConfigFile_stray :
    parseConfigFile (fun _ => true) (some ⟨strayText, strayText_no_include⟩) =
        some [⟨.unknown, [], [.log]⟩] ∧
      ¬ ∃ rs, Grammatical ⟨strayText, strayText_no_include⟩ rs := by
  refine ⟨by decide +kernel, ?_⟩
  rintro ⟨rs, hrs⟩
  refine ((grammatical_iff _ _).mp hrs).1 ((foreign_iff _).mpr ⟨(.unknown, ascii "!"), ?_, rfl⟩)
  decide +kernel

end Mavicona.Extract
