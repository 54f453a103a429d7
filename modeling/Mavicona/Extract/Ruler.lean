import Mavicona.Extract.Actions

/-!
# The rule that matches a message

Reference: `extract/ruler.h`, `extract/ruler.cpp`, `extract/rulenode.h`, `extract/mime.h`,
`extract/extractor.cpp` (`parseData`), `default.rule`.

A message is matched by its mime type, by the category of the mime type, by its extension and by its
data type, in this order, and else by the rule for unknown data. All these go through one lookup,
which finds the first rule of a kind and then compares its name: a second rule of the kind is never
looked at.
-/

namespace Mavicona.Extract

open Mavicona.Scrape Bytes

/-! ## Rules -/

/-- What a rule is matched by. -/
inductive RuleKind
  | mime
  | type
  | extension
  | category
  | unknown
deriving DecidableEq, Repr

/-- `RuleNode`; the name of a rule for unknown data is never read. -/
structure RuleNode where
  nodeType : RuleKind
  nodeName : Bytes := []
  actionList : List RuleAction
deriving DecidableEq

/-- `Mime`. -/
structure Mime where
  name : Bytes
  type : Bytes
  extension : Bytes := []

/-- `Mime::category`: the type up to the first slash. -/
def Mime.category (mime : Mime) : Bytes := mime.type.takeWhile (· ≠ 47)

/-- `Ruler::verifyRules`; the argument may be a null pointer. -/
def verifyRules : Option (List RuleNode) → Bool
  | none => false
  | some rules => (rules.find? fun rule => rule.nodeType = .unknown).isSome && rules.length ≠ 0

/-! ## The ruler -/

/-- `Ruler`; `actionList` is the rule that owns the list `m_ActionList` points to. -/
structure Ruler where
  ruleset : Option (List RuleNode)
  actionList : Option RuleNode := none
  payload : Option ScrapeData := none

namespace Ruler

/-- `Ruler::match`. -/
def matchRule (ruler : Ruler) (kind : RuleKind) (name : Bytes) : Bool × Ruler :=
  match ruler.ruleset with
  | none => (false, ruler)
  | some rules =>
    match rules.find? fun rule => rule.nodeType = kind with
    | none => (false, ruler)
    | some rule =>
      if rule.nodeType ≠ .unknown ∧ rule.nodeName ≠ name then (false, ruler)
      else (true, { ruler with actionList := some rule })

/-- `Ruler::hasActionList`. -/
def hasActionList (ruler : Ruler) : Bool := ruler.actionList.isSome

/-- `Ruler::matchMimeRule`. -/
def matchMimeRule (ruler : Ruler) (mime : Mime) : Bool × Ruler := ruler.matchRule .mime mime.type

/-- `Ruler::matchCategoryRule`. -/
def matchCategoryRule (ruler : Ruler) (mime : Mime) : Bool × Ruler :=
  ruler.matchRule .category mime.category

/-- `Ruler::matchExtensionRule`. -/
def matchExtensionRule (ruler : Ruler) (extension : Bytes) : Bool × Ruler :=
  ruler.matchRule .extension extension

/-- `Ruler::matchTypeRule`. -/
def matchTypeRule (ruler : Ruler) (typeName : Bytes) : Bool × Ruler := ruler.matchRule .type typeName

/-- `Ruler::setDataProfile`. -/
def setDataProfile (ruler : Ruler) (data : ScrapeData) : Ruler := { ruler with payload := some data }

/-- `Ruler::runRuleActions`: the ruler afterwards and the actions that ran, in order. Without a
list to run it would read a null pointer, which a ruleset that was verified rules out. -/
def runRuleActions (ruler : Ruler) : Ruler × List RuleAction :=
  match ruler.payload with
  | none => (ruler, [])
  | some _ =>
    let ruler := if ruler.hasActionList then ruler else (ruler.matchRule .unknown []).2
    (ruler, (ruler.actionList.map (·.actionList)).getD [])

end Ruler

/-- The type names of `parseData`. -/
def typeName : DataType → Bytes
  | .plain => ascii "plain"
  | .file => ascii "file"
  | .binary => ascii "binary"
  | .stream => ascii "stream"

/-- The accessors `content().extension()`. -/
def extension (data : ScrapeData) : Bytes := (data.content.bind (·.extension)).getD []

/-- The accessor `type()`. -/
def dataType (data : ScrapeData) : DataType := data.type.getD .plain

/-- The payload of a message. -/
def payload (data : ScrapeData) : Bytes := (data.content.bind (·.payload)).getD []

/-- The lookups of `parseData`, for the mime that was detected. -/
def matchData (ruleset : Option (List RuleNode)) (mime : Option Mime) (data : ScrapeData) : Ruler :=
  let ruler : Ruler := { ruleset }
  let ruler := match mime with
    | none => ruler
    | some mime =>
      let (matched, ruler) := ruler.matchMimeRule mime
      if matched then ruler else (ruler.matchCategoryRule mime).2
  let ruler :=
    if !ruler.hasActionList && !(extension data).isEmpty then
      (ruler.matchExtensionRule (extension data)).2
    else ruler
  if !ruler.hasActionList then (ruler.matchTypeRule (typeName (dataType data))).2 else ruler

/-! ## The rule that should match -/

/-- What a message can be matched by, the most specific first. -/
def levels (mime : Option Mime) (data : ScrapeData) : List (RuleKind × Bytes) :=
  (match mime with
    | none => []
    | some mime => [(.mime, mime.type), (.category, mime.category)]) ++
  (if (extension data).isEmpty then [] else [(.extension, extension data)]) ++
  [(.type, typeName (dataType data))]

variable {rules : List RuleNode} {l : RuleKind × Bytes} {ls : List (RuleKind × Bytes)}
  {rule : RuleNode}

/-- The first rule of the kind with the name. -/
def named (rules : List RuleNode) (l : RuleKind × Bytes) : Option RuleNode :=
  rules.find? fun rule => rule.nodeType = l.1 ∧ rule.nodeName = l.2

/-- The first rule for unknown data. -/
def unknownRule (rules : List RuleNode) : Option RuleNode :=
  rules.find? fun rule => rule.nodeType = .unknown

/-- The first rule of the most specific level that matches, and else the first one for unknown
data. -/
def firstMatch (rules : List RuleNode) (ls : List (RuleKind × Bytes)) : Option RuleNode :=
  (ls.findSome? (named rules)).or (unknownRule rules)

/-- On the most specific level that some rule matches, the first rule of the kind is one that does. -/
def FirstOfKindMatches (rules : List RuleNode) (ls : List (RuleKind × Bytes)) : Prop :=
  ∀ l, (ls.find? fun l => rules.any fun rule => rule.nodeType = l.1 ∧ rule.nodeName = l.2) = some l →
    ∃ rule, (rules.find? fun rule => rule.nodeType = l.1) = some rule ∧ rule.nodeName = l.2

/-! ## The rule that is looked at -/

/-- The first rule of the kind, if it has the name. -/
def looked (rules : List RuleNode) (l : RuleKind × Bytes) : Option RuleNode :=
  (rules.find? fun rule => rule.nodeType = l.1).filter fun rule => rule.nodeName = l.2

theorem looked_eq_some_iff :
    looked rules l = some rule ↔
      (rules.find? fun rule => rule.nodeType = l.1) = some rule ∧ rule.nodeName = l.2 := by
  simp [looked, Option.filter_eq_some_iff]

theorem named_eq_some (h : named rules l = some rule) :
    rule.nodeType = l.1 ∧ rule.nodeName = l.2 := by
  simpa using List.find?_some h

/-- A first rule of the kind that has the name is the first one that has both. -/
theorem named_of_looked (h : looked rules l = some rule) : named rules l = some rule := by
  obtain ⟨hfind, hname⟩ := looked_eq_some_iff.mp h
  obtain ⟨hkind, before, after, rfl, hbefore⟩ := List.find?_eq_some_iff_append.mp hfind
  refine List.find?_eq_some_iff_append.mpr ⟨by simpa [hname] using hkind, before, after, rfl, ?_⟩
  intro r hr
  have := hbefore r hr
  simp only [Bool.not_eq_true', decide_eq_false_iff_not] at this ⊢
  exact fun h => this h.1

theorem nodeType_of_looked (h : looked rules l = some rule) : rule.nodeType = l.1 :=
  (named_eq_some (named_of_looked h)).1

theorem named_isSome :
    (named rules l).isSome = rules.any fun rule => rule.nodeType = l.1 ∧ rule.nodeName = l.2 := by
  rw [Bool.eq_iff_iff, named, List.find?_isSome, List.any_eq_true]

/-- A rule that is found on some level has the kind of a level, or is for unknown data. -/
theorem nodeType_of_findSome_looked
    (h : (ls.findSome? (looked rules)).or (unknownRule rules) = some rule) :
    rule.nodeType ∈ ls.map (·.1) ∨ rule.nodeType = .unknown := by
  rcases Option.or_eq_some_iff.mp h with hfound | ⟨-, hunknown⟩
  · obtain ⟨l, hl, hlooked⟩ := List.exists_of_findSome?_eq_some hfound
    exact Or.inl (List.mem_map.mpr ⟨l, hl, (nodeType_of_looked hlooked).symm⟩)
  · exact Or.inr (by simpa using List.find?_some hunknown)

/-- **The lookups come to the rule that should match exactly if the first rule of its kind
does.** Nothing else can make up for it: a rule that is passed over leaves the message to a rule
of another kind. -/
theorem findSome_looked_eq_firstMatch_iff (hnodup : (ls.map (·.1)).Nodup)
    (hunknown : RuleKind.unknown ∉ ls.map (·.1)) :
    (ls.findSome? (looked rules)).or (unknownRule rules) = firstMatch rules ls ↔
      FirstOfKindMatches rules ls := by
  induction ls with
  | nil => exact iff_of_true rfl fun l hl => absurd hl (by simp)
  | cons l ls ih =>
    rw [List.map_cons, List.nodup_cons] at hnodup
    rw [List.map_cons, List.mem_cons, not_or] at hunknown
    rw [firstMatch, FirstOfKindMatches, List.findSome?_cons, List.findSome?_cons, List.find?_cons,
      ← named_isSome]
    cases hnamed : named rules l with
    | none =>
      -- No rule has the name, so the first one of the kind has not.
      have hlooked : looked rules l = none := by
        cases hlooked : looked rules l with
        | none => rfl
        | some rule => rw [named_of_looked hlooked] at hnamed; exact absurd hnamed (by simp)
      rw [hlooked]
      exact ih hnodup.2 hunknown.2
    | some rule =>
      cases hlooked : looked rules l with
      | some rule' =>
        obtain rfl : rule' = rule := by
          rw [named_of_looked hlooked] at hnamed
          exact Option.some_inj.mp hnamed
        refine iff_of_true rfl fun l' hl' => ?_
        obtain rfl : l = l' := Option.some_inj.mp hl'
        exact ⟨rule', looked_eq_some_iff.mp hlooked⟩
      | none =>
        refine iff_of_false ?_ ?_
        · intro heq
          have hkind := (named_eq_some hnamed).1
          rcases nodeType_of_findSome_looked heq with hmem | hother
          · exact hnodup.1 (hkind ▸ hmem)
          · exact hunknown.1 (hother ▸ hkind)
        · intro hfirst
          obtain ⟨rule', hrule'⟩ := hfirst l rfl
          rw [looked_eq_some_iff.mpr hrule'] at hlooked
          exact absurd hlooked (by simp)

/-! ## The lookups of a message -/

namespace Ruler

theorem matchRule_eq {ruler : Ruler} (hrules : ruler.ruleset = some rules) {kind : RuleKind}
    (hkind : kind ≠ .unknown) (name : Bytes) :
    ruler.matchRule kind name = ((looked rules (kind, name)).isSome,
      { ruler with actionList := (looked rules (kind, name)).or ruler.actionList }) := by
  obtain ⟨ruleset, actionList, payload⟩ := ruler
  obtain rfl : ruleset = some rules := hrules
  rw [matchRule]
  dsimp only
  cases hfind : rules.find? fun rule => rule.nodeType = kind with
  | none =>
    have hlooked : looked rules (kind, name) = none := by rw [looked, hfind, Option.filter_none]
    rw [hlooked]
    rfl
  | some rule =>
    have htype : rule.nodeType = kind := by simpa using List.find?_some hfind
    dsimp only
    by_cases hname : rule.nodeName = name
    · rw [if_neg (fun h => h.2 hname), looked_eq_some_iff.mpr ⟨hfind, hname⟩]
      rfl
    · have hlooked : looked rules (kind, name) = none := by
        rw [looked, hfind, Option.filter_some_neg (by simpa using hname)]
      rw [if_pos ⟨htype ▸ hkind, hname⟩, hlooked]
      rfl

/-- A lookup that is made only if there is no list yet. -/
theorem matchRule_unless (found : Option RuleNode) (payload : Option ScrapeData) {kind : RuleKind}
    (hkind : kind ≠ .unknown) (name : Bytes) :
    (if !(Ruler.mk (some rules) found payload).hasActionList then
        ((Ruler.mk (some rules) found payload).matchRule kind name).2
      else Ruler.mk (some rules) found payload) =
    ⟨some rules, found.or (looked rules (kind, name)), payload⟩ := by
  cases found with
  | none =>
    rw [matchRule_eq rfl hkind]
    simp [hasActionList]
  | some rule => rfl

/-- The lookups for a mime that was detected. -/
theorem matchMime_eq (mime : Mime) :
    (if ((Ruler.mk (some rules) none none).matchMimeRule mime).1 then
        ((Ruler.mk (some rules) none none).matchMimeRule mime).2
      else (((Ruler.mk (some rules) none none).matchMimeRule mime).2.matchCategoryRule mime).2) =
    ⟨some rules, (looked rules (.mime, mime.type)).or (looked rules (.category, mime.category)),
      none⟩ := by
  rw [matchMimeRule, matchRule_eq rfl (by decide)]
  dsimp only
  cases hmime : looked rules (.mime, mime.type) with
  | none =>
    rw [matchCategoryRule, matchRule_eq rfl (by decide)]
    simp
  | some rule => rfl

/-- The ruler after the lookups of the levels. -/
theorem matchData_eq (rules : List RuleNode) (mime : Option Mime) (data : ScrapeData) :
    matchData (some rules) mime data =
      ⟨some rules, (levels mime data).findSome? (looked rules), none⟩ := by
  -- The levels are looked up in the order of the list, each one only if those before found nothing.
  have hext : ∀ found : Option RuleNode,
      (if !(Ruler.mk (some rules) found none).hasActionList && !(extension data).isEmpty then
          ((Ruler.mk (some rules) found none).matchExtensionRule (extension data)).2
        else Ruler.mk (some rules) found none) =
      ⟨some rules, found.or ((if (extension data).isEmpty then [] else
        [(RuleKind.extension, extension data)]).findSome? (looked rules)), none⟩ := by
    intro found
    cases hempty : (extension data).isEmpty with
    | true => simp
    | false =>
      simp only [Bool.not_false, Bool.and_true, Bool.false_eq_true, if_false,
        List.findSome?_singleton]
      exact matchRule_unless found none (by decide) (extension data)
  unfold matchData levels
  rw [List.findSome?_append, List.findSome?_append, List.findSome?_singleton]
  cases mime with
  | none =>
    dsimp only
    rw [hext none, matchTypeRule, matchRule_unless _ _ (by decide)]
    rfl
  | some mime =>
    dsimp only
    rw [matchMime_eq, hext, matchTypeRule, matchRule_unless _ _ (by decide)]
    rw [List.findSome?_cons, List.findSome?_singleton]
    cases looked rules (.mime, mime.type) <;> rfl

/-- The rule whose actions run, and the actions. -/
theorem runRuleActions_matchData (rules : List RuleNode) (mime : Option Mime) (data data' : ScrapeData) :
    ((matchData (some rules) mime data).setDataProfile data').runRuleActions =
      (⟨some rules, ((levels mime data).findSome? (looked rules)).or (unknownRule rules), some data'⟩,
        ((((levels mime data).findSome? (looked rules)).or (unknownRule rules)).map
          (·.actionList)).getD []) := by
  rw [matchData_eq, setDataProfile, runRuleActions]
  dsimp only
  cases (levels mime data).findSome? (looked rules) with
  | some rule => rfl
  | none =>
    -- The rule for unknown data is found by its kind alone.
    have hunknown : ((Ruler.mk (some rules) none (some data')).matchRule .unknown []).2 =
        ⟨some rules, unknownRule rules, some data'⟩ := by
      rw [matchRule]
      dsimp only
      cases hfind : rules.find? fun rule => rule.nodeType = .unknown with
      | none => rw [unknownRule, hfind]
      | some rule =>
        have htype : rule.nodeType = .unknown := by simpa using List.find?_some hfind
        dsimp only
        rw [if_neg (fun h => h.1 htype), unknownRule, hfind]
    rw [show (Ruler.mk (some rules) none (some data')).hasActionList = false from rfl,
      if_neg Bool.false_ne_true, hunknown, Option.none_or]

end Ruler

theorem nodup_levels (mime : Option Mime) (data : ScrapeData) :
    ((levels mime data).map (·.1)).Nodup := by
  unfold levels
  cases mime <;> cases (extension data).isEmpty <;> simp

theorem unknown_notMem_levels (mime : Option Mime) (data : ScrapeData) :
    RuleKind.unknown ∉ (levels mime data).map (·.1) := by
  unfold levels
  cases mime <;> cases (extension data).isEmpty <;> simp

end Mavicona.Extract
