import Mavicona.Extract.Detect
import Mavicona.Extract.PngHandler

/-!
# The extractor

Reference: `extract/extractor.cpp` (`parseData`), `extract/detect.cpp` (`Detect::notify`,
`loadMimeParser`), `extract/ruler.cpp` (`runRuleActions`), `default.rule`.

A message goes through the detection, the lookups of the rules, the handler of its type and the actions
of its rule, in this order and in one process. Whatever keeps one of these from returning keeps the
actions from running, although the rule has been chosen by then.
-/

namespace Mavicona.Extract

open Mavicona.Scrape Bytes Numeral
open Mavicona.Cynder (MetaEntry)

/-! ## The calls -/

/-- What the extractor works with: its rules, whether `fork` succeeds for a request, the answers of
libmagic, the local time of the machine, what `lodepng` finds out about a payload, and whether `config`
and `run` of an action return. -/
structure Extractor where
  ruleset : Option (List RuleNode)
  forks : UInt32 → Bool
  magic : Bytes → Option Bytes
  timestampToString : ℤ → Bytes
  decode : Bytes → Option PngInfo
  returns : RuleAction → ScrapeData → Bool

/-- The metadata of a mime. -/
def mimeMetas (mime : Option Mime) (charset : Bytes) : List MetaEntry :=
  match mime with
  | none => []
  | some mime =>
    ⟨ascii "mime", none, [⟨ascii "name", some mime.name, []⟩, ⟨ascii "type", some mime.type, []⟩,
      ⟨ascii "category", some mime.category, []⟩]⟩ ::
      if charset.isEmpty then [] else [⟨ascii "charset", some charset, []⟩]

/-- The rule that the lookups come to. -/
def foundRule (rules : List RuleNode) (mime : Option Mime) (data : ScrapeData) : Option RuleNode :=
  ((levels mime data).findSome? (looked rules)).or (unknownRule rules)

namespace Extractor

variable (x : Extractor)

/-- `Detect::notify`: the metadata that the handler of the type adds, if it returns. -/
def notify (mime : Option Mime) (payload : Bytes) : Option (List MetaEntry) :=
  match mime with
  | none => some []
  | some mime =>
    if mime.type = ascii "text/plain" then
      let handled := handle x.timestampToString payload
      if handled.thrown.isSome then none else some handled.metas
    else if mime.type = ascii "image/png" then pngHandle x.decode payload
    else some []

/-- `parseData` behind the detection, if it comes to the actions: the ruler, and the actions that
ran. -/
def parseDetected (mime : Option Mime) (charset : Bytes) (counter : UInt32) (data : ScrapeData) :
    Option (Ruler × List RuleAction) :=
  let data :=
    { data with id := some counter.toInt32, metas := data.metas ++ mimeMetas mime charset }
  let ruler := matchData x.ruleset mime data
  match x.notify mime (payload data) with
  | none => none
  | some metas =>
    let data := { data with metas := data.metas ++ metas }
    let (ruler, actions) := (ruler.setDataProfile data).runRuleActions
    some (ruler, actions.takeWhile fun action => x.returns action data)

/-- `parseData`. -/
def parseData (counter : UInt32) (data : ScrapeData) : Option (Ruler × List RuleAction) :=
  match detect (x.magic (payload data)) (extension data) with
  | .error _ => none
  | .ok detector => x.parseDetected detector.mimeMatch detector.charset counter data

/-- The child of `handleRequest`, if there is one. -/
def handleRequest (counter : UInt32) (data : ScrapeData) : Option (Ruler × List RuleAction) :=
  if x.forks counter then x.parseData counter data else none

/-- The handler of the type returns: a text is no number without digits or one that does not fit into an
`int`, and a picture has no more international texts than others. -/
def Notifies (mime : Option Mime) (payload : Bytes) : Prop :=
  ∀ m, mime = some m → (m.type = ascii "text/plain" → ¬ Throws payload) ∧
    (m.type = ascii "image/png" →
      ∀ info, x.decode payload = some info → info.itextNum ≤ info.texts.length)

/-! ## The handlers -/

variable {x} {rules : List RuleNode} {mime : Option Mime} {charset : Bytes} {counter : UInt32}
  {data : ScrapeData} {p : Bytes}

theorem notify_isSome_iff : (x.notify mime p).isSome ↔ x.Notifies mime p := by
  have hdiffer : ascii "text/plain" ≠ ascii "image/png" := by decide
  cases mime with
  | none => exact iff_of_true rfl fun m hm => absurd hm (Option.some_ne_none m).symm
  | some m =>
    simp only [notify, Notifies, Option.some.injEq, forall_eq']
    split_ifs with htext hthrown hpng
    · -- a text whose conversion throws
      refine iff_of_false Bool.false_ne_true fun h => ?_
      rw [handle_of_not_throws (h.1 htext)] at hthrown
      exact absurd hthrown Bool.false_ne_true
    · refine iff_of_true rfl ⟨fun _ hthrows => hthrown ?_, fun h => absurd (htext.symm.trans h) hdiffer⟩
      obtain ⟨fault, hhandle⟩ := @handle_of_throws x.timestampToString p hthrows
      rw [hhandle]
      rfl
    · rw [pngHandle_isSome_iff]
      exact ⟨fun h => ⟨fun h' => absurd h' htext, fun _ => h⟩, fun h => h.2 hpng⟩
    · exact iff_of_true rfl ⟨fun h => absurd h htext, fun h => absurd h hpng⟩

/-- The message as the actions get it. -/
def marked (x : Extractor) (mime : Option Mime) (charset : Bytes) (counter : UInt32)
    (data : ScrapeData) : ScrapeData :=
  { data with
    id := some counter.toInt32
    metas := data.metas ++ mimeMetas mime charset ++ (x.notify mime (payload data)).getD [] }

/-- What runs behind the detection. -/
theorem parseDetected_eq (hrules : x.ruleset = some rules) :
    x.parseDetected mime charset counter data = (x.notify mime (payload data)).map fun _ =>
      (⟨some rules, foundRule rules mime data, some (x.marked mime charset counter data)⟩,
        (((foundRule rules mime data).map (·.actionList)).getD []).takeWhile fun action =>
          x.returns action (x.marked mime charset counter data)) := by
  -- The lookups read neither the number nor the metadata.
  have hlevels : levels mime { data with
      id := some counter.toInt32, metas := data.metas ++ mimeMetas mime charset } = levels mime data := rfl
  have hpayload : payload { data with
      id := some counter.toInt32, metas := data.metas ++ mimeMetas mime charset } = payload data := rfl
  rw [parseDetected, hrules]
  simp only [Ruler.runRuleActions_matchData, hlevels, hpayload, marked, foundRule]
  cases x.notify mime (payload data) <;> rfl

/-! ## What comes of a request -/

/-- The request as the programs behind the extractor see it. -/
def extraction (x : Extractor) (counter : ScrapeData → UInt32) (data : ScrapeData) : Extraction :=
  match x.handleRequest (counter data) data with
  | none => ⟨counter data, [], []⟩
  | some (ruler, actions) =>
    ⟨counter data, ((ruler.payload.map (·.metas)).getD []).drop data.metas.length, actions⟩

/-- The child of a request comes to a `store`: it is forked, the detection and the handler return, and
the rule that the lookups come to stores, before any action that does not return. -/
def Stores (x : Extractor) (rules : List RuleNode) (counter : UInt32) (data : ScrapeData) : Prop :=
  x.forks counter = true ∧ ∃ d rule, detect (x.magic (payload data)) (extension data) = .ok d ∧
    x.Notifies d.mimeMatch (payload data) ∧ foundRule rules d.mimeMatch data = some rule ∧
    .store ∈ rule.actionList.takeWhile fun action =>
      x.returns action (x.marked d.mimeMatch d.charset counter data)

theorem handleRequest_eq_some (hrules : x.ruleset = some rules) {ruler : Ruler}
    {actions : List RuleAction} (h : x.handleRequest counter data = some (ruler, actions)) :
    x.forks counter = true ∧ ∃ d, detect (x.magic (payload data)) (extension data) = .ok d ∧
      x.Notifies d.mimeMatch (payload data) ∧
      ruler.payload = some (x.marked d.mimeMatch d.charset counter data) ∧
      actions = (((foundRule rules d.mimeMatch data).map (·.actionList)).getD []).takeWhile
        fun action => x.returns action (x.marked d.mimeMatch d.charset counter data) := by
  rw [handleRequest] at h
  split_ifs at h with hfork
  rw [Extractor.parseData] at h
  cases hdetect : detect (x.magic (payload data)) (extension data) with
  | error fault =>
    rw [hdetect] at h
    cases h
  | ok d =>
    rw [hdetect] at h
    dsimp only at h
    rw [parseDetected_eq hrules] at h
    obtain ⟨metas, hmetas, h⟩ := Option.map_eq_some_iff.mp h
    obtain ⟨rfl, rfl⟩ := Prod.mk.inj h
    exact ⟨hfork, d, rfl, notify_isSome_iff.mp (Option.isSome_of_eq_some hmetas), rfl, rfl⟩

/-- The actions get the message of `extraction`. -/
theorem payload_handleRequest (hrules : x.ruleset = some rules) {counter : ScrapeData → UInt32}
    {ruler : Ruler} {actions : List RuleAction}
    (h : x.handleRequest (counter data) data = some (ruler, actions)) :
    ruler.payload = some (Extract.parseData (x.extraction counter data) data) ∧
      actions = (x.extraction counter data).actions := by
  obtain ⟨-, d, -, -, hpayload, -⟩ := handleRequest_eq_some hrules h
  have hextraction : x.extraction counter data = ⟨counter data,
      ((ruler.payload.map (·.metas)).getD []).drop data.metas.length, actions⟩ := by
    rw [extraction, h]
  rw [hextraction, hpayload]
  refine ⟨?_, rfl⟩
  simp [Extract.parseData, marked, List.append_assoc]

/-- A request is stored exactly if its child comes to a `store`. -/
theorem store_mem_extraction_iff (hrules : x.ruleset = some rules) {counter : ScrapeData → UInt32} :
    .store ∈ (x.extraction counter data).actions ↔ x.Stores rules (counter data) data := by
  constructor
  · intro hstore
    cases hrequest : x.handleRequest (counter data) data with
    | none =>
      rw [extraction, hrequest] at hstore
      exact absurd hstore List.not_mem_nil
    | some ran =>
      obtain ⟨ruler, actions⟩ := ran
      obtain ⟨-, hactions⟩ := payload_handleRequest hrules hrequest
      obtain ⟨hfork, d, hdetect, hnotify, -, hran⟩ := handleRequest_eq_some hrules hrequest
      rw [← hactions, hran] at hstore
      cases hrule : foundRule rules d.mimeMatch data with
      | none =>
        rw [hrule] at hstore
        exact absurd hstore List.not_mem_nil
      | some rule =>
        rw [hrule, Option.map_some, Option.getD_some] at hstore
        exact ⟨hfork, d, rule, hdetect, hnotify, hrule, hstore⟩
  · rintro ⟨hfork, d, rule, hdetect, hnotify, hrule, hstore⟩
    obtain ⟨metas, hmetas⟩ := Option.isSome_iff_exists.mp (notify_isSome_iff.mpr hnotify)
    have hrequest : x.handleRequest (counter data) data =
        some (⟨some rules, some rule, some (x.marked d.mimeMatch d.charset (counter data) data)⟩,
          rule.actionList.takeWhile fun action =>
            x.returns action (x.marked d.mimeMatch d.charset (counter data) data)) := by
      rw [handleRequest, if_pos hfork, Extractor.parseData, hdetect]
      dsimp only
      rw [parseDetected_eq hrules, hmetas, hrule]
      rfl
    rw [← (payload_handleRequest hrules hrequest).2]
    exact hstore

end Extractor

/-! ## The rule that runs -/

/-- The actions that run are, in order, those of the first rule of the most specific level. -/
def RunsFirstMatch (x : Extractor) (rules : List RuleNode) (mime : Option Mime) (charset : Bytes)
    (counter : UInt32) (data : ScrapeData) : Prop :=
  ∃ rule ruler, firstMatch rules (levels mime data) = some rule ∧
    x.parseDetected mime charset counter data = some (ruler, rule.actionList) ∧
    ruler.actionList = some rule

/-- The actions of the rule that should match return. -/
def ActionsReturn (x : Extractor) (rules : List RuleNode) (mime : Option Mime) (charset : Bytes)
    (counter : UInt32) (data : ScrapeData) : Prop :=
  ∀ rule, firstMatch rules (levels mime data) = some rule →
    ∀ action ∈ rule.actionList, x.returns action (x.marked mime charset counter data) = true

/-- **A message is handled by the first rule of the most specific level that matches exactly if
that rule is the first one of its kind,** the handler of its type returns, and so do the actions. For
every ruleset that was verified and every message, whatever mime was detected. -/
theorem runsFirstMatch_iff (x : Extractor) (rules : List RuleNode) (hrules : x.ruleset = some rules)
    (hverify : verifyRules x.ruleset = true) (mime : Option Mime) (charset : Bytes) (counter : UInt32)
    (data : ScrapeData) :
    RunsFirstMatch x rules mime charset counter data ↔
      FirstOfKindMatches rules (levels mime data) ∧ x.Notifies mime (payload data) ∧
        ActionsReturn x rules mime charset counter data := by
  rw [← findSome_looked_eq_firstMatch_iff (nodup_levels mime data) (unknown_notMem_levels mime data),
    ← Extractor.notify_isSome_iff, Option.isSome_iff_exists]
  constructor
  · rintro ⟨rule, ruler, hfirst, hparse, hfound⟩
    rw [Extractor.parseDetected_eq hrules] at hparse
    obtain ⟨metas, hmetas, hparse⟩ := Option.map_eq_some_iff.mp hparse
    obtain ⟨rfl, hactions⟩ := Prod.mk.inj hparse
    refine ⟨hfound.trans hfirst.symm, ⟨metas, hmetas⟩, fun rule' hrule' => ?_⟩
    obtain rfl := Option.some.inj (hfirst.symm.trans hrule')
    dsimp only at hfound
    rw [hfound, Option.map_some, Option.getD_some] at hactions
    exact List.takeWhile_eq_self_iff.mp hactions
  · rintro ⟨heq, ⟨metas, hmetas⟩, hreturn⟩
    -- There is a rule for unknown data, so some rule is found.
    rw [hrules] at hverify
    have hunknown : (unknownRule rules).isSome := ((Bool.and_eq_true _ _).mp hverify).1
    obtain ⟨rule, hsome⟩ : ∃ rule, foundRule rules mime data = some rule := by
      rw [← Option.isSome_iff_exists, foundRule, Option.isSome_or, hunknown, Bool.or_true]
    have hfirst : firstMatch rules (levels mime data) = some rule := heq.symm.trans hsome
    refine ⟨rule, ⟨some rules, some rule, some (x.marked mime charset counter data)⟩, hfirst, ?_, rfl⟩
    rw [Extractor.parseDetected_eq hrules, hmetas, Option.map_some, hsome, Option.map_some,
      Option.getD_some, List.takeWhile_eq_self_iff.mpr (hreturn rule hfirst)]

/-- `default.rule`. -/
def defaultRules : List RuleNode :=
  [⟨.extension, ascii ".pdf", [.store, .queue]⟩, ⟨.mime, ascii "text/plain", [.store]⟩,
    ⟨.mime, ascii "application/octet-stream", [.discard]⟩, ⟨.category, ascii "image", [.store]⟩,
    ⟨.type, ascii "binary", [.queue, .log]⟩, ⟨.unknown, [], [.queue]⟩]

/-- The default rules, on a machine where everything is at hand. -/
def defaultExtractor : Extractor where
  ruleset := some defaultRules
  forks _ := true
  magic _ := some (ascii "text/plain; charset=us-ascii")
  timestampToString t := print 10 t.toNat
  decode _ := none
  returns _ _ := true

/-- A text. -/
def textMime : Mime := ⟨ascii "Text File", ascii "text/plain", ascii ".txt"⟩

/-- A message with a payload. -/
def message (payload : Bytes) : ScrapeData := { content := some { payload := some payload } }

/-- The default rules handle a text by the first rule for mime types. -/
theorem runsFirstMatch_defaultRules_text :
    RunsFirstMatch defaultExtractor defaultRules (some textMime) (ascii "us-ascii") 1001
      (message (ascii "hello")) := by
  refine (runsFirstMatch_iff defaultExtractor defaultRules rfl (by decide +kernel) _ _ _ _).mpr
    ⟨fun l hl => ?_, fun m hm => ?_, fun _ _ _ _ => rfl⟩
  · obtain rfl : (RuleKind.mime, ascii "text/plain") = l := Option.some_inj.mp hl
    exact ⟨⟨.mime, ascii "text/plain", [.store]⟩, by decide +kernel, rfl⟩
  · obtain rfl := Option.some.inj hm
    refine ⟨fun _ => not_throws_of_mem (b := 104) (by decide) (by decide), fun hpng => ?_⟩
    exact absurd hpng (by decide)

/-- The default rules store a text exactly if its handler returns. -/
theorem stores_defaultRules_iff {counter : UInt32} {data : ScrapeData} :
    defaultExtractor.Stores defaultRules counter data ↔ ¬ Throws (payload data) := by
  have hanswer : (ascii "text/plain; charset=us-ascii").take
      ((ascii "text/plain; charset=us-ascii").idxOf 59) = ascii "text/plain" := by decide
  have hkey : ascii "text/plain" ∈ loadMime.map Prod.fst := by
    have hin : mime "Text File" "text/plain" ".txt" ∈ mimeTypes := by
      rw [mimeTypes]
      exact List.mem_cons_self
    have htype : (mime "Text File" "text/plain" ".txt").type = ascii "text/plain" := by decide +kernel
    exact htype ▸ mem_keys_loadMime hin
  obtain ⟨d, m, hdetect, hmatch, htype⟩ := @detect_of_known (ascii "text/plain; charset=us-ascii")
    (extension data) (by decide) (hanswer.symm ▸ hkey) (by decide)
  rw [hanswer] at htype
  have hmagic : detect (defaultExtractor.magic (payload data)) (extension data) = .ok d := hdetect
  constructor
  · rintro ⟨-, d', -, hdetect', hnotify, -⟩
    obtain rfl := Except.ok.inj (hmagic.symm.trans hdetect')
    exact (hnotify m hmatch).1 htype
  · intro hnot
    refine ⟨rfl, d, ⟨.mime, ascii "text/plain", [.store]⟩, hmagic, fun m' hm' => ?_, ?_, ?_⟩
    · obtain rfl := Option.some.inj (hmatch.symm.trans hm')
      refine ⟨fun _ => hnot, fun hpng => ?_⟩
      exact absurd (htype.symm.trans hpng) (by decide)
    · have hlooked : looked defaultRules (.mime, ascii "text/plain") =
          some ⟨.mime, ascii "text/plain", [.store]⟩ := by decide +kernel
      rw [foundRule, hmatch, levels, htype]
      simp only [List.cons_append, List.findSome?_cons, hlooked, Option.some_or]
    · exact List.mem_cons_self

/-- The mime of binary data. -/
def octetStream : Mime := ⟨ascii "Binary Data", ascii "application/octet-stream", ascii ".bin"⟩

/-- The default rules discard binary data by their second rule for mime types; such a message is
queued. -/
theorem defaultRules_queue_octetStream :
    verifyRules (some defaultRules) = true ∧
      (firstMatch defaultRules (levels (some octetStream) (message [0, 1, 2, 255]))).map (·.actionList) =
        some [.discard] ∧
      (defaultExtractor.parseDetected (some octetStream) (ascii "binary") 1001
        (message [0, 1, 2, 255])).map Prod.snd = some [.queue] := by
  refine ⟨by decide +kernel, by decide +kernel, by decide +kernel⟩

/-- A text that is too large a number is not stored, nor is anything else done with it. -/
example : defaultExtractor.parseDetected (some textMime) (ascii "us-ascii") 1001
    (message (ascii "9999999999")) = none := by
  decide +kernel

end Mavicona.Extract
