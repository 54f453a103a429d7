import Mavicona.Pitch.Task
import Mavicona.Scrape.Dispatch

/-!
# The actions of the extractor

Reference: `extract/extractor.cpp` (`parseData`), `extract/ruler.cpp` (`runRuleActions`),
`extract/action_queue.cpp`.

The extractor gives a message a number of its own, adds what it found out about the payload as metadata,
and runs the actions of the rule that matches. The action `QUEUE` sends a task to the pitcher.
-/

namespace Mavicona.Extract

open Mavicona.Scrape Mavicona.Pitch
open Mavicona.Cynder (MetaEntry)

/-- The actions of a rule. -/
inductive RuleAction
  | log
  | store
  | discard
  | queue
deriving DecidableEq, Repr

/-- What detection, handlers and rules come to for a message: the number it gets, the metadata that is
added and the actions of the rule, none if the child ends before them. -/
structure Extraction where
  counter : UInt32
  metas : List MetaEntry
  actions : List RuleAction

/-- What `parseData` makes of the message, up to the actions. -/
def parseData (e : Extraction) (data : ScrapeData) : ScrapeData :=
  { data with id := some e.counter.toInt32, metas := data.metas ++ e.metas }

/-- The task of `Queue::run`. -/
def queueTask (payload : ScrapeData) : Task where
  name := some payload.getName
  id := some payload.getId
  quid := some payload.getQuid
  priority := some .normal

/-- The tasks that `runRuleActions` sends to the pitcher. -/
def runRuleActions (actions : List RuleAction) (payload : ScrapeData) : List Task :=
  (actions.filter (· = .queue)).map fun _ => queueTask payload

end Mavicona.Extract
