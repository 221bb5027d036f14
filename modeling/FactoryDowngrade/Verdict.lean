import FactoryDowngrade.Number.Binary64
import FactoryDowngrade.Text.CharClass

/-!
# Verdicts

The verification command answers whether a candidate passes. Anything but a clean exit counts
against the candidate: a failing exit, a death by signal, or no end within the time limit.
-/

namespace FactoryDowngrade

/-- How a verification run ended. -/
inductive Outcome where
  | passed
  | failed
  | timeout
  | crashed
deriving DecidableEq, Repr

namespace Outcome

/-- The name of an outcome. -/
def name : Outcome → String
  | passed => "passed"
  | failed => "failed"
  | timeout => "timeout"
  | crashed => "crashed"

/-- The outcome with the given name. -/
def ofName? (name : String) : Option Outcome :=
  [passed, failed, timeout, crashed].find? fun o => o.name = name

/-- The outcome of a run that ended by itself with the given exit status; a status below zero
stands for the signal that ended it. -/
def ofStatus (status : Int) : Outcome :=
  if status = 0 then passed else if status < 0 then crashed else failed

end Outcome

/-- What is told about a verification run in a report. -/
structure Summary where
  outcome : Outcome
  status : Option Int
  elapsedSeconds : Binary64
  lastLines : List String
deriving DecidableEq, Repr

/-- The result of a verification run. -/
structure Verdict where
  outcome : Outcome
  status : Option Int
  elapsedSeconds : Binary64
  invocation : Text
  lastLines : List String
deriving DecidableEq, Repr

namespace Verdict

/-- Whether the candidate passed. -/
def isPass (v : Verdict) : Bool :=
  v.outcome = .passed

/-- The summary of a run, with its time in whole milliseconds. -/
def summary (v : Verdict) : Summary :=
  ⟨v.outcome, v.status, v.elapsedSeconds.roundTo 3, v.lastLines⟩

end Verdict

end FactoryDowngrade
