import FactoryDowngrade.Plan

/-!
# Log records

What a run remarks on as it goes: each record has a level, the stage it comes from and a message.
The records of an analysis follow from the analysis itself.
-/

namespace FactoryDowngrade

/-- How much a log record matters. -/
inductive LogLevel where
  | debug
  | info
  | warning
  | error
deriving DecidableEq, Repr

/-- The stages that write log records. -/
inductive LogSource where
  | calls
  | granularity
  | policy
  | pipeline
  | oracle
  | trial
deriving DecidableEq, Repr

/-- A remark of a stage. -/
structure LogRecord where
  level : LogLevel
  source : LogSource
  message : String
deriving DecidableEq, Repr

namespace LogLevel

/-- The name of a level. -/
def name : LogLevel → String
  | debug => "DEBUG"
  | info => "INFO"
  | warning => "WARNING"
  | error => "ERROR"

/-- Whether the level is shown without being asked for. -/
def isNotable : LogLevel → Bool
  | warning => true
  | error => true
  | _ => false

end LogLevel

namespace LogSource

/-- The name of a stage. -/
def name : LogSource → String
  | calls => "parse.factory_calls"
  | granularity => "rules.granularity"
  | policy => "rules.policy"
  | pipeline => "engine.pipeline"
  | oracle => "verify.oracle"
  | trial => "rewrite.transaction"

end LogSource

namespace LogRecord

/-- A record as a line of output. -/
def line (r : LogRecord) : String :=
  s!"{r.level.name} {r.source.name}: {r.message}\n"

end LogRecord

namespace Analysis

/-- The remark that no cue was found. -/
def cueRecords (a : Analysis) : List LogRecord :=
  if a.resolution.source = .default then
    [⟨.warning, .granularity,
      s!"no granularity cue found; falling back to {a.resolution.granularity.name}"⟩]
  else []

/-- The remarks about calls that cannot be read, and the count of all calls. -/
def siteRecords (a : Analysis) : List LogRecord :=
  let faulty := a.sites.filterMap fun site =>
    site.fault.map fun fault =>
      ⟨.debug, .calls, s!"unparsed call at offset {site.sourceSpan.start}: {fault.message}"⟩
  let bound := (a.sites.filter fun site => site.bindingName.isSome).length
  faulty ++ [⟨.debug, .calls,
    s!"extracted {a.sites.length} construction call sites " ++
      s!"({faulty.length} unparsed, {bound} bound)"⟩]

/-- The remarks about one decision: the signals that were found, and the change it proposes. -/
def decisionRecords (d : Decision) : List LogRecord :=
  let hits := (d.evidence.filter (·.isMatch)).map (·.signalName)
  let found := if hits.isEmpty then "none" else ", ".intercalate hits
  let evidence : LogRecord := ⟨.debug, .pipeline, s!"{d.siteId}: evidence {found}"⟩
  if d.isNoop then [evidence]
  else
    [evidence, ⟨.info, .policy, s!"{d.siteId}: propose {d.source.method} -> {d.target.method}"⟩]

/-- The remarks of an analysis, in order. -/
def records (a : Analysis) : List LogRecord :=
  a.cueRecords ++ a.siteRecords ++ a.decisions.flatMap decisionRecords

end Analysis

end FactoryDowngrade
