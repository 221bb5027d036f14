import FactoryDowngrade.Plan
import FactoryDowngrade.Verdict

/-!
# Reports

A report tells what became of every call site of a file. It is drafted step by step: decisions
come in any order and may replace earlier ones for the same site, notes are kept in the order they
come in, and the last outcome counts. A report is complete when every site has a decision; it then
lists them in the order of the sites.
-/

namespace FactoryDowngrade

/-- What became of a file. -/
inductive ReportStatus where
  | clean
  | optimized
  | reverted
  | error
deriving DecidableEq, Repr

namespace ReportStatus

/-- The name of a status. -/
def name : ReportStatus → String
  | clean => "clean"
  | optimized => "optimized"
  | reverted => "reverted"
  | error => "error"

/-- The status with the given name. -/
def ofName? (name : String) : Option ReportStatus :=
  [clean, optimized, reverted, error].find? fun s => s.name = name

end ReportStatus

/-- What a run came to as a whole. -/
structure ReportOutcome where
  status : ReportStatus
  attempted : Bool
  verification : Option Summary
deriving DecidableEq

/-- The report about a file. -/
structure Report where
  decisions : List Decision
  outcome : ReportOutcome
  granularity : Granularity
  source : GranularitySource
  notes : List Note
deriving DecidableEq

namespace Report

/-- The number of changes made. -/
def appliedCount (r : Report) : Nat :=
  (r.decisions.filter (·.applied)).length

/-- The number of changes proposed. -/
def proposedCount (r : Report) : Nat :=
  (r.decisions.filter (·.isProposal)).length

/-- The report after its changes could not be written: no change is applied, the status is an
error, and a note is added. -/
def withdraw (r : Report) (note : Note) : Report :=
  { r with
    decisions := r.decisions.map Decision.withdraw
    outcome := { r.outcome with status := .error }
    notes := r.notes ++ [note] }

end Report

/-- A report underway. `decisions` holds the last decision for each site that has one. -/
structure Draft where
  siteIds : List String
  granularity : Granularity
  source : GranularitySource
  decisions : List Decision
  notes : List Note
  outcome : ReportOutcome
deriving DecidableEq

/-- Why a draft refuses a decision or a report. -/
inductive DraftFault where
  | unknownSite (id : String)
  | incomplete (missing : List String)
deriving DecidableEq, Repr

namespace DraftFault

/-- The wording of a fault. -/
def message : DraftFault → String
  | unknownSite id =>
    s!"decision for unknown call site {String.ofList (Quoted.literal id.toList)}"
  | incomplete missing =>
    let ids := ", ".intercalate missing
    s!"report is missing decisions for call sites: {ids}"

end DraftFault

namespace Draft

/-- A draft about some sites with nothing entered. -/
def start (sites : List CallSite) (granularity : Granularity) (source : GranularitySource) :
    Draft :=
  ⟨sites.map (·.id), granularity, source, [], [], ⟨.clean, false, none⟩⟩

/-- A draft about the sites of an analysis. -/
def ofAnalysis (a : Analysis) : Draft :=
  start a.sites a.resolution.granularity a.resolution.source

/-- The decision entered for a site. -/
def decisionFor? (d : Draft) (id : String) : Option Decision :=
  d.decisions.find? fun x => x.siteId = id

/-- Enters a decision in place of an earlier one for its site. -/
def put (d : Draft) (x : Decision) : Draft :=
  { d with decisions := x :: d.decisions.filter fun y => y.siteId ≠ x.siteId }

/-- Enters decisions up to the first one whose site is unknown, which is the fault. -/
def addDecisions (d : Draft) : List Decision → Draft × Option DraftFault
  | [] => (d, none)
  | x :: rest =>
    if d.siteIds.contains x.siteId then (d.put x).addDecisions rest
    else (d, some (.unknownSite x.siteId))

/-- Enters notes behind the earlier ones. -/
def addNotes (d : Draft) (notes : List Note) : Draft :=
  { d with notes := d.notes ++ notes }

/-- Sets what the run came to. -/
def setOutcome (d : Draft) (outcome : ReportOutcome) : Draft :=
  { d with outcome }

/-- The sites without a decision, in the order of their ids. -/
def missing (d : Draft) : List String :=
  (d.siteIds.filter fun id => (d.decisionFor? id).isNone).mergeSort fun a b => a ≤ b

/-- The decisions in the order of their sites. -/
def listed (d : Draft) : List Decision :=
  d.decisions.mergeSort fun x y => d.siteIds.idxOf x.siteId ≤ d.siteIds.idxOf y.siteId

/-- The report, if there are as many decisions as sites. -/
def build (d : Draft) : Except DraftFault Report :=
  if d.decisions.length = d.siteIds.length then
    .ok ⟨d.listed, d.outcome, d.granularity, d.source, d.notes⟩
  else .error (.incomplete d.missing)

end Draft

end FactoryDowngrade
