import FactoryDowngrade.Trial

/-!
# Optimizing a text

A text is analysed, its proposals are tried out, and a report tells what became of them. Whatever
keeps the proposals from being verified ends in a report as well, with the text as it was.
-/

namespace FactoryDowngrade

/-- The text that comes back, and the report about it. -/
structure OptimizeResult where
  text : Text
  report : Report
deriving DecidableEq

/-- Why there is no report. -/
inductive OptimizeFault where
  | unknownSite (id : String)
  | draft (fault : DraftFault)
  | command (fault : CommandFault)
deriving DecidableEq, Repr

/-- How a report tells of a fault: its code, its wording, and whether the command was started, or
at least tried to be. -/
structure FaultAccount where
  code : String
  message : String
  isAttempt : Bool
deriving DecidableEq, Repr

namespace Optimize

/-- The file name of a text that has none. -/
def defaultFileName : String := "candidate_spec.rb"

/-- The account of a fault, unless it is one that no report tells of. -/
def account (file : String) : RunFault → Except OptimizeFault FaultAccount
  | .trial (.unavailable message) => .ok ⟨"oracle_unavailable", message, true⟩
  | .trial (.scratch fault) =>
    .ok ⟨"scratch_failure", s!"scratch candidate for {file} failed: {fault.message}", false⟩
  | .trial (.command fault) => .error (.command fault)
  | .plan (.conflict fault) => .ok ⟨"patch_conflict", fault.message, false⟩
  | .plan (.unknownSite id) => .error (.unknownSite id)

/-- Completes a draft with decisions, notes and what the run came to. -/
def complete (draft : Draft) (decisions : List Decision) (notes : List Note)
    (outcome : ReportOutcome) : Except OptimizeFault Report :=
  match draft.addDecisions decisions with
  | (_, some fault) => .error (.draft fault)
  | (draft, none) => (((draft.addNotes notes).setOutcome outcome).build).mapError .draft

/-- The report about a trial that was carried through. -/
def reportOf (draft : Draft) (r : TrialResult) : Except OptimizeFault Report :=
  complete draft r.decisions r.notes
    ⟨r.status, r.verdict.isSome, r.verdict.map Verdict.summary⟩

/-- The report about a fault. -/
def faultReport (draft : Draft) (decisions : List Decision) (fault : FaultAccount) :
    Except OptimizeFault Report :=
  complete draft decisions [⟨.error, fault.code, fault.message⟩] ⟨.error, fault.isAttempt, none⟩

variable {σ : Type}

/-- Writes log records in order. -/
def remarkAll (bench : Bench σ) (records : List LogRecord) (s : σ) : σ :=
  records.foldl (fun s r => bench.remark r s) s

/-- Optimizes a text under a file name. -/
def run (bench : Bench σ) (text : Text) (granularity : Option Text) (config : Config)
    (file : String) (s : σ) : Except OptimizeFault OptimizeResult × σ :=
  let a := Analysis.ofText text granularity config
  let s := remarkAll bench a.records s
  let draft := (Draft.ofAnalysis a).addNotes a.notes
  match Trial.run bench config.verifyBaseline file text a.sites a.decisions s with
  | (.ok result, s) => ((reportOf draft result).map fun report => ⟨result.text, report⟩, s)
  | (.error fault, s) =>
    match account file fault with
    | .error fault => (.error fault, s)
    | .ok fault =>
      let s := bench.remark ⟨.error, .pipeline, s!"{file}: {fault.message}"⟩ s
      ((faultReport draft a.decisions fault).map fun report => ⟨text, report⟩, s)

end Optimize

end FactoryDowngrade
