import FactoryDowngrade.Log
import FactoryDowngrade.Report
import FactoryDowngrade.World.FileTree

/-!
# Trying a candidate out

The candidate text of a plan is written to a private scratch directory and judged there by the
verification command. Either every proposed change is committed, or none is and the text comes
back as it was. If asked to, the command first judges the text as it is: when that does not pass,
the command cannot tell anything about the candidate.

Surroundings are abstract here: a bench offers a scratch directory, judges a text in it and takes
it away again, and each of these may fail.
-/

namespace FactoryDowngrade

/-- What is wrong with a command whatever machine it is for: a limit that no clock or memory can
hold, or a variable whose name cannot be told from its value. -/
inductive CommandFault where
  | tooLarge
  | variableName
deriving DecidableEq, Repr

/-- The wording of a fault. -/
def CommandFault.message : CommandFault → String
  | tooLarge => "a setting of the verification command is too large"
  | variableName => "illegal environment variable name"

/-- Why a trial cannot be carried through: its scratch directory fails, or the command cannot be
started here or anywhere. -/
inductive TrialFault where
  | scratch (fault : OsFault)
  | unavailable (message : String)
  | command (fault : CommandFault)
deriving DecidableEq, Repr

/-- The surroundings of a trial, over states of type `σ`: `enter` makes a scratch directory for a
file name, `judge` writes a text under that name in it and runs the command on it, `leave` takes
the directory away, and `remark` writes a log record. -/
structure Bench (σ : Type) where
  enter : String → σ → Except OsFault PathName × σ
  judge : PathName → String → Text → σ → Except TrialFault Verdict × σ
  leave : PathName → σ → Except OsFault Unit × σ
  remark : LogRecord → σ → σ

/-- What became of a trial. -/
structure TrialResult where
  status : ReportStatus
  text : Text
  decisions : List Decision
  verdict : Option Verdict
  notes : List Note
deriving DecidableEq

/-- Why there is no result: a fault of the trial, or of the plan. -/
inductive RunFault where
  | trial (fault : TrialFault)
  | plan (fault : PlanFault)
deriving DecidableEq, Repr

namespace Trial

/-- The result of proposing nothing. -/
def untried (text : Text) (decisions : List Decision) : TrialResult :=
  ⟨.clean, text, decisions, none, []⟩

/-- The result that takes everything back, with the verdict and the note that say why. -/
def rollback (text : Text) (decisions : List Decision) (v : Verdict) (note : Note) : TrialResult :=
  ⟨.reverted, text, decisions, some v, [note]⟩

/-- The result that commits every proposal. -/
def commit (candidate : Text) (decisions : List Decision) (v : Verdict) : TrialResult :=
  ⟨.optimized, candidate, decisions.map Decision.commit, some v, []⟩

/-- The note about a text that does not pass before any change. -/
def baselineNote (o : Outcome) : Note :=
  ⟨.warning, "baseline_failed", s!"Unmodified file did not pass the oracle ({o.name})"⟩

/-- The note about a candidate that does not pass. -/
def candidateNote (o : Outcome) : Note :=
  ⟨.warning, s!"verification_{o.name}", s!"Candidate did not pass the oracle ({o.name})"⟩

variable {σ : Type}

/-- Judges the text as it is and gives the result if it does not pass. -/
def checkBaseline (bench : Bench σ) (dir : PathName) (file : String) (text : Text)
    (decisions : List Decision) (s : σ) : Except TrialFault (Option TrialResult) × σ :=
  match bench.judge dir file text s with
  | (.error fault, s) => (.error fault, s)
  | (.ok v, s) =>
    if v.isPass then (.ok none, s)
    else
      let s := bench.remark ⟨.warning, .trial,
        s!"{file}: baseline {v.outcome.name}; oracle cannot judge the candidate"⟩ s
      (.ok (some (rollback text decisions v (baselineNote v.outcome))), s)

/-- Judges the candidate. -/
def checkCandidate (bench : Bench σ) (dir : PathName) (file : String) (text candidate : Text)
    (decisions : List Decision) (s : σ) : Except TrialFault TrialResult × σ :=
  match bench.judge dir file candidate s with
  | (.error fault, s) => (.error fault, s)
  | (.ok v, s) =>
    if v.isPass then
      let result := commit candidate decisions v
      let count := (result.decisions.filter (·.applied)).length
      (.ok result, bench.remark ⟨.info, .trial, s!"{file}: committed {count} change(s)"⟩ s)
    else
      let s := bench.remark ⟨.warning, .trial,
        s!"{file}: verification {v.outcome.name}; rolling back"⟩ s
      (.ok (rollback text decisions v (candidateNote v.outcome)), s)

/-- Judges in a scratch directory: the text as it is, if asked to, and then the candidate. -/
def verify (bench : Bench σ) (baseline : Bool) (dir : PathName) (file : String)
    (text candidate : Text) (decisions : List Decision) (s : σ) :
    Except TrialFault TrialResult × σ :=
  if baseline then
    match checkBaseline bench dir file text decisions s with
    | (.error fault, s) => (.error fault, s)
    | (.ok (some result), s) => (.ok result, s)
    | (.ok none, s) => checkCandidate bench dir file text candidate decisions s
  else checkCandidate bench dir file text candidate decisions s

/-- Tries the candidate in a scratch directory of its own. A directory that cannot be taken away
again makes the trial fail. -/
def inScratch (bench : Bench σ) (baseline : Bool) (file : String) (text candidate : Text)
    (decisions : List Decision) (s : σ) : Except TrialFault TrialResult × σ :=
  match bench.enter file s with
  | (.error fault, s) => (.error (.scratch fault), s)
  | (.ok dir, s) =>
    let (result, s) :=
      verify bench baseline dir (PathName.ofString file).name text candidate decisions s
    match bench.leave dir s with
    | (.error fault, s) => (.error (.scratch fault), s)
    | (.ok (), s) => (result, s)

/-- Tries the proposals among some decisions about a text. -/
def run (bench : Bench σ) (baseline : Bool) (file : String) (text : Text) (sites : List CallSite)
    (decisions : List Decision) (s : σ) : Except RunFault TrialResult × σ :=
  let proposals := decisions.filter (·.isProposal)
  if proposals.isEmpty then (.ok (untried text decisions), s)
  else
    match candidateText text sites proposals with
    | .error fault => (.error (.plan fault), s)
    | .ok candidate =>
      let (result, s) := inScratch bench baseline file text candidate decisions s
      (result.mapError .trial, s)

end Trial

end FactoryDowngrade
