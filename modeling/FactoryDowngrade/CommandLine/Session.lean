import FactoryDowngrade.CommandLine.Arguments
import FactoryDowngrade.ConfigFile
import FactoryDowngrade.Data.Record
import FactoryDowngrade.OptimizeFile
import FactoryDowngrade.Oracle

/-!
# Carrying out a command line

An analysis prints the plan for a file. An optimization goes through the files one by one, tells of
each in a line, and writes a report on each if asked to. The exit status tells whether all files
could be dealt with; settings that cannot be used end the program before any file is touched.
-/

namespace FactoryDowngrade

namespace CommandLine

/-- What the program leaves behind when it ends by itself: its exit status and what it printed. -/
structure Finish where
  status : Nat
  out : String
  err : String
deriving DecidableEq, Repr

/-- What the program has no answer to. -/
inductive Escape where
  | encoding (fault : Utf8Fault)
  | tooManyDigits (count : Nat)
  | tooDeep
  | files (fault : OsFault)
  | unwritable
  | text (fault : OptimizeFault)
  | noHome
deriving DecidableEq, Repr

/-- Why the program does not end by itself. -/
inductive Stop where
  | usage (status : Nat)
  | escaped (fault : Escape)
deriving DecidableEq, Repr

/-- The home directory. -/
def home : List String := ["root"]

/-- A path name whose first component may stand for the home directory. -/
def expandHome? (p : PathName) : Option PathName :=
  match p.isAbsolute, p.parts with
  | false, first :: rest =>
    if first = "~" || first = "~root" then some (.absolute (home ++ rest))
    else if Text.startsWith first.toList ['~'] then none
    else some p
  | _, _ => some p

/-- The log records that are shown, as lines. -/
def logLines (verbose : Bool) (w : World) : String :=
  String.join ((w.records.filter fun r => verbose || r.level.isNotable).map LogRecord.line)

/-- The line about a file without a report. -/
def faultLine (p : PathName) (message : String) : String :=
  s!"error: {p.toText}: {message}\n"

/-! ### Analysis -/

namespace Analyze

/-- What analysing a text prints. -/
def ofText (p : PathName) (text : Text) (granularity : Option Text) (config : Config) :
    Except Stop (Nat × String × String) :=
  match Plan.ofText text granularity config with
  | .ok plan => .ok (0, plan.toData.layout ++ "\n", "")
  | .error (.conflict fault) => .ok (2, "", faultLine p fault.message)
  | .error (.unknownSite id) => .error (.escaped (.text (.unknownSite id)))

/-- Analyses a file. -/
def run (verbose : Bool) (granularity : Option Text) (config : Config) (file : String)
    (w : World) : Except Stop Finish :=
  let p := PathName.ofString file
  match OptimizeFile.readText w p with
  | .error (.unreadable fault) => .ok ⟨2, "", faultLine p fault.message⟩
  | .error (.encoding fault) => .ok ⟨2, "", faultLine p fault.message⟩
  | .error (.text fault) => .error (.escaped (.text fault))
  | .ok text =>
    let records := (Analysis.ofText text granularity config).records
    let w := records.foldl World.remark w
    (ofText p text granularity config).map fun (status, out, err) =>
      ⟨status, out, logLines verbose w ++ err⟩

end Analyze

/-! ### Optimization -/

namespace Batch

/-- What became of a file. -/
abbrev Outcome := Except FileFault OptimizeResult

/-- The summary of a report in one line. -/
def summary (p : PathName) (r : Report) : String :=
  let applied := r.appliedCount
  let proposed := r.proposedCount
  let status := r.outcome.status.name
  s!"{p.toText}: {status} ({applied}/{proposed} applied, granularity={r.granularity.name})"

/-- The line about a file. -/
def statusLine (p : PathName) : Outcome → String
  | .error (.unreadable fault) => faultLine p fault.message
  | .error (.encoding fault) => faultLine p fault.message
  | .error (.text _) => ""
  | .ok result =>
    let line := summary p result.report
    match result.report.outcome.status with
    | .error => s!"error: {line}\n"
    | .reverted => s!"warning: {line}\n"
    | _ => s!"{line}\n"

/-- The lines below it that say what went wrong. -/
def faultLines : Outcome → String
  | .error _ => ""
  | .ok result =>
    match result.report.outcome.status with
    | .error =>
      let faults := result.report.notes.filter fun note => note.level = .error
      String.join (faults.map fun note => s!"  {note.code}: {note.message}\n")
    | _ => ""

/-- The lines about a file. -/
def lines (p : PathName) (outcome : Outcome) : String :=
  statusLine p outcome ++ faultLines outcome

/-- Whether a file could be dealt with. -/
def isFine : Outcome → Bool
  | .error _ => false
  | .ok result => result.report.outcome.status != .error

/-- The exit status after some files. -/
def statusOf (outcomes : List Outcome) : Nat :=
  if outcomes.all isFine then 0 else 2

/-- The name of the report on a file at some components: those below the root, or all of them
outside of it, without the extension. -/
def reportName (root parts : List String) : String :=
  let inside := if root.isPrefixOf parts && root ≠ parts then parts.drop root.length else parts
  let name := PathName.stemOf (inside.getLast?.getD "")
  "__".intercalate (inside.dropLast ++ [name]) ++ ".report.json"

/-- Writes the report on a file. -/
def writeReport (root : List String) (dir p : PathName) (r : Report) (w : World) :
    Except Escape World :=
  match expandHome? p with
  | none => .error .noHome
  | some p =>
    let target := dir.child (reportName root (PathName.resolve w.cwd p))
    match w.ensureDir dir, r.written? with
    | (.error fault, _), _ => .error (.files fault)
    | (.ok (), _), none => .error .unwritable
    | (.ok (), w), some text =>
      match w.write target (Utf8.encode (text ++ "\n").toList) with
      | (.error fault, _) => .error (.files fault)
      | (.ok (), w) => .ok w

/-- Writes the reports on some files. -/
def writeReports (root : List String) (dir : PathName) :
    List (PathName × Outcome) → World → Except Escape World
  | [], w => .ok w
  | (_, .error _) :: rest, w => writeReports root dir rest w
  | (p, .ok result) :: rest, w =>
    match writeReport root dir p result.report w with
    | .ok w => writeReports root dir rest w
    | .error fault => .error fault

variable {τ : Type}

/-- Optimizes files one after the other, each with its own surroundings. -/
def runAll (verify : PathName → Verifier τ) (weather : PathName → WriteBack.Weather)
    (scratchRoot : Option PathName) (granularity : Option Text) (config : Config) :
    List PathName → World × τ → List (PathName × Outcome) × (World × τ)
  | [], s => ([], s)
  | p :: rest, s =>
    let (outcome, s) :=
      OptimizeFile.run (verify p) (weather p) scratchRoot p granularity config s
    let (more, s) := runAll verify weather scratchRoot granularity config rest s
    ((p, outcome) :: more, s)

/-- The fault of the first file whose text has no report. -/
def escape? (outcomes : List (PathName × Outcome)) : Option Escape :=
  outcomes.findSome? fun
    | (_, .error (.text fault)) => some (.text fault)
    | _ => none

/-- Tells of files that were optimized and writes reports on them. -/
def conclude (verbose : Bool) (root : List String) (reportDir : Option PathName)
    (outcomes : List (PathName × Outcome)) (w : World) : Except Stop Finish × World :=
  let finish : Finish :=
    ⟨statusOf (outcomes.map (·.2)), "",
      logLines verbose w ++ String.join (outcomes.map fun (p, outcome) => lines p outcome)⟩
  match escape? outcomes with
  | some fault => (.error (.escaped fault), w)
  | none =>
    match reportDir with
    | none => (.ok finish, w)
    | some dir =>
      match writeReports root dir outcomes w with
      | .ok w => (.ok finish, w)
      | .error fault => (.error (.escaped fault), w)

/-- Whether options can be used at all. -/
def checkOptions (timeout : Option Binary64) (jobs : Int) (command : Option (List String)) :
    Except ConfigFault Unit :=
  let isTooShort : Bool :=
    match timeout with
    | some .nan => false
    | some seconds => !seconds.isPositive
    | none => false
  if jobs < 1 then .error .tooFewJobs
  else if command = some [] then .error .emptyCommand
  else if isTooShort then .error .notPositiveTimeout
  else .ok ()

/-- The configuration of the project at a root and its scratch directory, if the options can be
used and so can these. -/
def settings (timeout : Option Binary64) (jobs : Int) (command : Option (List String))
    (root : List String) (w : World) : Except ConfigFileFault (Config × Option (List String)) :=
  match checkOptions timeout jobs command with
  | .error fault => .error (.config fault)
  | .ok () =>
    match ConfigFile.load w root with
    | .error fault => .error fault
    | .ok config =>
      match ConfigFile.scratchDirectory root config.scratchDir with
      | .error fault => .error (.config fault)
      | .ok scratchRoot => .ok (config, scratchRoot)

end Batch

/-! ### Orders -/

/-- The end of a program whose settings cannot be used. -/
def refuse (fault : ConfigFault) : Finish :=
  ⟨1, "", s!"error: {fault.message}\n"⟩

/-- The end of a program whose configuration file cannot be used. -/
def refuseFile : ConfigFileFault → Except Stop Finish
  | .unreachable fault => .error (.escaped (.files fault))
  | .encoding fault => .error (.escaped (.encoding fault))
  | .tooManyDigits count => .error (.escaped (.tooManyDigits count))
  | .tooDeep => .error (.escaped .tooDeep)
  | .config fault => .ok (refuse fault)

/-- Carries out an order for the project at a root. -/
def perform (arguments : Arguments) (root : List String) (w : World) :
    Except Stop Finish × World :=
  let granularity := arguments.granularity.map String.toList
  match arguments.order with
  | .analyze file =>
    match ConfigFile.load w root with
    | .error fault => (refuseFile fault, w)
    | .ok config => (Analyze.run arguments.verbose granularity config file w, w)
  | .optimize files timeout jobs reportDir command =>
    match Batch.settings timeout jobs command root w with
    | .error fault => (refuseFile fault, w)
    | .ok (config, scratchRoot) =>
      let oracle := Oracle.ofConfig config root (command.getD []) (timeout.map .exact)
      let (outcomes, s) := Batch.runAll (fun _ => oracle.verify) (fun _ => WriteBack.fair)
        (scratchRoot.map .absolute) granularity config (files.map .ofString) (w, ())
      Batch.conclude arguments.verbose root (reportDir.map .ofString) outcomes s.1

/-- Runs the program with some arguments. -/
def run (arguments : List String) (w : World) : Except Stop Finish × World :=
  match Arguments.read arguments with
  | .error status => (.error (.usage status), w)
  | .ok arguments =>
    match expandHome? (.ofString arguments.root) with
    | none => (.error (.escaped .noHome), w)
    | some root => perform arguments (PathName.resolve w.cwd root) w

end CommandLine

end FactoryDowngrade
