import FactoryDowngrade.Data.Check
import FactoryDowngrade.Evidence.Detector
import FactoryDowngrade.Granularity

/-!
# Configuration

The settings of a run, with their defaults, and the check that turns a table of data into
settings. Unknown settings are refused, and every fault is listed. An accepted configuration names
each detector at most once, has a command to run, a time limit above zero and at least one line of
output to keep.
-/

namespace FactoryDowngrade

/-- How the verification command is run. -/
structure OracleSettings where
  command : List String
  timeout : Binary64
  tailLines : Int
deriving DecidableEq

/-- The settings of a run. -/
structure Config where
  defaultGranularity : Granularity
  detectors : List Detector
  jobSuffixes : List String
  serviceSuffixes : List String
  verifyBaseline : Bool
  scratchDir : Option String
  oracle : OracleSettings
deriving DecidableEq

namespace OracleSettings

/-- The place of the candidate file in a command. -/
def filePlaceholder : String := "\x7bfile\x7d"

/-- The suite of a Ruby project, a limit of ten minutes and fifty lines of output. -/
def default : OracleSettings :=
  ⟨["bundle", "exec", "rspec", filePlaceholder], .ofInt 600, 50⟩

/-- A command needs a program whose name is not blank. -/
def isRunnable (command : List String) : Bool :=
  command.head?.any fun program => !(Text.trim program.toList).isEmpty

/-- The check of a command. -/
def checkCommand : Check.Of (List String) := fun value =>
  (Check.listOf Check.text value).andThen fun command =>
    if isRunnable command then .accepted command
    else .fault (.custom "oracle.command must be a non-empty argv list")

/-- The check of a time limit. -/
def checkTimeout : Check.Of Binary64 := fun value =>
  (Check.float value).andThen fun seconds =>
    if seconds.isPositive then .accepted seconds else .fault .greaterThan

/-- The check of the number of lines to keep. -/
def checkTailLines : Check.Of Int := fun value =>
  (Check.int value).andThen fun lines =>
    if 1 ≤ lines then .accepted lines else .fault .greaterThanEqual

/-- The names of the settings. -/
def fieldNames : List String :=
  ["command", "timeout_seconds", "tail_lines"]

/-- The check of a table of settings. -/
def check : Check.Of OracleSettings :=
  Check.record fun fields =>
    (fun command timeout tailLines (_ : Unit) => ⟨command, timeout, tailLines⟩)
      <$> Check.defaulting fields "command" default.command checkCommand
      <*> Check.defaulting fields "timeout_seconds" default.timeout checkTimeout
      <*> Check.defaulting fields "tail_lines" default.tailLines checkTailLines
      <*> Check.onlyKnown fields fieldNames

end OracleSettings

namespace Config

/-- Every detector, no further suffixes, no baseline run and the system's scratch directory. -/
def default : Config :=
  ⟨.integration, Detector.all, [], [], false, none, .default⟩

/-- The texts among some values, if there is nothing else. -/
def texts? : List Data → Option (List String)
  | [] => some []
  | .text s :: rest => (texts? rest).map (s :: ·)
  | _ :: _ => none

/-- Whether a list repeats none of its members. -/
def isDistinct {α : Type} [DecidableEq α] : List α → Bool
  | [] => true
  | x :: rest => !rest.contains x && isDistinct rest

/-- The check of a list of detector names; nothing at all means every detector. -/
def checkDetectors : Check.Of (List Detector) := fun value =>
  let unnamed : Checked (List Detector) :=
    .fault (.custom "detectors must be a list of detector names")
  match value with
  | .null => .accepted Detector.all
  | .list items =>
    match texts? items with
    | none => unnamed
    | some names =>
      match Detector.ofNames names with
      | .error name =>
        .fault (.custom s!"Invalid detector '{name}'. Valid detectors: {Detector.nameList}")
      | .ok detectors =>
        if isDistinct detectors then .accepted detectors
        else .fault (.custom "detectors must not repeat a detector name")
  | _ => unnamed

/-- The names of the settings. -/
def fieldNames : List String :=
  ["default_granularity", "detectors", "job_suffixes", "service_suffixes", "verify_baseline",
    "scratch_dir", "oracle"]

/-- The check of a table of settings. -/
def check : Check.Of Config :=
  Check.record fun fields =>
    (fun granularity detectors jobs services baseline scratch oracle (_ : Unit) =>
        ⟨granularity, detectors, jobs, services, baseline, scratch, oracle⟩)
      <$> Check.defaulting fields "default_granularity" default.defaultGranularity
        (Check.named .enumeration Granularity.ofName?)
      <*> Check.defaulting fields "detectors" default.detectors checkDetectors
      <*> Check.defaulting fields "job_suffixes" default.jobSuffixes (Check.listOf Check.text)
      <*> Check.defaulting fields "service_suffixes" default.serviceSuffixes
        (Check.listOf Check.text)
      <*> Check.defaulting fields "verify_baseline" default.verifyBaseline Check.bool
      <*> Check.defaulting fields "scratch_dir" default.scratchDir (Check.optional Check.text)
      <*> Check.defaulting fields "oracle" default.oracle OracleSettings.check
      <*> Check.onlyKnown fields fieldNames

/-- The class name endings that a configuration adds. -/
def suffixes (c : Config) : Suffixes :=
  ⟨c.jobSuffixes.map String.toList, c.serviceSuffixes.map String.toList⟩

end Config

end FactoryDowngrade
