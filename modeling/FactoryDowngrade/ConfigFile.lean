import FactoryDowngrade.Config
import FactoryDowngrade.Toml.Parser
import FactoryDowngrade.World.Scratch

/-!
# The configuration of a project

A project may hold a file with its settings at its root; without one the settings are the usual
ones. The scratch directory that a file names has to lie inside the project, by its components and
not by its spelling.
-/

namespace FactoryDowngrade

/-- Why settings cannot be used. -/
inductive ConfigFault where
  | notToml (path : String)
  | invalid (path : String) (faults : List Fault)
  | blankScratch
  | absoluteScratch
  | strayScratch (dir : String)
  | tooFewJobs
  | emptyCommand
  | notPositiveTimeout
deriving DecidableEq, Repr

namespace ConfigFault

/-- The wording of a fault. Where a file is not TOML or its settings are not valid, what its reader
goes on to say behind a colon is left out. -/
def message : ConfigFault → String
  | notToml path => s!"Invalid TOML in {path}"
  | invalid path _ => s!"Invalid config in {path}"
  | blankScratch => "scratch_dir must be a non-empty relative path within the repo root"
  | absoluteScratch => "scratch_dir must be a relative path within the repo root"
  | strayScratch dir => s!"scratch_dir '{dir}' escapes the repository root"
  | tooFewJobs => "--jobs must be at least 1"
  | emptyCommand => "empty oracle command after '--'"
  | notPositiveTimeout => "--timeout must be positive"

end ConfigFault

/-- Why a project has no configuration: nobody can tell whether it has such a file, the file is not
UTF-8, it holds a number of too many digits or values that are nested too deeply, or its settings
cannot be used. -/
inductive ConfigFileFault where
  | unreachable (fault : OsFault)
  | encoding (fault : Utf8Fault)
  | tooManyDigits (count : Nat)
  | tooDeep
  | config (fault : ConfigFault)
deriving DecidableEq, Repr

namespace ConfigFile

/-- The name of the file with the settings. -/
def fileName : String := "factory-opt.toml"

/-- The settings that some bytes spell. -/
def parse (path : String) (bytes : Bytes) : Except ConfigFileFault Config :=
  match Utf8.decode bytes with
  | .error fault => .error (.encoding fault)
  | .ok text =>
    match Toml.parse text with
    | .error .malformed => .error (.config (.notToml path))
    | .error (.tooManyDigits count) => .error (.tooManyDigits count)
    | .error .tooDeep => .error .tooDeep
    | .ok data =>
      match Config.check data with
      | .accepted config => .ok config
      | .refused faults => .error (.config (.invalid path faults))

/-- The settings of the project at a root. A name that is too long to look up is a fault; in any
other case a file that is not found is not there. -/
def load (w : World) (root : List String) : Except ConfigFileFault Config :=
  let path := (PathName.absolute root).child fileName
  match FileTree.find w.tree w.cwd path with
  | .ok (.file bytes _) => parse path.toText bytes
  | .error .nameTooLong => .error (.unreachable (.on path.toText .nameTooLong))
  | _ => .ok .default

/-- The scratch directory that a setting means, by its components. -/
def scratchDirectory (root : List String) (setting : Option String) :
    Except ConfigFault (Option (List String)) :=
  match setting with
  | none => .ok none
  | some dir =>
    let path := PathName.ofString dir
    if dir.isEmpty || Text.startsWith dir.toList ['~'] then .error .blankScratch
    else if path.isAbsolute then .error .absoluteScratch
    else
      let parts := PathName.resolve root path
      if root.isPrefixOf parts then .ok (some parts) else .error (.strayScratch dir)

end ConfigFile

end FactoryDowngrade
