import FactoryDowngrade.Optimize
import FactoryDowngrade.World.WriteBack

/-!
# Optimizing a file

A file is read, its text optimized, and the result written back if the candidate was verified. A
file that cannot be written keeps its content, and the report says so.
-/

namespace FactoryDowngrade

/-- Why a file has no report: it cannot be read, it is not UTF-8, or its text has no report. -/
inductive FileFault where
  | unreadable (fault : OsFault)
  | encoding (fault : Utf8Fault)
  | text (fault : OptimizeFault)
deriving DecidableEq, Repr

namespace OptimizeFile

/-- The text of a file. -/
def readText (w : World) (p : PathName) : Except FileFault Text :=
  match w.read p with
  | .error fault => .error (.unreadable fault)
  | .ok bytes => (Utf8.decode bytes).mapError .encoding

/-- The note about a file that cannot be written. -/
def writeNote (fault : WriteBack.Fault) : Note :=
  ⟨.error, "write_failed", s!"Verified candidate could not be written back: {fault.message}"⟩

/-- Writes the result of a verified candidate back. -/
def writeBack (weather : WriteBack.Weather) (p : PathName) (text : Text) (result : OptimizeResult)
    (w : World) : OptimizeResult × World :=
  match WriteBack.run weather w.tree w.cwd p (Utf8.encode result.text) with
  | (.ok (), tree) =>
    let count := result.report.appliedCount
    let w := { w with tree }
    (result, w.remark ⟨.info, .pipeline, s!"{p.toText}: written ({count} change(s))"⟩)
  | (.error fault, tree) =>
    let w := { w with tree }
    (⟨text, result.report.withdraw (writeNote fault)⟩,
      w.remark ⟨.error, .pipeline, s!"{p.toText}: write-back failed: {fault.message}"⟩)

variable {τ : Type}

/-- Optimizes a file in place. -/
def run (verify : Verifier τ) (weather : WriteBack.Weather) (scratchRoot : Option PathName)
    (p : PathName) (granularity : Option Text) (config : Config) (s : World × τ) :
    Except FileFault OptimizeResult × (World × τ) :=
  match readText s.1 p with
  | .error fault => (.error fault, s)
  | .ok text =>
    match Optimize.run (verify.bench scratchRoot) text granularity config p.name s with
    | (.error fault, s) => (.error (.text fault), s)
    | (.ok result, s) =>
      if result.report.outcome.status = .optimized then
        let (result, w) := writeBack weather p text result s.1
        (.ok result, (w, s.2))
      else (.ok result, s)

end OptimizeFile

end FactoryDowngrade
