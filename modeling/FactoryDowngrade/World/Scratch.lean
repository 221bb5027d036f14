import FactoryDowngrade.Trial
import FactoryDowngrade.World.FileTree

/-!
# Scratch directories

A run works in a world of files. It tries a candidate under the name of its file in a directory
made for that one trial, and takes the directory away afterwards. Names of such directories are
made from the name of the file and a count, so that no two are equal.
-/

namespace FactoryDowngrade

/-- The surroundings of a run: the files, the current directory, the scratch directories asked for
so far with the last one first, and the log records so far with the last one first. -/
structure World where
  tree : Node
  cwd : List String
  scratch : List PathName
  log : List LogRecord

namespace World

/-- A world in which nothing has happened yet. -/
def start (tree : Node) (cwd : List String) : World :=
  ⟨tree, cwd, [], []⟩

/-- Writes a log record. -/
def remark (w : World) (record : LogRecord) : World :=
  { w with log := record :: w.log }

/-- The log records in order. -/
def records (w : World) : List LogRecord :=
  w.log.reverse

/-- The content of a file. -/
def read (w : World) (p : PathName) : Except OsFault Bytes :=
  FileTree.read w.tree w.cwd p

/-- Changes the files, unless the change fails. -/
def change (w : World) (result : Except OsFault Node) : Except OsFault Unit × World :=
  match result with
  | .ok tree => (.ok (), { w with tree })
  | .error fault => (.error fault, w)

/-- Writes a file. -/
def write (w : World) (p : PathName) (content : Bytes) : Except OsFault Unit × World :=
  w.change (FileTree.write w.tree w.cwd p content)

/-- Makes a directory and its parents, unless it is there. -/
def ensureDir (w : World) (p : PathName) : Except OsFault Unit × World :=
  let made := FileTree.makeDirs w.tree w.cwd (p.parts.length + 1) p
  (made.1, { w with tree := made.2 })

end World

namespace Scratch

/-- The directory for trials that are given none. -/
def systemDirectory : PathName :=
  .absolute ["tmp"]

/-- A count as eight hexadecimal digits. -/
def tag (count : Nat) : String :=
  String.ofList (Quoted.hex 8 count)

/-- The name of a scratch directory for a file. -/
def directoryName (file : String) (count : Nat) : String :=
  let stem := PathName.stemOf (PathName.ofString file).name
  let stem := if stem.isEmpty then "spec" else stem
  let mark := tag count
  s!"factory-opt-{stem}-4242-{mark}-{mark}"

/-- Makes the root that scratch directories are made below, if one is given. -/
def provideRoot (root : Option PathName) (w : World) : Except OsFault Unit × World :=
  match root with
  | some root => w.ensureDir root
  | none => (.ok (), w)

/-- Makes a scratch directory for a file below a root, which is made if it is not there. -/
def enter (root : Option PathName) (file : String) (w : World) :
    Except OsFault PathName × World :=
  match provideRoot root w with
  | (.error fault, w) => (.error fault, w)
  | (.ok (), w) =>
    let dir := (root.getD systemDirectory).child (directoryName file w.scratch.length)
    let w := { w with scratch := dir :: w.scratch }
    match w.change (FileTree.mkdir w.tree w.cwd dir) with
    | (.ok (), w) => (.ok dir, w)
    | (.error fault, w) => (.error fault, w)

/-- Takes a scratch directory away with everything below it. It may be gone already, but what
stands in its place has to be a directory. -/
def leave (dir : PathName) (w : World) : Except OsFault Unit × World :=
  match FileTree.locate w.tree w.cwd dir with
  | .ok ⟨_, none⟩ => (.ok (), w)
  | .ok ⟨parts, some (.dir _)⟩ => (.ok (), { w with tree := w.tree.put none parts })
  | .ok ⟨_, some _⟩ => (.error (.on dir.toText .notDirectory), w)
  | .error .noEntry => (.ok (), w)
  | .error cause => (.error (.on dir.toText cause), w)

end Scratch

/-- A way to verify the candidate at a path, in a world with a state of its own beside it; the
fault says why there is no verdict. -/
abbrev Verifier (τ : Type) := PathName → World × τ → Except TrialFault Verdict × (World × τ)

namespace Verifier

variable {τ : Type}

/-- Writes a text into a scratch directory and has it verified there. -/
def judge (verify : Verifier τ) (dir : PathName) (file : String) (text : Text) (s : World × τ) :
    Except TrialFault Verdict × (World × τ) :=
  let candidate := if file.isEmpty then dir else dir.child file
  match s.1.write candidate (Utf8.encode text) with
  | (.error fault, w) => (.error (.scratch fault), (w, s.2))
  | (.ok (), w) => verify candidate (w, s.2)

/-- The bench that tries candidates in scratch directories below a root. -/
def bench (verify : Verifier τ) (root : Option PathName) : Bench (World × τ) where
  enter file s :=
    let (result, w) := Scratch.enter root file s.1
    (result, (w, s.2))
  judge := judge verify
  leave dir s :=
    let (result, w) := Scratch.leave dir s.1
    (result, (w, s.2))
  remark record s := (s.1.remark record, s.2)

end Verifier

end FactoryDowngrade
