import FactoryDowngrade.World.Scratch

/-!
# Writing back

A file is replaced by way of a temporary file beside it: the new content is written there in full,
the mode is taken over, and only then does the temporary file take the place of the old one. Each
step may fail, and then the temporary file is removed and the old file stays as it was.
-/

namespace FactoryDowngrade

namespace WriteBack

/-- The steps of a replacement. -/
inductive Step where
  | create
  | write
  | sync
  | readMode
  | changeMode
  | replace
deriving DecidableEq, Repr

/-- Why a step fails: by a cause that files bring about, or by any other, which comes with its
number and its wording. -/
inductive Cause where
  | known (cause : OsCause)
  | other (number : Nat) (text : String)
deriving DecidableEq, Repr

namespace Cause

/-- The number of a cause. -/
def number : Cause → Nat
  | known cause => cause.number
  | other number _ => number

/-- The wording of a cause. -/
def text : Cause → String
  | known cause => cause.text
  | other _ text => text

end Cause

/-- A failed step on a path, or on two. -/
structure Fault where
  cause : Cause
  path : String
  target : Option String
deriving DecidableEq, Repr

namespace Fault

/-- A failed step on one path. -/
def on (path : String) (cause : Cause) : Fault :=
  ⟨cause, path, none⟩

/-- The wording of a fault. -/
def message (f : Fault) : String :=
  OsFault.wording f.cause.number f.cause.text f.path f.target

end Fault

/-- The causes by which steps fail beyond what the files themselves cause. -/
abbrev Weather := Step → Option Cause

/-- Nothing fails but by the files. -/
def fair : Weather := fun _ => none

/-- The name of a temporary file for a file, with a count in it. -/
def draftName (name : String) (count : Nat) : String :=
  let mark := Scratch.tag count
  s!".{name}.{mark}"

/-- The names in a directory. -/
def namesIn (tree : Node) (dir : List String) : List String :=
  match tree.get dir with
  | .ok (.dir entries) => entries.map (·.1)
  | _ => []

/-- The first temporary name that no file has. Among one more names than there are files one is
free. -/
def freeName (taken : List String) (name : String) : String :=
  let names := (List.range (taken.length + 1)).map (draftName name)
  (names.find? fun candidate => !taken.contains candidate).getD (draftName name taken.length)

/-- The temporary file beside a file, by its absolute path. -/
def temporary (tree : Node) (cwd : List String) (p : PathName) : PathName :=
  let dir := PathName.resolve cwd p.parent
  (PathName.absolute dir).child (freeName (namesIn tree dir) p.name)

/-- Makes the temporary file with its content. -/
def prepare (weather : Weather) (tree : Node) (cwd : List String) (draft : PathName)
    (content : Bytes) : Except Fault Node × Node :=
  let fail (cause : Cause) : Fault := .on draft.toText cause
  match weather .create with
  | some cause => (.error (fail cause), tree)
  | none =>
    match FileTree.locate tree cwd draft with
    | .error cause => (.error (fail (.known cause)), tree)
    | .ok place =>
      let made := tree.put (some (.file [] false)) place.parts
      match weather .write with
      | some cause => (.error (fail cause), made)
      | none =>
        let written := tree.put (some (.file content false)) place.parts
        match weather .sync with
        | some cause => (.error (fail cause), written)
        | none => (.ok written, written)

/-- Puts the temporary file with the content in the place of the file, whose mode it takes over. -/
def exchange (weather : Weather) (tree : Node) (cwd : List String) (draft p : PathName)
    (content : Bytes) : Except Fault Node :=
  let fail (cause : Cause) : Fault := .on p.toText cause
  match weather .readMode with
  | some cause => .error (fail cause)
  | none =>
    match FileTree.locate tree cwd p with
    | .error cause => .error (fail (.known cause))
    | .ok ⟨_, none⟩ => .error (fail (.known .noEntry))
    | .ok ⟨parts, some node⟩ =>
      match weather .changeMode with
      | some cause => .error (.on draft.toText cause)
      | none =>
        match weather .replace, node with
        | some cause, _ => .error ⟨cause, draft.toText, some p.toText⟩
        | none, .dir _ => .error ⟨.known .isDirectory, draft.toText, some p.toText⟩
        | none, .file _ executable => .ok (tree.put (some (.file content executable)) parts)
        | none, .sink => .ok (tree.put (some (.file content false)) parts)

/-- The files without the temporary file. -/
def discard (tree : Node) (cwd : List String) (draft : PathName) : Node :=
  match FileTree.locate tree cwd draft with
  | .ok place => tree.put none place.parts
  | .error _ => tree

/-- Replaces the content of a file, or leaves the files as they were. -/
def run (weather : Weather) (tree : Node) (cwd : List String) (p : PathName) (content : Bytes) :
    Except Fault Unit × Node :=
  let draft := temporary tree cwd p
  match prepare weather tree cwd draft content with
  | (.error fault, tree) => (.error fault, discard tree cwd draft)
  | (.ok tree, _) =>
    match exchange weather tree cwd draft p content with
    | .error fault => (.error fault, discard tree cwd draft)
    | .ok tree => (.ok (), discard tree cwd draft)

end WriteBack

end FactoryDowngrade
