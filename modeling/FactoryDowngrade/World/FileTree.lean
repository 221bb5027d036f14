import FactoryDowngrade.Text.Quoted
import FactoryDowngrade.Text.Utf8
import FactoryDowngrade.World.PathName

/-!
# File trees

A tree of directories and files, with the operations that programs perform on it and the faults
these raise. Paths are walked component by component, so a double dot leads back only from a
directory that is there.
-/

namespace FactoryDowngrade

/-- Why the files make an operation on them fail. -/
inductive OsCause where
  | noEntry
  | permission
  | alreadyExists
  | notDirectory
  | isDirectory
  | nameTooLong
  | notEmpty
deriving DecidableEq, Repr

namespace OsCause

/-- The number of a cause. -/
def number : OsCause → Nat
  | noEntry => 2
  | permission => 13
  | alreadyExists => 17
  | notDirectory => 20
  | isDirectory => 21
  | nameTooLong => 36
  | notEmpty => 39

/-- The wording of a cause. -/
def text : OsCause → String
  | noEntry => "No such file or directory"
  | permission => "Permission denied"
  | alreadyExists => "File exists"
  | notDirectory => "Not a directory"
  | isDirectory => "Is a directory"
  | nameTooLong => "File name too long"
  | notEmpty => "Directory not empty"

end OsCause

/-- A failed operation on a path, or on two. -/
structure OsFault where
  cause : OsCause
  path : String
  target : Option String
deriving DecidableEq, Repr

namespace OsFault

/-- A failed operation on one path. -/
def on (path : String) (cause : OsCause) : OsFault :=
  ⟨cause, path, none⟩

/-- The wording of a failed operation, whose cause has a number and a wording of its own. -/
def wording (number : Nat) (text path : String) (target : Option String) : String :=
  let quoted (s : String) : String := String.ofList (Quoted.literal s.toList)
  let paths :=
    match target with
    | none => quoted path
    | some target => quoted path ++ " -> " ++ quoted target
  s!"[Errno {number}] {text}: {paths}"

/-- The wording of a fault. -/
def message (f : OsFault) : String :=
  wording f.cause.number f.cause.text f.path f.target

end OsFault

/-- A file, a directory, or a sink, which takes everything and holds nothing. -/
inductive Node where
  | file (content : Bytes) (executable : Bool)
  | sink
  | dir (entries : List (String × Node))

namespace Node

/-- Whether a node is a directory. -/
def isDir : Node → Bool
  | dir _ => true
  | _ => false

/-- The largest number of bytes in a component. -/
def nameLimit : Nat := 255

/-- The node behind one component. -/
def step (node : Node) (name : String) : Except OsCause Node :=
  match node with
  | dir entries =>
    if nameLimit < name.utf8ByteSize then .error .nameTooLong
    else
      match entries.lookup name with
      | some child => .ok child
      | none => .error .noEntry
  | _ => .error .notDirectory

/-- The node at components without dots. -/
def get (node : Node) : List String → Except OsCause Node
  | [] => .ok node
  | name :: path =>
    match node.step name with
    | .ok child => child.get path
    | .error cause => .error cause

/-- Sets, replaces or removes the entry with a name. -/
def setEntry (name : String) (value : Option Node) :
    List (String × Node) → List (String × Node)
  | [] => (value.map fun v => (name, v)).toList
  | (other, node) :: rest =>
    if other = name then (value.map fun v => (name, v)).toList ++ rest
    else (other, node) :: setEntry name value rest

/-- Sets, replaces or removes the node at components without dots, if there is a directory to hold
it. -/
def put (value : Option Node) : List String → Node → Node
  | [], node => value.getD node
  | [name], dir entries => dir (setEntry name value entries)
  | name :: path, dir entries =>
    match entries.lookup name with
    | some child => dir (setEntry name (some (put value path child)) entries)
    | none => dir entries
  | _ :: _, node => node

mutual

/-- The files below a node with their paths, in the order of the entries. -/
def files (path : List String) : Node → List (List String × Bytes)
  | file content _ => [(path, content)]
  | sink => []
  | dir entries => filesIn path entries

/-- The files below the entries of a directory. -/
def filesIn (path : List String) : List (String × Node) → List (List String × Bytes)
  | [] => []
  | (name, node) :: rest => files (path ++ [name]) node ++ filesIn path rest

end

end Node

/-- Where a path leads: the components of its place without dots, and the node there, if any. -/
structure Place where
  parts : List String
  node : Option Node

namespace FileTree

/-- Walks components from a place that is reached; only the last one may be missing. -/
def walk (root : Node) : List String → List String → Except OsCause Place
  | done, [] => .ok ⟨done, (root.get done).toOption⟩
  | done, ".." :: rest =>
    match root.get done with
    | .ok (.dir _) => walk root done.dropLast rest
    | .ok _ => .error .notDirectory
    | .error cause => .error cause
  | done, name :: rest =>
    match root.get (done ++ [name]) with
    | .ok _ => walk root (done ++ [name]) rest
    | .error .noEntry => if rest.isEmpty then .ok ⟨done ++ [name], none⟩ else .error .noEntry
    | .error cause => .error cause

/-- Where a path name leads from a directory. -/
def locate (root : Node) (cwd : List String) (p : PathName) : Except OsCause Place :=
  walk root [] (if p.isAbsolute then p.parts else cwd ++ p.parts)

/-- The node that a path name leads to. -/
def find (root : Node) (cwd : List String) (p : PathName) : Except OsCause Node :=
  match locate root cwd p with
  | .ok ⟨_, some node⟩ => .ok node
  | .ok ⟨_, none⟩ => .error .noEntry
  | .error cause => .error cause

/-- The content of a file. -/
def read (root : Node) (cwd : List String) (p : PathName) : Except OsFault Bytes :=
  match find root cwd p with
  | .ok (.file content _) => .ok content
  | .ok .sink => .ok []
  | .ok (.dir _) => .error (.on p.toText .isDirectory)
  | .error cause => .error (.on p.toText cause)

/-- Writes a file, made if it is not there; its mode stays as it is. -/
def write (root : Node) (cwd : List String) (p : PathName) (content : Bytes) :
    Except OsFault Node :=
  match locate root cwd p with
  | .ok ⟨_, some (.dir _)⟩ => .error (.on p.toText .isDirectory)
  | .ok ⟨_, some .sink⟩ => .ok root
  | .ok ⟨parts, some (.file _ executable)⟩ => .ok (root.put (some (.file content executable)) parts)
  | .ok ⟨parts, none⟩ => .ok (root.put (some (.file content false)) parts)
  | .error cause => .error (.on p.toText cause)

/-- Makes a directory whose parent is there. -/
def mkdir (root : Node) (cwd : List String) (p : PathName) : Except OsFault Node :=
  match locate root cwd p with
  | .ok ⟨_, some _⟩ => .error (.on p.toText .alreadyExists)
  | .ok ⟨parts, none⟩ => .ok (root.put (some (.dir [])) parts)
  | .error cause => .error (.on p.toText cause)

/-- Whether a path name leads to a directory. -/
def isDir (root : Node) (cwd : List String) (p : PathName) : Bool :=
  match find root cwd p with
  | .ok node => node.isDir
  | .error _ => false

/-- Makes a directory that may be there already. -/
def provideDir (root : Node) (cwd : List String) (p : PathName) : Except OsFault Unit × Node :=
  match mkdir root cwd p with
  | .ok root => (.ok (), root)
  | .error fault => (if isDir root cwd p then .ok () else .error fault, root)

/-- Whether a directory could not be made because something above it is missing. -/
def lacksParent (p : PathName) : Except OsFault Unit → Bool
  | .ok () => false
  | .error fault => fault.cause = .noEntry && !p.parts.isEmpty

/-- Makes a directory that may be there already, with the parents that are missing; at most `depth`
of them. Parents that could be made stay even if the directory cannot be. -/
def makeDirs (root : Node) (cwd : List String) : Nat → PathName → Except OsFault Unit × Node
  | 0, p => provideDir root cwd p
  | depth + 1, p =>
    let provided := provideDir root cwd p
    if lacksParent p provided.1 then
      let above := makeDirs root cwd depth p.parent
      if above.1.isOk then provideDir above.2 cwd p else above
    else provided

/-- The tree with a directory and its parents, if they can all be made. -/
def ensureDir (root : Node) (cwd : List String) (depth : Nat) (p : PathName) :
    Except OsFault Node :=
  let made := makeDirs root cwd depth p
  made.1.map fun _ => made.2

/-- Removes what a path name leads to, with everything below it. -/
def remove (root : Node) (cwd : List String) (p : PathName) : Except OsFault Node :=
  match locate root cwd p with
  | .ok ⟨parts, some _⟩ => .ok (root.put none parts)
  | .ok ⟨_, none⟩ => .error (.on p.toText .noEntry)
  | .error cause => .error (.on p.toText cause)

end FileTree

end FactoryDowngrade
