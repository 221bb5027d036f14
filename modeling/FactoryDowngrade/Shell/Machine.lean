import FactoryDowngrade.Shell.Command
import FactoryDowngrade.World.FileTree

/-!
# The machine that scripts run on

A machine holds the file tree, a clock with a deadline, everything printed so far, and the state
of the running shell. Time passes only while a program sleeps. A run stops early when the shell
exits, is killed, or does not end by the deadline.
-/

namespace FactoryDowngrade

namespace Shell

/-- Where output goes: to the printed text, into a capture, to a file, or nowhere. -/
inductive Sink where
  | printed
  | capture (level : Nat)
  | file (parts : List String)
  | nowhere
deriving DecidableEq, Repr

/-- Where input comes from: from nowhere, or from a buffer. -/
inductive Source where
  | nothing
  | buffer (level : Nat)
deriving DecidableEq, Repr

/-- The three standard streams of a program. -/
structure Streams where
  input : Source
  out : Sink
  err : Sink
deriving DecidableEq, Repr

/-- The state of a shell. Lines are counted from `base`, the lines before the one that was read
last; `loops` is the number of loops that the present command stands in. -/
structure Session where
  name : Octets
  arguments : List Octets
  values : List (Octets × Octets)
  exported : List Octets
  fixed : List Octets
  functions : List (Octets × Command)
  traps : List (Octets × Octets)
  cwd : List String
  base : Nat
  line : Nat
  status : Nat
  outputStatus : Nat
  loops : Nat
  stopsOnFailure : Bool
  refusesUnset : Bool

/-- A machine. What was printed or captured is kept last character first. Times are in nanoseconds;
`busyUntil` is when the last background job ends. -/
structure Machine where
  tree : Node
  clock : Nat
  deadline : Nat
  busyUntil : Nat
  printed : Octets
  captures : List Octets
  inputs : List Octets
  session : Session

/-- Why a run stops before its end. -/
inductive Halt where
  | exited (status : Nat)
  | returned (status : Nat)
  | broke (levels : Nat)
  | continued (levels : Nat)
  | killed (signal : Nat)
  | late
deriving DecidableEq, Repr

/-- A computation on a machine. -/
abbrev Run := EStateM Halt Machine

/-- The octets of a text. -/
def octets (text : Text) : Octets :=
  (Utf8.encode text).map fun b => Char.ofNat b.toNat

/-- The octets of a string. -/
def octetsOf (s : String) : Octets :=
  octets s.toList

/-- The bytes that octets stand for. -/
def bytesOf (s : Octets) : Bytes :=
  s.map fun c => UInt8.ofNat c.toNat

/-- The octets that bytes stand for. -/
def ofBytes (bytes : Bytes) : Octets :=
  bytes.map fun b => Char.ofNat b.toNat

/-- The string that octets spell. -/
def stringOf (s : Octets) : String :=
  String.ofList (Utf8.decodeLenient (bytesOf s))

/-- The path name that octets spell. -/
def pathOf (s : Octets) : PathName :=
  PathName.ofString (stringOf s)

/-- The process number of the shell. -/
def processNumber : Nat := 4242

namespace Machine

/-- Replaces the item at a level counted from the end of a list. -/
def modifyLevel (level : Nat) (change : Octets → Octets) (items : List Octets) : List Octets :=
  items.modify (items.length - 1 - level) change

/-- Writes to a sink. -/
def write (sink : Sink) (s : Octets) (m : Machine) : Machine :=
  match sink with
  | .printed => { m with printed := s.reverse ++ m.printed }
  | .capture level => { m with captures := modifyLevel level (s.reverse ++ ·) m.captures }
  | .file parts =>
    match m.tree.get parts with
    | .ok (.file content executable) =>
      { m with tree := m.tree.put (some (.file (content ++ bytesOf s) executable)) parts }
    | _ => m
  | .nowhere => m

end Machine

namespace Run

/-- Writes to a sink. -/
def write (sink : Sink) (s : Octets) : Run Unit :=
  modify (Machine.write sink s)

/-- Writes a line to the standard output. -/
def put (io : Streams) (line : Octets) : Run Unit :=
  write io.out (line ++ ['\n'])

/-- Writes a line to the standard error. -/
def complain (io : Streams) (message : String) : Run Unit :=
  write io.err (octetsOf message ++ ['\n'])

/-- The state of the shell. -/
def session : Run Session := do
  return (← get).session

/-- Changes the state of the shell. -/
def modifySession (change : Session → Session) : Run Unit :=
  modify fun m => { m with session := change m.session }

/-- Everything that is left on an input. -/
def readAll (io : Streams) : Run Octets := do
  match io.input with
  | .nothing => return []
  | .buffer level =>
    let m ← get
    let index := m.inputs.length - 1 - level
    set { m with inputs := m.inputs.set index [] }
    return (m.inputs[index]?).getD []

/-- The next line of an input without its end, and whether it had one; nothing at the end. -/
def readLine (io : Streams) : Run (Option (Octets × Bool)) := do
  match io.input with
  | .nothing => return none
  | .buffer level =>
    let m ← get
    let index := m.inputs.length - 1 - level
    let all := (m.inputs[index]?).getD []
    if all.isEmpty then return none
    let line := all.takeWhile (· ≠ '\n')
    let rest := all.drop line.length
    set { m with inputs := m.inputs.set index rest.tail }
    return some (line, !rest.isEmpty)

/-- Runs with an input of its own. -/
def withInput {α : Type} (content : Octets) (io : Streams) (body : Streams → Run α) : Run α := do
  let level := (← get).inputs.length
  modify fun m => { m with inputs := content :: m.inputs }
  let result ← tryCatch (do return Except.ok (← body { io with input := .buffer level }))
    fun h => return Except.error h
  modify fun m => { m with inputs := m.inputs.tail }
  match result with
  | .ok value => return value
  | .error h => throw h

/-- Runs with the standard output captured. -/
def captured (io : Streams) (body : Streams → Run Nat) : Run (Nat × Octets) := do
  let level := (← get).captures.length
  modify fun m => { m with captures := [] :: m.captures }
  let result ← tryCatch (do return Except.ok (← body { io with out := .capture level }))
    fun h => return Except.error h
  let output := ((← get).captures.headD []).reverse
  modify fun m => { m with captures := m.captures.tail }
  match result with
  | .ok status => return (status, output)
  | .error h => throw h

/-- Lets time pass; at the deadline the run stops. -/
def sleep (nanoseconds : Nat) : Run Unit := do
  let m ← get
  if m.deadline ≤ m.clock + nanoseconds then
    set { m with clock := m.deadline }
    throw .late
  else set { m with clock := m.clock + nanoseconds }

/-- What an operation on the file tree gives. -/
def files {α : Type} (op : Node → List String → PathName → Except OsFault α) (p : PathName) :
    Run (Except OsFault α) := do
  let m ← get
  return op m.tree m.session.cwd p

/-- Changes the file tree, unless the change fails. -/
def change (op : Node → List String → PathName → Except OsFault Node) (p : PathName) :
    Run (Option OsFault) := do
  match ← files op p with
  | .ok tree =>
    modify fun m => { m with tree }
    return none
  | .error fault => return some fault

/-- The node that a path name leads to. -/
def find? (p : PathName) : Run (Option Node) := do
  let m ← get
  return (FileTree.find m.tree m.session.cwd p).toOption

/-- The content of a file. -/
def readFile (s : Octets) : Run (Except OsFault Octets) := do
  match ← files FileTree.read (pathOf s) with
  | .ok bytes => return .ok (ofBytes bytes)
  | .error fault => return .error fault

/-- Sets a variable. -/
def setVariable (name value : Octets) : Run Unit :=
  modifySession fun s =>
    { s with values := (name, value) :: s.values.filter fun v => v.1 ≠ name }

/-- Runs in a copy of the shell: what it does to its own state is forgotten, and an exit ends the
copy only. -/
def inCopy (body : Run Nat) : Run Nat := do
  let before ← session
  let result ← tryCatch (do return Except.ok (← body)) fun h => return Except.error h
  modifySession fun _ => before
  match result with
  | .ok status => return status
  | .error (.exited status) => return status
  | .error (.returned status) => return status
  | .error (.broke _) => return 0
  | .error (.continued _) => return 0
  | .error h => throw h

end Run

end Shell

end FactoryDowngrade
