import FactoryDowngrade.Shell.Execute

/-!
# Processes

A process is started with a file tree, a working directory, an environment and arguments; it leaves
behind how it ended, what it printed and the file tree.
-/

namespace FactoryDowngrade

namespace Shell

/-- What a process is started with. The limit is in nanoseconds. -/
structure Launch where
  tree : Node
  cwd : List String
  environment : List (Octets × Octets)
  arguments : List Octets
  limit : Nat

/-- How a process ended: by itself with a status, by a signal, or not at all in time. -/
inductive Ending where
  | exited (status : Nat)
  | killed (signal : Nat)
  | late
deriving DecidableEq, Repr

/-- What a process leaves behind. -/
structure Finish where
  ending : Ending
  output : Bytes
  elapsed : Nat
  tree : Node

/-- Why a process cannot be started: its directory or its program. -/
inductive StartFault where
  | directory (cause : OsCause) (path : String)
  | program (cause : OsCause) (name : String)
deriving DecidableEq, Repr

/-- The wording of a fault. A directory is shown as the path object that it is, and a program by
its name. -/
def StartFault.message : StartFault → String
  | directory cause path =>
    let shown := String.ofList (Quoted.literal path.toList)
    s!"[Errno {cause.number}] {cause.text}: PosixPath({shown})"
  | program cause name => (OsFault.on name cause).message

namespace Launch

/-- The number of nested steps that a process may take. -/
def depth : Nat := 2000

/-- The machine that a process starts on. -/
def machine (l : Launch) : Machine :=
  { tree := l.tree, clock := 0, deadline := l.limit, busyUntil := 0, printed := [], captures := []
    inputs := []
    session :=
      { name := [], arguments := [], values := l.environment
        exported := l.environment.map (·.1), fixed := [], functions := [], traps := []
        cwd := l.cwd, base := 0, line := 1, status := 0, outputStatus := 0, loops := 0
        stopsOnFailure := false, refusesUnset := false } }

/-- Runs a process to its end or to the limit. Its input is empty, and what it prints and complains
goes to one output. -/
def run (l : Launch) : Except StartFault Finish :=
  let m := l.machine
  let name := l.arguments.headD []
  match FileTree.find l.tree [] (PathName.absolute l.cwd) with
  | .error cause => .error (.directory cause (PathName.absolute l.cwd).toText)
  | .ok (.dir _) =>
    match Execute.program? (Execute.upTo depth) m 3 name with
    | .error cause => .error (.program cause (stringOf name))
    | .ok program =>
      let done (ending : Ending) (m : Machine) : Except StartFault Finish :=
        .ok ⟨ending, bytesOf m.printed.reverse, m.clock, m.tree⟩
      if l.limit = 0 then done .late m
      else
        match program ⟨.nothing, .printed, .printed⟩ l.arguments.tail m with
        | .ok status m => done (.exited status) m
        | .error (.exited status) m => done (.exited status) m
        | .error (.killed signal) m => done (.killed signal) m
        | .error .late m => done .late m
        | .error _ m => done (.exited 0) m
  | .ok _ => .error (.directory .notDirectory (PathName.absolute l.cwd).toText)

end Launch

end Shell

end FactoryDowngrade
