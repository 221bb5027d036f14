import FactoryDowngrade.Shell.Program

/-!
# Redirections

Where the input and the output of a command go: files that are opened for it, other descriptors,
or the word that its output becomes a part of.
-/

namespace FactoryDowngrade

namespace Shell

namespace Execute

/-- The output of a command, as words take it: without the line breaks at its end. -/
def printed (run : Execution) (io : Streams) : Word.Substitution := fun body => do
  let (status, output) ← Run.captured io fun io => Run.inCopy (run io true body)
  Run.modifySession fun s => { s with outputStatus := status }
  return (output.reverse.dropWhile (· == '\n')).reverse

/-- The sink that a path leads to; a file is made if it is not there, and emptied unless it is
appended to. -/
def openSink (io : Streams) (kind : Redirection) (target : Octets) :
    Run (Except OsCause Sink) := do
  let m ← get
  if target = "/dev/stdout".toList then return .ok io.out
  if target = "/dev/stderr".toList then return .ok io.err
  match FileTree.locate m.tree m.session.cwd (pathOf target) with
  | .error cause => return .error cause
  | .ok ⟨_, some (.dir _)⟩ => return .error .isDirectory
  | .ok ⟨_, some .sink⟩ => return .ok .nowhere
  | .ok ⟨parts, some (.file _ executable)⟩ =>
    if kind != .append then set { m with tree := m.tree.put (some (.file [] executable)) parts }
    return .ok (.file parts)
  | .ok ⟨parts, none⟩ =>
    set { m with tree := m.tree.put (some (.file [] false)) parts }
    return .ok (.file parts)

/-- Streams with one sink replaced. -/
def withSink (io : Streams) (descriptor : Nat) (sink : Sink) : Streams :=
  match descriptor with
  | 1 => { io with out := sink }
  | 2 => { io with err := sink }
  | _ => io

/-- The sink that a descriptor stands for; a dash stands for none. -/
def sinkOf? (io : Streams) (target : Octets) : Option Sink :=
  match target with
  | ['1'] => some io.out
  | ['2'] => some io.err
  | ['0'] => some .nowhere
  | ['-'] => some .nowhere
  | _ => none

/-- Says why a redirection fails. -/
def refuseRedirection (io : Streams) (verb : String) (target : Octets) (why : String) :
    Run Nat := do
  let shown := stringOf target
  Run.blame io s!"cannot {verb} {shown}: {why}"
  return 2

/-- Runs a body behind redirections. -/
def redirect (run : Execution) (io : Streams) (body : Streams → Run Nat) :
    List (Nat × Redirection × Word) → Run Nat
  | [] => body io
  | (descriptor, kind, word) :: rest => do
    let target ← Word.text io (printed run io) word
    match kind with
    | .read =>
      match ← Run.readFile target with
      | .ok content =>
        Run.withInput content io fun opened => redirect run opened body rest
      | .error fault =>
        refuseRedirection io "open" target
          (if fault.cause = .noEntry then "No such file" else fault.cause.text)
    | .document _ => Run.withInput target io fun opened => redirect run opened body rest
    | .duplicate =>
      match sinkOf? io target with
      | some sink => redirect run (withSink io descriptor sink) body rest
      | none =>
        let shown := stringOf target
        Run.blame io s!"{shown}: Bad file descriptor"
        return 2
    | kind =>
      match ← openSink io kind target with
      | .ok sink => redirect run (withSink io descriptor sink) body rest
      | .error cause =>
        refuseRedirection io "create" target
          (if cause = .noEntry then "Directory nonexistent" else cause.text)

end Execute

end Shell

end FactoryDowngrade
