import FactoryDowngrade.Shell.Condition
import FactoryDowngrade.Shell.Files
import FactoryDowngrade.Shell.Format
import FactoryDowngrade.Shell.Signal

/-!
# Built-in commands

The commands that act on the shell itself: its variables, arguments, directory, traps and control
flow. Some run scripts in turn and are given the means to do so.
-/

namespace FactoryDowngrade

namespace Shell

namespace Builtin

/-- Refuses an argument and leaves the shell. -/
def illegalNumber {α : Type} (io : Streams) (name : String) (s : Octets) : Run α := do
  let shown := stringOf s
  Run.fail io s!"{name}: Illegal number: {shown}"

/-- The argument of a command that takes a number. -/
def numberArgument (io : Streams) (name : String) (default : Nat) : List Octets → Run Nat
  | [] => return default
  | s :: _ =>
    if !s.isEmpty && s.all Char.isDigit then return Lines.count s else illegalNumber io name s

/-- Prints its arguments. -/
def echo : Program := fun io args => do
  Run.write io.out (Format.echo args)
  return 0

/-- Prints its arguments by a format. -/
def printf : Program := fun io args => do
  match args with
  | [] =>
    Run.blame io "printf: usage: printf format [arg ...]"
    return 2
  | format :: args =>
    let (text, fit) := Format.printf format (args.length + 1) args
    match if fit then none else args.find? fun a => (Format.numberOf? a).isNone with
    | some bad =>
      let shown := stringOf bad
      Run.blame io s!"printf: {shown}: expected numeric value"
    | none => pure ()
    Run.write io.out text
    return if fit then 0 else 1

/-- Changes the directory. -/
def cd : Program := fun io args => do
  let s ← Run.session
  let target := match args.filter (· ≠ ['-', '-']) with
    | target :: _ => target
    | [] => (s.values.lookup "HOME".toList).getD ['/']
  let target :=
    if target = ['-'] then (s.values.lookup "OLDPWD".toList).getD [] else target
  let m ← get
  match FileTree.locate m.tree s.cwd (pathOf target) with
  | .ok ⟨parts, some (.dir _)⟩ =>
    Run.setVariable "OLDPWD".toList (octetsOf (PathName.absolute s.cwd).toText)
    Run.modifySession fun s => { s with cwd := parts }
    Run.setVariable "PWD".toList (octetsOf (PathName.absolute parts).toText)
    return 0
  | _ =>
    let shown := stringOf target
    Run.blame io s!"cd: can't cd to {shown}"
    return 2

/-- The number of loops that `break` and `continue` leave, which are no more than there are. -/
def leftLoops (io : Streams) (name : String) (args : List Octets) : Run Nat := do
  let n ← numberArgument io name 1 args
  if n = 0 then illegalNumber io name (args.headD [])
  return min n (← Run.session).loops

/-- The status of `exit` and `return`. -/
def leavingStatus (io : Streams) (name : String) (args : List Octets) : Run Nat := do
  let n ← numberArgument io name (← Run.session).status args
  return n % 256

/-- The name and value of an argument that assigns. -/
def assigned (s : Octets) : Octets × Option Octets :=
  let name := s.takeWhile (· ≠ '=')
  (name, if name.length < s.length then some (s.drop (name.length + 1)) else none)

/-- Assigns to variables, and exports or fixes them by the name of the command. -/
def declare (command : String) : Program := fun io args => do
  for arg in args do
    if arg ≠ ['-', 'p'] then
      let (name, value) := assigned arg
      if !isName name then
        let shown := stringOf name
        let _ ← Run.fail (α := Nat) io s!"{command}: {shown}: bad variable name"
      match value with
      | some value => Run.assign io command name value
      | none => pure ()
      if command = "export" then
        Run.modifySession fun s => { s with exported := name :: s.exported.filter (· ≠ name) }
      if command = "readonly" then Run.modifySession fun s => { s with fixed := name :: s.fixed }
  return 0

/-- Forgets variables and functions. -/
def unset : Program := fun io args => do
  for name in args do
    if !isName name && name.head? ≠ some '-' then
      let shown := stringOf name
      Run.fail io s!"unset: {shown}: bad variable name"
    Run.refuseFixed io "unset" name
    Run.modifySession fun s =>
      { s with
        values := s.values.filter fun v => v.1 ≠ name
        exported := s.exported.filter (· ≠ name)
        functions := if args.contains ['-', 'f'] then s.functions.filter fun f => f.1 ≠ name
          else s.functions }
  return 0

/-- Takes the escapes out of a line: a backslash keeps the next character. -/
def unescaped : Octets → Octets
  | '\\' :: c :: rest => c :: unescaped rest
  | c :: rest => c :: unescaped rest
  | [] => []

/-- Gives each name a field of a line and the last name what is left. -/
def distribute (separators : Octets) : List Octets → Octets → List (Octets × Octets)
  | [], _ => []
  | [name], line =>
    [(name, ((line.dropWhile separators.contains).reverse.dropWhile separators.contains).reverse)]
  | name :: names, line =>
    let line := line.dropWhile fun c => separators.contains c && (c == ' ' || c == '\t')
    let field := line.takeWhile fun c => !separators.contains c
    (name, field) :: distribute separators names (line.drop (field.length + 1))

/-- Reads a line of the input into variables. -/
def read : Program := fun io args => do
  let names := args.filter fun a => a.head? ≠ some '-'
  let raw := args.contains ['-', 'r']
  if names.isEmpty then
    Run.blame io "read: arg count"
    return 2
  match names.find? fun name => !isName name with
  | some name =>
    let shown := stringOf name
    Run.blame io s!"read: {shown}: bad variable name"
    return 2
  | none => pure ()
  let separators := (← Run.session).separators
  let (line, complete) := match ← Run.readLine io with
    | some found => found
    | none => ([], false)
  let line := if raw then line else unescaped line
  for (name, value) in distribute separators names line do
    if (← Run.session).fixed.contains name then
      let shown := stringOf name
      Run.blame io s!"read: {shown}: is read only"
      return 2
    Run.setVariable name value
  return if complete then 0 else 1

/-- Sets options and arguments of the shell. -/
def setOptions : Program := fun io args => do
  match args with
  | [] => return 0
  | ['-', '-'] :: rest =>
    Run.modifySession fun s => { s with arguments := rest }
    return 0
  | (sign :: letters) :: rest =>
    if sign == '-' || sign == '+' then
      match letters.find? fun c => !"efImnsvxVECabuo".toList.contains c with
      | some c =>
        let shown := String.ofList [sign, c]
        Run.fail io s!"set: Illegal option {shown}"
      | none => pure ()
      if letters.contains 'o' then
        match rest.head? with
        | some name =>
          if name = "errexit".toList then
            Run.modifySession fun s => { s with stopsOnFailure := sign == '-' }
            return 0
          let shown := stringOf name
          if name = "nounset".toList then
            Run.modifySession fun s => { s with refusesUnset := sign == '-' }
            return 0
          if ["xtrace", "noglob", "noclobber", "verbose"].contains shown then return 0
          Run.fail io s!"set: Illegal option -o {shown}"
        | none => return 0
      if letters.contains 'e' then
        Run.modifySession fun s => { s with stopsOnFailure := sign == '-' }
      if letters.contains 'u' then
        Run.modifySession fun s => { s with refusesUnset := sign == '-' }
      let rest := if rest.head? = some ['-', '-'] then rest.tail else rest
      if !rest.isEmpty then Run.modifySession fun s => { s with arguments := rest }
      return 0
    else
      Run.modifySession fun s => { s with arguments := args }
      return 0
  | [] :: _ =>
    Run.modifySession fun s => { s with arguments := args }
    return 0

/-- Drops arguments of the shell. -/
def shift : Program := fun io args => do
  let n ← numberArgument io "shift" 1 args
  let s ← Run.session
  if s.arguments.length < n then Run.fail io "shift: can't shift that many"
  Run.modifySession fun s => { s with arguments := s.arguments.drop n }
  return 0

/-- Sets what happens on signals and at the end of the shell. -/
def trap : Program := fun io args => do
  match args with
  | action :: names =>
    let (action, names) :=
      if names.isEmpty then (['-'], [action]) else (action, names)
    for name in names do
      match Signal.number? name with
      | none =>
        let shown := stringOf name
        Run.complain io s!"trap: {shown}: bad trap"
        return 1
      | some n =>
        Run.modifySession fun s =>
          let others := s.traps.filter fun t => t.1 ≠ Expr.written n
          { s with traps := if action = ['-'] then others else (Expr.written n, action) :: others }
    return 0
  | [] => return 0

/-- Whether a process number means the shell itself. -/
def isSelf (target : Octets) : Bool :=
  let own := Expr.written processNumber
  target = own || target = '-' :: own || target = ['0']

/-- Sends a signal to processes. -/
def send (io : Streams) (act : Octets → Run Nat) (n : Nat) (targets : List Octets) : Run Nat := do
  let mut status := 0
  for target in targets do
    if isSelf target then status ← Signal.deliver n act
    else if target = Expr.written (processNumber + 1) then pure ()
    else
      let digits := if target.head? = some '-' then target.tail else target
      if !digits.isEmpty && digits.all Char.isDigit then
        Run.blame io "kill: No such process\n"
        status := 1
      else
        let shown := stringOf target
        Run.blame io s!"kill: Illegal number: {shown}"
        return 2
  return status

/-- Sends signals. -/
def kill (act : Octets → Run Nat) : Program := fun io args => do
  let usage : Run Nat := do
    Run.fail io <| "kill: Usage: kill [-s sigspec | -signum | -sigspec] [pid | job]... or\n" ++
      "kill -l [exitstatus]"
  match args with
  | [] => usage
  | ['-', 's'] :: name :: targets =>
    match Signal.number? name with
    | some n => send io act n targets
    | none =>
      let shown := stringOf name
      Run.fail io s!"kill: invalid signal number or name: {shown}"
  | ['-', '-'] :: targets => send io act 15 targets
  | ('-' :: name) :: targets =>
    if targets.isEmpty then usage
    else
      match Signal.number? name with
      | some n => send io act n (targets.filter (· ≠ ['-', '-']))
      | none =>
        let letter := String.ofList (name.take 1)
        Run.fail io s!"kill: Illegal option -{letter}"
  | targets => send io act 15 targets

/-- Waits for the jobs in the background. -/
def wait : Program := fun io args => do
  match args.find? fun a => a.isEmpty || !a.all Char.isDigit with
  | some bad =>
    let shown := stringOf bad
    Run.blame io s!"wait: Illegal number: {shown}"
    return 2
  | none => pure ()
  let m ← get
  if m.clock < m.busyUntil then Run.sleep (m.busyUntil - m.clock)
  return 0

end Builtin

end Shell

end FactoryDowngrade
