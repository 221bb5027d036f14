import FactoryDowngrade.Shell.Builtin
import FactoryDowngrade.Shell.Script

/-!
# Programs

What the name of a program leads to: a program that is always there, a shell, or a script in the
file tree. A shell runs its script through a way to run commands that it is given.
-/

namespace FactoryDowngrade

namespace Shell

/-- A way to run commands. The flag tells whether a failure may end a shell that stops on
failures. -/
abbrev Execution := Streams → Bool → Command → Run Nat

namespace Execute

/-- The programs that need no shell. -/
def plainProgram? (name : String) : Option Program :=
  match name with
  | "cat" => some Lines.cat
  | "head" => some (Lines.ends true)
  | "tail" => some (Lines.ends false)
  | "wc" => some Lines.wc
  | "sort" => some Lines.sort
  | "grep" => some Lines.grep
  | "egrep" => some fun io args => Lines.grep io (['-', 'E'] :: args)
  | "fgrep" => some fun io args => Lines.grep io (['-', 'F'] :: args)
  | "tee" => some Lines.tee
  | "seq" => some Lines.seq
  | "yes" => some Lines.yes
  | "ls" => some Files.ls
  | "rm" => some Files.rm
  | "rmdir" => some Files.rmdir
  | "mkdir" => some Files.mkdir
  | "touch" => some Files.touch
  | "cp" => some (Files.transfer false)
  | "mv" => some (Files.transfer true)
  | "chmod" => some Files.chmod
  | "basename" => some Files.basename
  | "dirname" => some Files.dirname
  | "sleep" => some Files.sleep
  | "pwd" => some fun io args => do
      if !args.isEmpty then Run.complain io "pwd: ignoring non-option arguments"
      Files.pwd io args
  | "true" => some fun _ _ => return 0
  | "false" => some fun _ _ => return 1
  | "printf" => some Files.printf
  | "echo" => some Files.echo
  | "test" => some fun io args => Condition.run io "test" args
  | "[" => some fun io args => do
      if args.getLast? = some [']'] then Condition.run io "[" args.dropLast
      else
        Run.complain io "[: missing ‘]’"
        return 2
  | "kill" => some (Builtin.kill fun _ => return 0)
  | _ => none

/-- Runs the rest of a script line by line. What is wrong with a line shows only when the lines
before it have been run. -/
def scriptLines (run : Execution) (io : Streams) (checked : Bool) (breaks status : Nat) :
    Nat → Octets → Run Nat
  | 0, _ => return status
  | limit + 1, text => do
    match firstLine? text with
    | .ok none => return status
    | .ok (some (body, rest)) =>
      let skipped := breaks - (skipLines (text.length + 1) text).count '\n'
      Run.modifySession fun s => { s with base := skipped }
      let status ← run io checked body
      scriptLines run io checked breaks status limit rest
    | .error fault =>
      Run.modifySession fun s => { s with line := 1 + breaks - fault.breaksLeft }
      Run.fail io fault.message

/-- Runs a script. -/
def script (run : Execution) (io : Streams) (checked : Bool) (text : Octets) : Run Nat := do
  let base := (← Run.session).base
  let status ← scriptLines run io checked (text.count '\n') 0 (text.length + 1) text
  Run.modifySession fun s => { s with base }
  return status

/-- Runs what a shell does when it ends. -/
def atEnd (run : Execution) (io : Streams) (status : Nat) : Run Nat := do
  let s ← Run.session
  match s.traps.lookup ['0'] with
  | none => return status
  | some action =>
    Run.modifySession fun s => { s with traps := [], status }
    let _ ← script run io false action
    return status

/-- Runs a whole shell to its end. -/
def untilEnd (run : Execution) (io : Streams) (body : Run Nat) : Run Nat := do
  let status ← tryCatch body fun h =>
    match h with
    | .exited status => return status
    | .returned status => return status
    | .broke _ => return 0
    | .continued _ => return 0
    | h => throw h
  tryCatch (atEnd run io status) fun h =>
    match h with
    | .exited status => return status
    | h => throw h

/-- A session for a new shell, which knows the exported variables only. -/
def fresh (s : Session) (name : Octets) (arguments : List Octets) (has : Char → Bool) : Session :=
  { s with
    name, arguments, functions := [], base := 0, line := 1, status := 0, outputStatus := 0
    fixed := [], loops := 0, stopsOnFailure := has 'e', refusesUnset := has 'u'
    values := s.values.filter fun v => s.exported.contains v.1
    traps := s.traps.filter fun t => t.2.isEmpty }

/-- Runs a body in a session of its own, and brings the session back that was there before. -/
def inSession (s : Session) (body : Run Nat) : Run Nat := do
  let before ← Run.session
  Run.modifySession fun _ => s
  let result ← tryCatch (do return Except.ok (← body)) fun h => return Except.error h
  Run.modifySession fun _ => before
  match result with
  | .ok status => return status
  | .error h => throw h

/-- A shell as a program: it runs a script from its arguments, a file or its input. -/
def shell (run : Execution) (name : String) : Program := fun io args => do
  let s ← Run.session
  let flags := args.takeWhile fun a => a.length ≥ 2 && (a.head? = some '-' || a.head? = some '+')
  let rest := args.drop flags.length
  let has (c : Char) : Bool := flags.any (·.contains c)
  let own := octetsOf name
  let start (title : Octets) (arguments : List Octets) (text : Octets) : Run Nat :=
    inSession (fresh s title arguments has)
      (untilEnd run io (if has 'n' then return 0 else script run io true text))
  let refuse (message : String) : Run Nat := do
    Run.complain io s!"{name}: 0: {message}"
    return 2
  if has 'c' then
    match rest with
    | [] => refuse "-c requires an argument"
    | text :: [] => start own [] text
    | text :: title :: arguments => start title arguments text
  else
    match rest with
    | [] => start own [] (← Run.readAll io)
    | file :: arguments =>
      match ← Run.readFile file with
      | .ok text => start file arguments text
      | .error fault =>
        let shown := stringOf file
        let why := if fault.cause = .noEntry then "No such file" else fault.cause.text
        refuse s!"cannot open {shown}: {why}"

/-- Runs a program in a process of its own: a signal ends that process only. -/
def inProcess (io : Streams) (body : Run Nat) : Run Nat := do
  let before ← Run.session
  tryCatch body fun h =>
    match h with
    | .killed n => do
      Run.modifySession fun _ => before
      match Signal.epitaph? n with
      | some text => Run.complain io text
      | none => pure ()
      return 128 + n
    | h => throw h

/-- The directories that programs are found in. -/
def programDirectories : List (List String) :=
  [["bin"], ["usr", "bin"]]

mutual

/-- The program with a name: one of those that are always there, or a script in the file tree. -/
def program? (run : Execution) (m : Machine) (fuel : Nat) (name : Octets) :
    Except OsCause Program :=
  let text := stringOf name
  let path := pathOf name
  if ["", ".", ".."].contains text then .error .permission
  else if !name.contains '/' then
    match named? run fuel text with
    | some program => .ok program
    | none => .error .noEntry
  else
    match if path.isAbsolute && programDirectories.contains path.parts.dropLast then
        named? run fuel path.name else none with
    | some program => .ok program
    | none =>
      match FileTree.find m.tree m.session.cwd path with
      | .ok (.file _ true) => .ok fun io args => shell run "sh" io (name :: args)
      | .ok _ => .error .permission
      | .error cause => .error cause

/-- A program that is always there. -/
def named? (run : Execution) (fuel : Nat) (name : String) : Option Program :=
  match fuel with
  | 0 => none
  | fuel + 1 =>
    if ["sh", "dash", "bash"].contains name then some (shell run name)
    else if name = "env" then some (environment run fuel)
    else plainProgram? name

/-- Runs a program with further variables, or prints all that are exported. -/
def environment (run : Execution) (fuel : Nat) : Program := fun io args => do
  let assignments := args.takeWhile (·.contains '=')
  let s ← Run.session
  let added := assignments.map fun a => ((Builtin.assigned a).1, (Builtin.assigned a).2.getD [])
  let s := added.foldl (fun s v =>
    { s with
      values := v :: s.values.filter fun w => w.1 ≠ v.1
      exported := v.1 :: s.exported }) s
  match args.drop assignments.length with
  | [] =>
    for v in s.values do
      if s.exported.contains v.1 then Run.put io (v.1 ++ '=' :: v.2)
    return 0
  | name :: args =>
    match program? run (← get) fuel name with
    | .ok program => inSession s (program io args)
    | .error cause =>
      Run.complain io s!"env: {Files.curled name}: {cause.text}"
      return if cause = .noEntry then 127 else 126

end

/-- Runs what a command of its name does as a program. -/
def external (run : Execution) (io : Streams) (name : Octets) (args : List Octets) : Run Nat := do
  let shown := stringOf name
  match program? run (← get) 3 name with
  | .ok program => program io args
  | .error .permission =>
    Run.blame io s!"{shown}: Permission denied"
    return 126
  | .error _ =>
    Run.blame io s!"{shown}: not found"
    return 127

end Execute

end Shell

end FactoryDowngrade
