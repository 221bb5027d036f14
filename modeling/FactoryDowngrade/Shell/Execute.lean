import FactoryDowngrade.Shell.Redirect

/-!
# Running commands

One step of running a command is told in terms of a way to run commands, so that a run of commands
is bounded by a number of nested steps and nothing else. A run that takes more of them than there
are counts as one that does not end.
-/

namespace FactoryDowngrade

namespace Shell

namespace Execute

/-- Whether a command is built into the shell. -/
def isBuiltin (name : String) : Bool :=
  [":", "true", "false", "echo", "printf", "test", "[", "cd", "pwd", "export", "readonly", "local",
    "unset", "read", "set", "shift", "kill", "wait", "trap", "umask", "ulimit", "times", "exit",
    "return", "break", "continue", "eval", ".", "exec", "command", "type"].contains name

/-- Whether assignments in front of a command outlast it. -/
def keepsAssignments (name : String) : Bool :=
  [":", "export", "readonly", "unset", "set", "shift", "trap", "times", "exit", "return", "break",
    "continue", "eval", ".", "exec"].contains name

/-- Tells what a command name stands for. -/
def describe (run : Execution) (io : Streams) (verbose : Bool) (name : Octets) : Run Nat := do
  let s ← Run.session
  let m ← get
  let shown := stringOf name
  let say (text : String) : Run Nat := do
    Run.put io (octetsOf text)
    return 0
  if reserved.contains name then say (if verbose then s!"{shown} is a shell keyword" else shown)
  else if s.functions.any fun f => f.1 = name then
    say (if verbose then s!"{shown} is a shell function" else shown)
  else if keepsAssignments shown then
    say (if verbose then s!"{shown} is a special shell builtin" else shown)
  else if isBuiltin shown then say (if verbose then s!"{shown} is a shell builtin" else shown)
  else
    match program? run m 3 name with
    | .ok _ =>
      let path := if name.contains '/' then shown else s!"/usr/bin/{shown}"
      say (if verbose then s!"{shown} is {path}" else path)
    | .error _ =>
      if verbose then Run.put io (octetsOf s!"{shown}: not found")
      return 127

/-- Runs a command that is built into the shell. -/
def builtin (run : Execution) (io : Streams) (checked : Bool) (name : String) (args : List Octets) :
    Run Nat := do
  let act (text : Octets) : Run Nat := script run io false text
  match name with
  | ":" | "true" | "ulimit" | "times" => return 0
  | "umask" => do
    if args.isEmpty then Run.put io (octetsOf "0022")
    return 0
  | "false" => return 1
  | "echo" => Builtin.echo io args
  | "printf" => Builtin.printf io args
  | "test" => Condition.run io "test" args
  | "[" => Condition.runBracket io args
  | "cd" => Builtin.cd io args
  | "pwd" => Files.pwd io args
  | "export" | "readonly" | "local" => Builtin.declare name io args
  | "unset" => Builtin.unset io args
  | "read" => Builtin.read io args
  | "set" => Builtin.setOptions io args
  | "shift" => Builtin.shift io args
  | "kill" => Builtin.kill act io args
  | "wait" => Builtin.wait io args
  | "trap" => Builtin.trap io args
  | "exit" => throw (.exited (← Builtin.leavingStatus io name args))
  | "return" => throw (.returned (← Builtin.leavingStatus io name args))
  | "break" => do
    let n ← Builtin.leftLoops io name args
    if n = 0 then return 0 else throw (.broke n)
  | "continue" => do
    let n ← Builtin.leftLoops io name args
    if n = 0 then return 0 else throw (.continued n)
  | "eval" => script run io checked ((args.intersperse [' ']).flatten)
  | "." =>
    match args with
    | [] => return 2
    | file :: _ =>
      match ← Run.readFile file with
      | .ok text =>
        tryCatch (script run io checked text) fun h =>
          match h with
          | .returned status => return status
          | h => throw h
      | .error _ =>
        let shown := stringOf file
        Run.fail io s!".: cannot open {shown}: No such file"
  | "exec" =>
    match args with
    | [] => return 0
    | program :: args =>
      Run.modifySession fun s => { s with traps := s.traps.filter fun t => t.2.isEmpty }
      match program? run (← get) 3 program with
      | .ok body => throw (.exited (← body io args))
      | .error cause =>
        let shown := stringOf program
        let why := if cause = .permission then "Permission denied" else "not found"
        Run.blame io s!"exec: {shown}: {why}"
        throw (.exited (if cause = .permission then 126 else 127))
  | "command" =>
    match args with
    | ['-', 'v'] :: name :: _ => describe run io false name
    | ['-', 'V'] :: name :: _ => describe run io true name
    | program :: args => inProcess io (external run io program args)
    | [] => return 0
  | "type" => do
    let mut status := 0
    for arg in args do
      let found ← describe run io true arg
      if found ≠ 0 then status := found
    return status
  | _ => return 127

/-- Calls a function of the shell. -/
def call (run : Execution) (io : Streams) (checked : Bool) (body : Command) (args : List Octets) :
    Run Nat := do
  let before ← Run.session
  Run.modifySession fun s => { s with arguments := args, loops := 0 }
  let status ← tryCatch (run io checked body) fun h =>
    match h with
    | .returned status => return status
    | h => throw h
  Run.modifySession fun s => { s with arguments := before.arguments, loops := before.loops }
  return status

/-- Assigns the values of words to variables. -/
def assign (run : Execution) (io : Streams) : List (Octets × Word) → Run Unit
  | [] => return ()
  | (name, word) :: rest => do
    let value ← Word.text io (printed run io) word
    Run.assign io "" name value
    assign run io rest

/-- Brings back the variables with some names as they were. -/
def restore (before : Session) (names : List Octets) : Run Unit :=
  Run.modifySession fun s =>
    { s with
      exported := before.exported
      values := (before.values.filter fun v => names.contains v.1)
        ++ s.values.filter fun v => !names.contains v.1 }

/-- Runs a simple command. -/
def simple (run : Execution) (io : Streams) (checked : Bool) (line : Nat)
    (assignments : List (Octets × Word)) (words : List Word) : Run Nat := do
  Run.modifySession fun s => { s with line := s.base + line, outputStatus := 0 }
  let fields ← Word.allFields io (printed run io) words
  let before ← Run.session
  assign run io assignments
  match fields with
  | [] => return (← Run.session).outputStatus
  | name :: args =>
    let shown := stringOf name
    let names := assignments.map (·.1)
    Run.modifySession fun s => { s with exported := names ++ s.exported }
    let found := before.functions.lookup name
    if keepsAssignments shown then
      Run.modifySession fun s => { s with exported := before.exported }
      builtin run io checked shown args
    else
      let status ←
        match found with
        | some body => call run io checked body args
        | none =>
          if isBuiltin shown then builtin run io checked shown args
          else inProcess io (external run io name args)
      if !names.isEmpty then restore before names
      return status

/-- Runs one command into another. The two run at the same time. -/
def pipe (run : Execution) (io : Streams) (first second : Command) : Run Nat := do
  let begun := (← get).clock
  let (_, output) ← Run.captured io fun io => Run.inCopy (run io true first)
  let ended := (← get).clock
  modify fun m => { m with clock := begun }
  let status ← Run.withInput output io fun io => Run.inCopy (run io true second)
  modify fun m => { m with clock := max ended m.clock }
  return status

/-- Runs a command in the background: time goes on as if it were not there. -/
def background (run : Execution) (io : Streams) (body : Command) : Run Nat := do
  let begun := (← get).clock
  let _ ← tryCatch (Run.inCopy (run { io with input := .nothing } true body)) fun h =>
    match h with
    | .late => return 0
    | h => throw h
  modify fun m => { m with busyUntil := max m.busyUntil m.clock, clock := begun }
  return 0

/-- Whether a loop goes on after its body. -/
inductive Pass where
  | goesOn (status : Nat)
  | ends (status : Nat)

/-- Runs the body of a loop once. -/
def pass (body : Run Nat) : Run Pass := do
  let before := (← Run.session).loops
  Run.modifySession fun s => { s with loops := before + 1 }
  let result ← tryCatch (do return Pass.goesOn (← body)) fun h =>
    match h with
    | .broke (levels + 2) => throw (.broke (levels + 1))
    | .broke _ => return .ends 0
    | .continued (levels + 2) => throw (.continued (levels + 1))
    | .continued _ => return .goesOn 0
    | h => throw h
  Run.modifySession fun s => { s with loops := before }
  return result

/-- Runs the body of a loop for each value of a variable. -/
def each (name : Octets) (body : Run Nat) (status : Nat) : List Octets → Run Nat
  | [] => return status
  | value :: rest => do
    Run.setVariable name value
    match ← pass body with
    | .goesOn status => each name body status rest
    | .ends status => return status

/-- Runs a loop as long as its condition holds, a bounded number of times. -/
def loop (condition body : Run Nat) (untilTrue : Bool) (status : Nat) : Nat → Run Nat
  | 0 => do
    modify fun m => { m with clock := m.deadline }
    throw .late
  | fuel + 1 => do
    match ← pass condition with
    | .ends status => return status
    | .goesOn holds =>
      if (holds = 0) = untilTrue then return status
      match ← pass body with
      | .goesOn status => loop condition body untilTrue status fuel
      | .ends status => return status

/-- The first clause with a pattern that matches. -/
def chooseClause (run : Execution) (io : Streams) (value : Octets) :
    List (List Word × Command) → Run (Option Command)
  | [] => return none
  | (patterns, body) :: rest => do
    for pattern in patterns do
      let p := Piece.pattern (← Word.pieces io (printed run io) pattern)
      if Glob.isMatch p value then return some body
    chooseClause run io value rest

/-- The number of passes after which a loop counts as one that does not end. -/
def loopLimit : Nat := 100000

/-- Whether a failure of the command may end a shell that stops on failures. -/
def isChecked : Command → Bool
  | .simple .. => true
  | .redirected .. => true
  | .piped .. => true
  | .subshell .. => true
  | _ => false

/-- The redirections that a command puts on the shell itself. -/
def lasting? : Command → Option (List (Nat × Redirection × Word))
  | .redirected (.simple _ [] [word]) redirections =>
    if plainText? word = some "exec".toList then some redirections else none
  | _ => none

/-- What a command does, apart from the bookkeeping of its status. -/
def perform (run : Execution) (io : Streams) (checked : Bool) : Command → Run Nat
  | .nothing => return 0
  | .simple line assignments words => simple run io checked line assignments words
  | .redirected body redirections =>
    redirect run io (fun io => run io false body) redirections
  | .sequence first second => do
    match lasting? first with
    | some redirections => redirect run io (fun io => run io checked second) redirections
    | none =>
      let status ← run io checked first
      match second with
      | .nothing => return status
      | second => run io checked second
  | .both first second => do
    let status ← run io false first
    if status = 0 then run io checked second else return status
  | .orElse first second => do
    let status ← run io false first
    if status = 0 then return 0 else run io checked second
  | .negated body => do
    let status ← run io false body
    return if status = 0 then 1 else 0
  | .piped first second => pipe run io first second
  | .background body => background run io body
  | .group body => run io checked body
  | .subshell body => Run.inCopy (run io checked body)
  | .choose condition yes no => do
    let status ← run io false condition
    if status = 0 then run io checked yes else run io checked no
  | .loop untilTrue condition body =>
    loop (run io false condition) (run io checked body) untilTrue 0 loopLimit
  | .each name words body => do
    let values ←
      match words with
      | some words => Word.allFields io (printed run io) words
      | none => pure (← Run.session).arguments
    each name (run io checked body) 0 values
  | .select word clauses => do
    let value ← Word.text io (printed run io) word
    match ← chooseClause run io value clauses with
    | some body => run io checked body
    | none => return 0
  | .define name body => do
    Run.modifySession fun s => { s with functions := (name, body) :: s.functions }
    return 0

/-- Runs a command and keeps its status. -/
def step (run : Execution) : Execution := fun io checked command => do
  let status ← perform run io checked command
  match command with
  | .nothing => return 0
  | _ =>
    Run.modifySession fun s => { s with status }
    if status ≠ 0 && checked && isChecked command && (← Run.session).stopsOnFailure then
      throw (.exited status)
    return status

/-- Runs commands within a number of nested steps. -/
def upTo : Nat → Execution
  | 0 => fun _ _ _ => do
    modify fun m => { m with clock := m.deadline }
    throw .late
  | fuel + 1 => step (upTo fuel)

end Execute

end Shell

end FactoryDowngrade
