import FactoryDowngrade.Shell.Format
import FactoryDowngrade.Shell.Lines

/-!
# Programs on files

The programs that list, make, copy, move and remove files and directories, take path names apart,
and let time pass.
-/

namespace FactoryDowngrade

namespace Shell

namespace Files

/-- A text between single quotes. -/
def quoted (s : Octets) : String :=
  let shown := stringOf s
  s!"'{shown}'"

/-- A text between typographic quotes. -/
def curled (s : Octets) : String :=
  let shown := stringOf s
  s!"‘{shown}’"

/-- Says what a program could not do. -/
def refuse (io : Streams) (name what : String) (cause : OsCause) : Run Unit :=
  Run.complain io s!"{name}: {what}: {cause.text}"

/-- The exit status after doing something to each operand. -/
def forEach (operands : List Octets) (act : Octets → Run Nat) : Run Nat := do
  let mut status := 0
  for operand in operands do
    if (← act operand) ≠ 0 then status := 1
  return status

/-- Says that a program lacks operands. -/
def missingOperand (io : Streams) (name : String) : Run Nat := do
  Run.complain io s!"{name}: missing operand"
  Run.complain io s!"Try '{name} --help' for more information."
  return 1

/-- The names in a directory in order; those that begin with a dot only if asked for. -/
def listing (r : Request) (entries : List (String × Node)) : List Octets :=
  let names := (entries.map fun e => octetsOf e.1).mergeSort Text.le
  let dots : List Octets := if r.has 'a' then [['.'], ['.', '.']] else []
  let shown := names.filter fun n => n.head? ≠ some '.' || r.has 'a' || r.has 'A'
  let all := dots ++ shown
  if r.has 'r' then all.reverse else all

/-- Lists directories. -/
def ls : Program := requested "ls" "1aAdr" "" 2 fun io r => do
  let operands := if r.operands.isEmpty then [['.']] else r.operands.mergeSort Text.le
  let mut status := 0
  let mut directories := []
  let mut printed := false
  for operand in operands do
    let m ← get
    match FileTree.find m.tree m.session.cwd (pathOf operand) with
    | .error cause =>
      refuse io "ls" s!"cannot access {quoted operand}" cause
      status := 2
    | .ok (.dir entries) =>
      if r.has 'd' then
        Run.put io operand
        printed := true
      else directories := directories ++ [(operand, entries)]
    | .ok _ =>
      Run.put io operand
      printed := true
  for (operand, entries) in directories do
    if 1 < operands.length then
      if printed then Run.put io []
      Run.put io (operand ++ [':'])
      printed := true
    Run.write io.out (unlines (listing r entries))
  return status

/-- Removes files, and directories if asked to. -/
def rm : Program := requested "rm" "frRdv" "" 1 fun io r => do
  if r.operands.isEmpty && !r.has 'f' then missingOperand io "rm"
  else
    forEach r.operands fun operand => do
      let m ← get
      match FileTree.find m.tree m.session.cwd (pathOf operand) with
      | .error cause =>
        if r.has 'f' && cause != .permission then return 0
        refuse io "rm" s!"cannot remove {quoted operand}" cause
        return 1
      | .ok node =>
        if node.isDir && !(r.has 'r' || r.has 'R') then
          refuse io "rm" s!"cannot remove {quoted operand}" .isDirectory
          return 1
        let _ ← Run.change FileTree.remove (pathOf operand)
        return 0

/-- Removes empty directories. -/
def rmdir : Program := requested "rmdir" "p" "" 1 fun io r => do
  if r.operands.isEmpty then missingOperand io "rmdir"
  else
    forEach r.operands fun operand => do
      let m ← get
      let cause? : Option OsCause :=
        match FileTree.find m.tree m.session.cwd (pathOf operand) with
        | .error cause => some cause
        | .ok (.dir []) => none
        | .ok (.dir _) => some .notEmpty
        | .ok _ => some .notDirectory
      match cause? with
      | some cause =>
        refuse io "rmdir" s!"failed to remove {quoted operand}" cause
        return 1
      | none =>
        let _ ← Run.change FileTree.remove (pathOf operand)
        return 0

/-- Makes directories. -/
def mkdir : Program := requested "mkdir" "p" "m" 1 fun io r => do
  if r.operands.isEmpty then missingOperand io "mkdir"
  else
    forEach r.operands fun operand => do
      let path := pathOf operand
      let make (t : Node) (d : List String) (p : PathName) : Except OsFault Node :=
        if r.has 'p' then FileTree.ensureDir t d (p.parts.length + 1) p else FileTree.mkdir t d p
      match ← Run.change make path with
      | none => return 0
      | some fault =>
        refuse io "mkdir" s!"cannot create directory {curled operand}" fault.cause
        return 1

/-- Makes files that are not there yet. -/
def touch : Program := requested "touch" "cam" "" 1 fun io r => do
  if r.operands.isEmpty then
    Run.complain io "touch: missing file operand"
    Run.complain io "Try 'touch --help' for more information."
    return 1
  forEach r.operands fun operand => do
    if (← Run.find? (pathOf operand)).isSome || r.has 'c' then return 0
    match ← Run.change (fun t d p => FileTree.write t d p []) (pathOf operand) with
    | none => return 0
    | some fault =>
      refuse io "touch" s!"cannot touch {quoted operand}" fault.cause
      return 1

/-- Where a copy of a source goes: into the target if that is a directory, else to the target. -/
def destination (target source : Octets) : Run PathName := do
  let path := pathOf target
  match ← Run.find? path with
  | some (.dir _) => return path.child (pathOf source).name
  | _ => return path

/-- Puts a node at a path. -/
def place (node : Node) (p : PathName) : Run (Option OsFault) :=
  Run.change (fun t d p =>
    match FileTree.locate t d p with
    | .ok found => .ok (t.put (some node) found.parts)
    | .error cause => .error (.on p.toText cause)) p

/-- Copies or moves files. -/
def transfer (isMove : Bool) : Program := fun io args =>
  let name := if isMove then "mv" else "cp"
  requested name "frRapvnT" "" 1 (fun io r => do
    match r.operands.reverse with
    | [] =>
      Run.complain io s!"{name}: missing file operand"
      Run.complain io s!"Try '{name} --help' for more information."
      return 1
    | [only] =>
      Run.complain io s!"{name}: missing destination file operand after {quoted only}"
      Run.complain io s!"Try '{name} --help' for more information."
      return 1
    | target :: sources =>
      if 1 < sources.length && !((← Run.find? (pathOf target)).any Node.isDir) then
        refuse io name s!"target {quoted target}" .notDirectory
        return 1
      forEach sources.reverse fun source => do
        let m ← get
        match FileTree.find m.tree m.session.cwd (pathOf source) with
        | .error cause =>
          refuse io name s!"cannot stat {quoted source}" cause
          return 1
        | .ok node =>
          if node.isDir && !isMove && !(r.has 'r' || r.has 'R' || r.has 'a') then
            Run.complain io s!"cp: -r not specified; omitting directory {quoted source}"
            return 1
          let goal ← destination target source
          let shown := octetsOf goal.toText
          if FileTree.find m.tree m.session.cwd goal matches .ok (.file ..) && node.isDir then
            Run.complain io
              s!"{name}: cannot overwrite non-directory {quoted shown} with directory {quoted source}"
            return 1
          let same := (FileTree.locate m.tree m.session.cwd goal).toOption.map (·.parts)
            == (FileTree.locate m.tree m.session.cwd (pathOf source)).toOption.map (·.parts)
          if same then
            Run.complain io s!"{name}: {quoted source} and {quoted shown} are the same file"
            return 1
          if isMove then
            let _ ← Run.change FileTree.remove (pathOf source)
          match ← place node goal with
          | none => return 0
          | some fault =>
            if isMove then
              set m
              refuse io name s!"cannot move {quoted source} to {quoted shown}" fault.cause
            else refuse io name s!"cannot create regular file {quoted shown}" fault.cause
            return 1) io args

/-- Whether a mode lets a file be run, given whether it could be run before. -/
def allowsRunning (mode : Octets) (before : Bool) : Bool :=
  if mode.all Char.isDigit then mode.any fun c => (c.toNat - '0'.toNat) % 2 = 1
  else
    let change := mode.dropWhile fun c => c.isAlpha
    match change with
    | '+' :: letters => before || letters.contains 'x'
    | '-' :: letters => before && !letters.contains 'x'
    | '=' :: letters => letters.contains 'x'
    | _ => before

/-- Changes modes of files, of which only the permission to run counts. -/
def chmod : Program := fun io args => do
  let args := if args.head? = some ['-', 'R'] then args.tail else args
  match args with
  | [] => missingOperand io "chmod"
  | [mode] =>
    Run.complain io s!"chmod: missing operand after {curled mode}"
    Run.complain io "Try 'chmod --help' for more information."
    return 1
  | mode :: operands =>
    forEach operands fun operand => do
      let m ← get
      match FileTree.find m.tree m.session.cwd (pathOf operand) with
      | .error cause =>
        refuse io "chmod" s!"cannot access {quoted operand}" cause
        return 1
      | .ok (.file content executable) =>
        let _ ← place (.file content (allowsRunning mode executable)) (pathOf operand)
        return 0
      | .ok _ => return 0

/-- The last component of a path name, without an ending if one is given. -/
def basename : Program := fun io args => do
  match args with
  | [] => missingOperand io "basename"
  | path :: rest =>
    let trimmed := (path.reverse.dropWhile (· == '/')).reverse
    let name :=
      if trimmed.isEmpty then path.take 1
      else (trimmed.reverse.takeWhile (· ≠ '/')).reverse
    let ending := rest.headD []
    let name :=
      if !ending.isEmpty && ending.length < name.length && ending.isSuffixOf name then
        name.take (name.length - ending.length)
      else name
    Run.put io name
    return 0

/-- The path names without their last components. -/
def dirname : Program := fun io args => do
  if args.isEmpty then missingOperand io "dirname"
  else
    for path in args do
      let back := path.reverse.dropWhile (· == '/')
      let rest := (back.dropWhile (· ≠ '/')).dropWhile (· == '/')
      Run.put io (
        if !rest.isEmpty then rest.reverse
        else if path.head? = some '/' then ['/'] else ['.'])
    return 0

/-- The time in nanoseconds that an argument of `sleep` spells. -/
def duration? (s : Octets) : Option Nat :=
  let whole := s.takeWhile Char.isDigit
  let rest := s.drop whole.length
  let (fraction, rest) :=
    match rest with
    | '.' :: more =>
      let ds := more.takeWhile Char.isDigit
      (ds.take 9, more.drop ds.length)
    | rest => ([], rest)
  let factor? : Option Nat :=
    match rest with
    | [] => some 1
    | ['s'] => some 1
    | ['m'] => some 60
    | ['h'] => some 3600
    | ['d'] => some 86400
    | _ => none
  if whole.isEmpty && fraction.isEmpty then
    if s == "infinity".toList || s == "inf".toList then some (Nat.pow 10 30) else none
  else
    factor?.map fun factor =>
      factor * (Lines.count whole * Nat.pow 10 9
        + Lines.count fraction * Nat.pow 10 (9 - fraction.length))

/-- Lets time pass. -/
def sleep : Program := fun io args => do
  if args.isEmpty then missingOperand io "sleep"
  else
    match args.find? fun a => (duration? a).isNone with
    | some bad =>
      Run.complain io s!"sleep: invalid time interval {curled bad}"
      Run.complain io "Try 'sleep --help' for more information."
      return 1
    | none =>
      Run.sleep ((args.filterMap duration?).foldl (· + ·) 0)
      return 0

/-- Prints its arguments. Letters behind a dash in front of them leave out the line break or turn
escapes on and off. -/
def echo : Program := fun io args => do
  let isOption (a : Octets) : Bool :=
    1 < a.length && a.head? = some '-' && a.tail.all ['n', 'e', 'E'].contains
  let options := args.takeWhile isOption
  let letters := options.flatten
  let line := ((args.drop options.length).intersperse [' ']).flatten
  let escapes := (letters.filter (· ≠ 'n')).getLast? = some 'e'
  let (text, ends) := if escapes then Format.unescape true (line.length + 1) line else (line, false)
  Run.write io.out (text ++ if letters.contains 'n' || ends then [] else ['\n'])
  return 0

/-- Prints its arguments by a format, and says so if the format has no place for them. -/
def printf : Program := fun io args => do
  match args with
  | [] => missingOperand io "printf"
  | format :: args =>
    let (_, left, took, _, _) := Format.pass (format.length + 1) format args
    let (text, fit) := Format.printf format (args.length + 1) args
    Run.write io.out text
    if !took then
      match left with
      | [] => pure ()
      | extra :: _ =>
        Run.complain io
          s!"printf: warning: ignoring excess arguments, starting with {curled extra}"
    match if fit then none else args.find? fun a => (Format.numberOf? a).isNone with
    | some bad => Run.complain io s!"printf: {curled bad}: expected a numeric value"
    | none => pure ()
    return if fit then 0 else 1

/-- The directory that a shell is in. -/
def pwd : Program := fun io _ => do
  let s ← Run.session
  Run.put io (octetsOf (PathName.absolute s.cwd).toText)
  return 0

end Files

end Shell

end FactoryDowngrade
