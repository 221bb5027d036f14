import FactoryDowngrade.Shell.Machine
import FactoryDowngrade.Shell.Arithmetic
import FactoryDowngrade.Shell.Search

/-!
# Programs on lines

The programs that read files or their input and print what they find: whole contents, the first or
last lines, counts, sorted lines, and the lines that an expression matches.
-/

namespace FactoryDowngrade

namespace Shell

/-- A program: what it does with its arguments, and its exit status. -/
abbrev Program := Streams → List Octets → Run Nat

/-- The lines of a text without their ends. A last line may lack its end. -/
def linesOf (s : Octets) : List Octets :=
  let parts := s.splitOn '\n'
  if parts.getLast? = some [] then parts.dropLast else parts

/-- Lines with their ends. -/
def unlines (lines : List Octets) : Octets :=
  lines.flatMap (· ++ ['\n'])

/-- What a command line asks for: its single-letter options, each with the value it takes if it
takes one, and its operands. -/
structure Request where
  options : List (Char × Octets)
  operands : List Octets

namespace Request

/-- Whether an option is given. -/
def has (r : Request) (letter : Char) : Bool :=
  r.options.any fun o => o.1 = letter

/-- The last value of an option. -/
def value? (r : Request) (letter : Char) : Option Octets :=
  (r.options.reverse.find? fun o => o.1 = letter).map (·.2)

/-- The options in a group of letters. An option with a value takes the rest of the group, or
nothing yet. -/
def group (known valued : String) :
    Octets → Except Char (List (Char × Octets) × Option Char)
  | [] => .ok ([], none)
  | c :: rest =>
    if valued.toList.contains c then
      if rest.isEmpty then .ok ([], some c) else .ok ([(c, rest)], none)
    else if known.toList.contains c then
      (group known valued rest).map fun (more, pending) => ((c, []) :: more, pending)
    else .error c

/-- Reads arguments; the error is a letter that is no option. -/
def read (known : String) (valued : String) : List Octets → Except Char Request
  | [] => .ok ⟨[], []⟩
  | ['-', '-'] :: rest => .ok ⟨[], rest⟩
  | ('-' :: c :: cs) :: rest =>
    match group known valued (c :: cs) with
    | .error letter => .error letter
    | .ok (options, none) =>
      (read known valued rest).map fun r => ⟨options ++ r.options, r.operands⟩
    | .ok (options, some letter) =>
      match rest with
      | [] => .ok ⟨options ++ [(letter, [])], []⟩
      | value :: rest =>
        (read known valued rest).map fun r =>
          ⟨options ++ (letter, value) :: r.options, r.operands⟩
  | operand :: rest => (read known valued rest).map fun r => ⟨r.options, operand :: r.operands⟩

end Request

/-- A program that reads its arguments as options and operands. -/
def requested (name known valued : String) (failure : Nat)
    (body : Streams → Request → Run Nat) : Program := fun io args => do
  match Request.read known valued args with
  | .ok r => body io r
  | .error letter =>
    Run.complain io s!"{name}: invalid option -- '{letter}'"
    Run.complain io s!"Try '{name} --help' for more information."
    return failure

/-- Says why a program cannot use a file. -/
def complainOf (io : Streams) (name : String) (file : Octets) (cause : OsCause) : Run Unit := do
  let shown := stringOf file
  Run.complain io s!"{name}: {shown}: {cause.text}"

/-- The content of an operand, a dash being the input. -/
def contentOf (io : Streams) (operand : Octets) : Run (Except OsFault Octets) := do
  if operand = ['-'] then return .ok (← Run.readAll io) else Run.readFile operand

/-- The contents of the operands that can be read, or of the input if there are no operands, and
the exit status. `describe` words what is wrong with an operand. -/
def contents (io : Streams) (describe : Octets → OsCause → String) (failure : Nat)
    (operands : List Octets) : Run (List (Octets × Octets) × Nat) := do
  let operands := if operands.isEmpty then [['-']] else operands
  let mut found := []
  let mut status := 0
  for operand in operands do
    match ← contentOf io operand with
    | .ok content => found := found ++ [(operand, content)]
    | .error fault =>
      Run.complain io (describe operand fault.cause)
      status := failure
  return (found, status)

namespace Lines

/-- The number that digits spell. -/
def count (s : Octets) : Nat :=
  s.foldl (fun n c => if c.isDigit then 10 * n + (c.toNat - '0'.toNat) else n) 0

/-- Prints contents one after the other. -/
def cat : Program := requested "cat" "u" "" 1 fun io r => do
  let operands := if r.operands.isEmpty then [['-']] else r.operands
  let mut status := 0
  for operand in operands do
    match ← contentOf io operand with
    | .ok content => Run.write io.out content
    | .error fault =>
      complainOf io "cat" operand fault.cause
      status := 1
  return status

/-- The first or last lines or characters of a content. -/
def excerpt (isHead : Bool) (r : Request) (content : Octets) : Octets :=
  match r.value? 'c' with
  | some n =>
    if isHead then content.take (count n) else content.drop (content.length - count n)
  | none =>
    let limit := match r.value? 'n' with
      | some n => n
      | none => ['1', '0']
    let lines := (content.splitOn '\n').map (· ++ ['\n'])
    let lines :=
      if lines.getLast? = some ['\n'] then lines.dropLast
      else lines.dropLast ++ (lines.getLast?.map List.dropLast).toList
    let kept :=
      if isHead then
        match limit with
        | '-' :: n => lines.take (lines.length - count n)
        | n => lines.take (count n)
      else
        match limit with
        | '+' :: n => lines.drop (count n - 1)
        | n => lines.drop (lines.length - count n)
    kept.flatten

/-- A bare number in front of the operands stands for a number of lines. -/
def withoutBareCount : List Octets → List Octets
  | ('-' :: c :: cs) :: rest =>
    if c.isDigit then ['-', 'n'] :: (c :: cs) :: rest else ('-' :: c :: cs) :: rest
  | args => args

/-- What `head` and `tail` say about a file. -/
def endsComplaint (name : String) (file : Octets) (cause : OsCause) : String :=
  let shown := stringOf file
  if cause = .isDirectory then s!"{name}: error reading '{shown}': {cause.text}"
  else s!"{name}: cannot open '{shown}' for reading: {cause.text}"

/-- Prints the first or last lines of files. -/
def ends (isHead : Bool) : Program := fun io args =>
  let name := if isHead then "head" else "tail"
  requested name "q" "nc" 1 (fun io r => do
    let (found, status) ← contents io (endsComplaint name) 1 r.operands
    for ((operand, content), i) in found.zipIdx do
      if 1 < r.operands.length && !r.has 'q' then
        let shown := stringOf (if operand = ['-'] then octetsOf "standard input" else operand)
        if 0 < i then Run.write io.out ['\n']
        Run.write io.out (octetsOf s!"==> {shown} <==\n")
      Run.write io.out (excerpt isHead r content)
    return status) io (withoutBareCount args)

/-- The numbers of lines, words and characters. -/
def sizes (r : Request) (content : Octets) : List Nat :=
  let all := !(r.has 'l' || r.has 'w' || r.has 'c')
  let words := (Text.words content).length
  (if all || r.has 'l' then [content.count '\n'] else [])
    ++ (if all || r.has 'w' then [words] else [])
    ++ (if all || r.has 'c' then [content.length] else [])

/-- Counts lines, words and characters. Numbers are as wide as the largest may be. -/
def wc : Program := requested "wc" "lwc" "" 1 fun io r => do
  let complaint (file : Octets) (cause : OsCause) : String :=
    let shown := stringOf file
    s!"wc: {shown}: {cause.text}"
  let (found, status) ← contents io complaint 1 r.operands
  let rows := found.map fun (operand, content) => (operand, sizes r content)
  let total := (found.map fun f => f.2.length).foldl (· + ·) 0
  let columns := (rows.head?.map fun row => row.2.length).getD 0
  let width :=
    if found.length = 1 && columns = 1 then 1
    else if r.operands.isEmpty then 7
    else (toString total).length
  let row (numbers : List Nat) (label : Octets) : Octets :=
    let cells := numbers.map fun n =>
      let digits := (toString n).toList
      List.replicate (width - digits.length) ' ' ++ digits
    (cells.intersperse [' ']).flatten ++ (if label.isEmpty then [] else ' ' :: label)
  for (operand, numbers) in rows do
    Run.put io (row numbers (if r.operands.isEmpty then [] else operand))
  if 1 < r.operands.length then
    let totals := (List.range columns).map fun i =>
      (rows.map fun row => (row.2[i]?).getD 0).foldl (· + ·) 0
    Run.put io (row totals (octetsOf "total"))
  return status

/-- Sorts lines. -/
def sort : Program := requested "sort" "run" "" 2 fun io r => do
  let complaint (file : Octets) (cause : OsCause) : String :=
    let shown := stringOf file
    s!"sort: cannot read: {shown}: {cause.text}"
  let (found, status) ← contents io complaint 2 r.operands
  let lines := found.flatMap fun f => linesOf f.2
  let key (line : Octets) : Int :=
    match line.dropWhile (· == ' ') with
    | '-' :: ds => -(count (ds.takeWhile Char.isDigit) : Int)
    | ds => count (ds.takeWhile Char.isDigit)
  let ordered (a b : Octets) : Bool :=
    if r.has 'n' then key a < key b || (key a = key b && Text.le a b) else Text.le a b
  let sorted := lines.mergeSort ordered
  let sorted := if r.has 'r' then sorted.reverse else sorted
  Run.write io.out (unlines (if r.has 'u' then sorted.eraseDups else sorted))
  return status

/-- What a search looks for. -/
def searched? (r : Request) (operands : List Octets) : Option (Option Pattern × List Octets) :=
  let d : Search.Dialect := ⟨r.has 'E', r.has 'i'⟩
  let all (texts : List Octets) : Option Pattern :=
    let one (s : Octets) : Option Pattern :=
      if r.has 'F' then some (Search.fixed d s) else Search.pattern? d s
    let whole (p : Pattern) : Pattern :=
      if r.has 'x' then Pattern.chain [.textStart, p, .textEnd]
      else if r.has 'w' then
        Pattern.chain [.notAfter CharClass.isWord, p, .notBefore CharClass.isWord]
      else p
    match texts.mapM one with
    | some (p :: ps) => some (whole (Pattern.choice p ps))
    | _ => none
  let given := (r.options.filter fun o => o.1 = 'e').map (·.2)
  match given, operands with
  | [], text :: files => some (all (text.splitOn '\n'), files)
  | [], [] => none
  | texts, files => some (all (texts.flatMap (·.splitOn '\n')), files)

/-- The parts of a line that an expression matches. -/
def matched (p : Pattern) (line : Octets) : List Octets :=
  ((p.allMatches line).map fun (a, b) => a.upTo b).filter fun s => !s.isEmpty

/-- Searches files for lines that an expression matches. -/
def grep : Program := fun io args =>
  requested "grep" "qcnviEFxwhHlos" "e" 2 (fun io r => do
    match searched? r r.operands with
    | none =>
      Run.complain io "Usage: grep [OPTION]... PATTERNS [FILE]..."
      Run.complain io "Try 'grep --help' for more information."
      return 2
    | some (none, _) =>
      Run.complain io "grep: Invalid regular expression"
      return 2
    | some (some p, files) =>
      let operands := if files.isEmpty then [['-']] else files
      let labelled := (1 < files.length || r.has 'H') && !r.has 'h'
      let mut hit := false
      let mut bad := false
      for operand in operands do
        match ← contentOf io operand with
        | .error fault =>
          if !r.has 's' then complainOf io "grep" operand fault.cause
          bad := true
        | .ok content =>
          let shown := if operand = ['-'] then octetsOf "(standard input)" else operand
          let label := if labelled then shown ++ [':'] else []
          let found := (linesOf content).zipIdx.filter fun (line, _) =>
            p.occurs (Cursor.start line) != r.has 'v'
          if !found.isEmpty then hit := true
          if r.has 'q' then
            if hit then return 0
          else if r.has 'l' then
            if !found.isEmpty then Run.put io shown
          else if r.has 'c' then Run.put io (label ++ (toString found.length).toList)
          else
            for (line, i) in found do
              let number := if r.has 'n' then (toString (i + 1)).toList ++ [':'] else []
              let texts := if r.has 'o' then matched p line else [line]
              for text in texts do Run.put io (label ++ number ++ text)
      return if bad then 2 else if hit then 0 else 1) io args

/-- Copies the input to the output and to files. -/
def tee : Program := requested "tee" "a" "" 1 fun io r => do
  let content ← Run.readAll io
  Run.write io.out content
  let mut status := 0
  for operand in r.operands do
    let old ← Run.readFile operand
    let kept := if r.has 'a' then old.toOption.getD [] else []
    match ← Run.change (fun t d p => FileTree.write t d p (bytesOf (kept ++ content)))
        (pathOf operand) with
    | none => pure ()
    | some fault =>
      complainOf io "tee" operand fault.cause
      status := 1
  return status

/-- Prints a range of numbers. -/
def seq : Program := fun io args => do
  match args.find? fun a => !(if a.head? = some '-' then a.tail else a).all Char.isDigit with
  | some bad =>
    let shown := stringOf bad
    Run.complain io s!"seq: invalid floating point argument: ‘{shown}’"
    Run.complain io "Try 'seq --help' for more information."
    return 1
  | none => pure ()
  let numbers := args.map fun s =>
    match s with
    | '-' :: ds => -(count ds : Int)
    | ds => (count ds : Int)
  let (first, step, last) :=
    match numbers with
    | [last] => ((1 : Int), (1 : Int), last)
    | [first, last] => (first, 1, last)
    | [first, step, last] => (first, step, last)
    | _ => (1, 1, 0)
  if step = 0 then return 1
  let size := if 0 < step then last - first else first - last
  let steps := if size < 0 then 0 else (size / step.natAbs).toNat + 1
  for i in List.range steps do
    Run.put io (Expr.written (first + step * i))
  return 0

/-- Prints a line without end. Only so many lines as any reader takes are kept, and the program
ends with its reader or not at all. -/
def yes : Program := fun io args => do
  let line := if args.isEmpty then ['y'] else (args.intersperse [' ']).flatten
  Run.write io.out (unlines (List.replicate 1000 line))
  match io.out with
  | .capture _ => return 141
  | _ => do
    modify fun m => { m with clock := m.deadline }
    throw .late

end Lines

end Shell

end FactoryDowngrade
