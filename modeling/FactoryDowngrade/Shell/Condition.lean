import FactoryDowngrade.Shell.Word

/-!
# Conditions

The conditions of `test`: about files, texts and numbers, joined by negation, conjunction and
disjunction.
-/

namespace FactoryDowngrade

namespace Shell

namespace Condition

/-- The number that an argument spells. -/
def number? (s : Octets) : Option Int :=
  let s := (s.dropWhile (· == ' ')).reverse.dropWhile (· == ' ') |>.reverse
  let digits (ds : Octets) : Option Int :=
    if !ds.isEmpty && ds.all Char.isDigit then
      some (ds.foldl (fun n c => 10 * n + (c.toNat - '0'.toNat)) 0 : Nat)
    else none
  match s with
  | '-' :: ds => (digits ds).map (-·)
  | '+' :: ds => digits ds
  | ds => digits ds

/-- The tests of one file. -/
def onFile (tree : Node) (cwd : List String) (letter : Char) (path : Octets) : Bool :=
  match if path.isEmpty then none else (FileTree.find tree cwd (pathOf path)).toOption with
  | none => false
  | some node =>
    match letter, node with
    | 'd', .dir _ => true
    | 'd', _ => false
    | 'f', .file .. => true
    | 'f', _ => false
    | 's', .file content _ => !content.isEmpty
    | 's', .dir _ => true
    | 's', .sink => false
    | 'x', .file _ executable => executable
    | 'x', .dir _ => true
    | 'x', .sink => false
    | 'h', _ => false
    | 'L', _ => false
    | _, _ => true

/-- A condition on one operand, if the operator is known. -/
def unary? (m : Machine) (op operand : Octets) : Option Bool :=
  match op with
  | ['-', 'n'] => some !operand.isEmpty
  | ['-', 'z'] => some operand.isEmpty
  | ['-', 't'] => some false
  | ['-', c] =>
    if ['e', 'f', 'd', 's', 'r', 'w', 'x', 'h', 'L'].contains c then
      some (onFile m.tree m.session.cwd c operand)
    else none
  | _ => none

/-- Compares two numbers. -/
def comparison? (op : Octets) : Option (Int → Int → Bool) :=
  match String.ofList op with
  | "-eq" => some fun a b => a == b
  | "-ne" => some fun a b => a != b
  | "-lt" => some fun a b => a < b
  | "-le" => some fun a b => a ≤ b
  | "-gt" => some fun a b => a > b
  | "-ge" => some fun a b => a ≥ b
  | _ => none

/-- A condition on two operands, if the operator is known; the error says what is wrong. -/
def binary? (a op b : Octets) : Option (Except String Bool) :=
  match String.ofList op with
  | "=" => some (.ok (a == b))
  | "==" => none
  | "!=" => some (.ok (a != b))
  | "-nt" => some (.ok false)
  | "-ot" => some (.ok false)
  | "-ef" => some (.ok (a == b))
  | "<" => some (.ok (a < b))
  | ">" => some (.ok (b < a))
  | _ =>
    (comparison? op).map fun compare =>
      match number? a, number? b with
      | some x, some y => .ok (compare x y)
      | none, _ =>
        let shown := stringOf a
        .error s!"Illegal number: {shown}"
      | _, none =>
        let shown := stringOf b
        .error s!"Illegal number: {shown}"

/-- A condition that is not joined with others, and the rest of the arguments. -/
def primary (m : Machine) : List Octets → Except String (Bool × List Octets)
  | a :: op :: b :: rest =>
    match binary? a op b with
    | some (.ok value) => .ok (value, rest)
    | some (.error message) => .error message
    | none =>
      match unary? m a op with
      | some value => .ok (value, b :: rest)
      | none => .ok (!a.isEmpty, op :: b :: rest)
  | [op, a] =>
    match unary? m op a with
    | some value => .ok (value, [])
    | none =>
      if (binary? op a []).isSome then
        let shown := stringOf a
        .error s!"{shown}: argument expected"
      else .ok (!op.isEmpty, [a])
  | [a] => .ok (!a.isEmpty, [])
  | [] => .error "argument expected"

mutual

/-- A disjunction and the rest of the arguments. -/
def disjunction (m : Machine) : Nat → List Octets → Except String (Bool × List Octets)
  | 0, _ => .error "argument expected"
  | fuel + 1, args => do
    let (a, rest) ← conjunction m fuel args
    match rest with
    | ['-', 'o'] :: rest =>
      let (b, rest) ← disjunction m fuel rest
      return (a || b, rest)
    | rest => return (a, rest)

/-- A conjunction and the rest of the arguments. -/
def conjunction (m : Machine) : Nat → List Octets → Except String (Bool × List Octets)
  | 0, _ => .error "argument expected"
  | fuel + 1, args => do
    let (a, rest) ← negation m fuel args
    match rest with
    | ['-', 'a'] :: rest =>
      let (b, rest) ← conjunction m fuel rest
      return (a && b, rest)
    | rest => return (a, rest)

/-- A condition with negations in front, and the rest of the arguments. -/
def negation (m : Machine) : Nat → List Octets → Except String (Bool × List Octets)
  | 0, _ => .error "argument expected"
  | fuel + 1, args => do
    match args with
    | ['!'] :: next :: rest =>
      if rest.length ≥ 2 && next = ['='] then primary m args
      else
        let (a, rest) ← negation m fuel (next :: rest)
        return (!a, rest)
    | ['('] :: rest@(_ :: _) =>
      let (a, rest) ← disjunction m fuel rest
      match rest with
      | [')'] :: rest => return (a, rest)
      | _ => throw "closing paren expected"
    | args => primary m args

end

/-- Whether a condition holds; without arguments it does not. -/
def holds (m : Machine) (args : List Octets) : Except String Bool := do
  if args.isEmpty then return false
  let (value, rest) ← disjunction m (2 * args.length + 8) args
  if rest.isEmpty then return value
  else
    let last := stringOf (args[args.length - rest.length - 1]?.getD [])
    throw s!"{last}: unexpected operator"

/-- Runs `test` under the name it was called by. -/
def run (io : Streams) (name : String) (args : List Octets) : Run Nat := do
  match holds (← get) args with
  | .ok value => return if value then 0 else 1
  | .error message =>
    Run.blame io s!"{name}: {message}"
    return 2

/-- Runs `[`, whose last argument closes it. -/
def runBracket (io : Streams) (args : List Octets) : Run Nat := do
  if args.getLast? = some [']'] then run io "[" args.dropLast
  else
    Run.blame io "[: missing ]"
    return 2

end Condition

end Shell

end FactoryDowngrade
