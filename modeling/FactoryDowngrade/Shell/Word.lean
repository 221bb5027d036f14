import FactoryDowngrade.Shell.Arithmetic
import FactoryDowngrade.Shell.Glob
import FactoryDowngrade.Shell.Machine

/-!
# Expanding words

A word becomes pieces: characters as they stand, values that are still to be split into fields, and
cuts between the arguments of the shell. The pieces are then read in one of three ways: as fields
matched against file names, as one pattern, or as one text.
-/

namespace FactoryDowngrade

namespace Shell

/-- A piece of an expanded word. -/
inductive Piece where
  | chars (s : Octets) (isQuoted : Bool)
  | value (s : Octets)
  | cut
deriving DecidableEq, Repr

namespace Piece

/-- The characters of some pieces on one line, with a blank for each cut. -/
def text (pieces : List Piece) : Octets :=
  pieces.flatMap fun
    | chars s _ => s
    | value s => s
    | cut => [' ']

/-- The characters of some pieces as a pattern. -/
def pattern (pieces : List Piece) : Marked :=
  pieces.flatMap fun
    | chars s isQuoted => s.map (·, isQuoted)
    | value s => s.map (·, false)
    | cut => [(' ', false)]

/-- Fields underway: those that are complete, and the one that is being made if any. All are held
last item first. -/
structure Split where
  complete : List Marked
  current : Option Marked

namespace Split

/-- Adds characters to the current field. -/
def add (s : Split) (m : Marked) : Split :=
  { s with current := some (m.reverse ++ s.current.getD []) }

/-- Completes the current field, if there is one. -/
def close (s : Split) : Split :=
  match s.current with
  | some m => ⟨m.reverse :: s.complete, none⟩
  | none => s

/-- Completes the current field, which may be empty. -/
def force (s : Split) : Split :=
  ⟨(s.current.getD []).reverse :: s.complete, none⟩

/-- Splits a value at separators; blank ones join with their neighbours. -/
def addValue (separators : Octets) (s : Split) (value : Octets) : Split :=
  value.foldl (fun s c =>
    if separators.contains c then
      if c == ' ' || c == '\t' || c == '\n' then s.close else s.force
    else s.add [(c, false)]) s

/-- Adds a piece. -/
def piece (separators : Octets) (s : Split) : Piece → Split
  | chars cs isQuoted => s.add (cs.map (·, isQuoted))
  | value cs => s.addValue separators cs
  | cut => s.force

end Split

/-- The fields of some pieces. -/
def fields (separators : Octets) (pieces : List Piece) : List Marked :=
  (pieces.foldl (Split.piece separators) ⟨[], none⟩).close.complete.reverse

end Piece

namespace Session

/-- The characters that separate fields. -/
def separators (s : Session) : Octets :=
  (s.values.lookup "IFS".toList).getD [' ', '\t', '\n']

/-- The arguments as one text. -/
def joined (s : Session) : Octets :=
  let gap := match s.values.lookup "IFS".toList with
    | some separators => separators.take 1
    | none => [' ']
  (s.arguments.intersperse gap).flatten

/-- The value of a variable or special parameter. -/
def parameter? (s : Session) (name : Octets) : Option Octets :=
  match name with
  | ['?'] => some (Expr.written s.status)
  | ['$'] => some (Expr.written processNumber)
  | ['#'] => some (Expr.written s.arguments.length)
  | ['-'] => some ((if s.refusesUnset then ['u'] else []) ++ if s.stopsOnFailure then ['e'] else [])
  | ['!'] => some (Expr.written (processNumber + 1))
  | ['@'] => if s.arguments.isEmpty then none else some s.joined
  | ['*'] => if s.arguments.isEmpty then none else some s.joined
  | ['0'] => some s.name
  | name =>
    if name.all Char.isDigit then
      s.arguments[name.foldl (fun n c => 10 * n + (c.toNat - '0'.toNat)) 0 - 1]?
    else s.values.lookup name

end Session

namespace Run

/-- Says something about the present line. -/
def blame (io : Streams) (message : String) : Run Unit := do
  let s ← session
  complain io s!"{stringOf s.name}: {s.line}: {message}"

/-- Says something about the present line and leaves the shell. -/
def fail {α : Type} (io : Streams) (message : String) : Run α := do
  blame io message
  throw (.exited 2)

/-- Refuses to change a variable that is fixed. -/
def refuseFixed (io : Streams) (command : String) (name : Octets) : Run Unit := do
  if (← session).fixed.contains name then
    let shown := stringOf name
    fail io (if command.isEmpty then s!"{shown}: is read only"
      else s!"{command}: {shown}: is read only")

/-- Sets a variable that is not fixed. -/
def assign (io : Streams) (command : String) (name value : Octets) : Run Unit := do
  refuseFixed io command name
  setVariable name value

end Run

namespace Word

/-- A value as a piece. -/
def valuePiece (isQuoted : Bool) (s : Octets) : Piece :=
  if isQuoted then .chars s true else .value s

/-- The pieces of all arguments. -/
def argumentPieces (isQuoted : Bool) (arguments : List Octets) : List Piece :=
  (arguments.map (valuePiece isQuoted)).intersperse .cut

/-- The value without its shortest or longest part that a pattern matches, at the front or at the
back. -/
def trim (front longest : Bool) (pattern : Marked) (value : Octets) : Octets :=
  let sizes := List.range (value.length + 1)
  let sizes := if longest then sizes.reverse else sizes
  let part (n : Nat) : Octets := if front then value.take n else value.drop (value.length - n)
  match sizes.find? fun n => Glob.isMatch pattern (part n) with
  | some n => if front then value.drop n else value.take (value.length - n)
  | none => value

/-- The value of an arithmetic expression. -/
def calculate (io : Streams) (text : Octets) : Run Octets := do
  let shown := stringOf text
  match Expr.parse? text with
  | none => Run.fail io s!"arithmetic expression: expecting primary: \"{shown}\""
  | some e =>
    match e.eval (← Run.session).values with
    | none => Run.fail io s!"arithmetic expression: division by zero: \"{shown}\""
    | some (n, values) =>
      Run.modifySession fun s => { s with values }
      return Expr.written n

/-- Runs the commands that words hold and gives what they print. -/
abbrev Substitution := Command → Run Octets

mutual

/-- The pieces of a part of a word. -/
def partPieces (io : Streams) (printed : Substitution) : Part → Run (List Piece)
  | .text s isQuoted => return [.chars s isQuoted]
  | .arithmetic body isQuoted => do
    let pieces ← pieces io printed body
    return [valuePiece isQuoted (← calculate io (Piece.text pieces))]
  | .output body isQuoted => do
    return [valuePiece isQuoted (← printed body)]
  | .variable name treatment operand isQuoted => do
    let s ← Run.session
    let found := s.parameter? name
    let whole : List Piece :=
      if name = ['@'] || (name = ['*'] && !isQuoted) then argumentPieces isQuoted s.arguments
      else [valuePiece isQuoted (found.getD [])]
    let missing (emptyToo : Bool) : Bool :=
      match found with
      | none => true
      | some value => emptyToo && value.isEmpty
    let needsValue : Bool :=
      match treatment with
      | .plain | .size | .trimFront _ | .trimBack _ => true
      | _ => false
    if s.refusesUnset && needsValue && found.isNone && name ≠ ['@'] && name ≠ ['*'] then
      Run.fail io s!"{stringOf name}: parameter not set"
    match treatment with
    | .plain => return whole
    | .size => return [valuePiece isQuoted (Expr.written (found.getD []).length)]
    | .whenUnset emptyToo =>
      if missing emptyToo then pieces io printed operand else return whole
    | .whenSet emptyToo =>
      if missing emptyToo then return [] else pieces io printed operand
    | .assignUnset emptyToo =>
      if missing emptyToo then
        let value := Piece.text (← pieces io printed operand)
        Run.assign io "" name value
        return [valuePiece isQuoted value]
      else return whole
    | .failUnset emptyToo =>
      if missing emptyToo then
        let message := stringOf (Piece.text (← pieces io printed operand))
        let message :=
          if !message.isEmpty then message
          else if emptyToo then "parameter not set or null" else "parameter not set"
        Run.fail io s!"{stringOf name}: {message}"
      else return whole
    | .trimFront longest =>
      let pattern := Piece.pattern (← pieces io printed operand)
      return [valuePiece isQuoted (trim true longest pattern (found.getD []))]
    | .trimBack longest =>
      let pattern := Piece.pattern (← pieces io printed operand)
      return [valuePiece isQuoted (trim false longest pattern (found.getD []))]

/-- The pieces of a word. -/
def pieces (io : Streams) (printed : Substitution) : List Part → Run (List Piece)
  | [] => return []
  | part :: rest => do
    let first ← partPieces io printed part
    return first ++ (← pieces io printed rest)

end

/-- The text of a word. -/
def text (io : Streams) (printed : Substitution) (w : Word) : Run Octets := do
  return Piece.text (← pieces io printed w)

/-- Splits a pattern at its slashes. -/
def components (p : Marked) : List Marked :=
  p.splitOnP fun m => m.1 == '/'

/-- The paths that components of a pattern lead to behind a path that is there already. -/
def expandPath (tree : Node) (cwd : List String) : List Marked → Octets → List Octets
  | [], done => [done]
  | component :: rest, done =>
    let literal := component.map (·.1)
    let gap : Octets := if rest.isEmpty then [] else ['/']
    if component.any Glob.isActive then
      let place := pathOf (if done.isEmpty then ['.'] else done)
      match FileTree.find tree cwd place with
      | .ok (.dir entries) =>
        let names := (entries.map fun e => octetsOf e.1).mergeSort fun a b => a ≤ b
        (names.filter fun name =>
          (name.head? ≠ some '.' || literal.head? = some '.') && Glob.isMatch component name).flatMap
            fun name => expandPath tree cwd rest (done ++ name ++ gap)
      | _ => []
    else expandPath tree cwd rest (done ++ literal ++ gap)

/-- The file names that a field matches, or the field itself if there are none. -/
def matching (m : Machine) (field : Marked) : List Octets :=
  let plain := field.map (·.1)
  if Glob.isGlob field then
    let found := (expandPath m.tree m.session.cwd (components field) []).filter fun path =>
      match FileTree.find m.tree m.session.cwd (pathOf path) with
      | .ok _ => true
      | .error _ => false
    if found.isEmpty then [plain] else found
  else [plain]

/-- Whether a word consists of all arguments between quotes. -/
def isAllArguments : Word → Bool
  | [.text [] true, .variable ['@'] .plain _ true] => true
  | _ => false

/-- The fields of a word. -/
def fields (io : Streams) (printed : Substitution) (w : Word) : Run (List Octets) := do
  let s ← Run.session
  if isAllArguments w && s.arguments.isEmpty then return []
  let split := Piece.fields s.separators (← pieces io printed w)
  let m ← get
  return split.flatMap (matching m)

/-- The fields of some words. -/
def allFields (io : Streams) (printed : Substitution) : List Word → Run (List Octets)
  | [] => return []
  | w :: rest => do
    let first ← fields io printed w
    return first ++ (← allFields io printed rest)

end Word

end Shell

end FactoryDowngrade
