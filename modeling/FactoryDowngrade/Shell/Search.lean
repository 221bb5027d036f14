import FactoryDowngrade.Shell.Command
import FactoryDowngrade.Text.Pattern

/-!
# Regular expressions of commands

The regular expressions that search commands take, basic or extended, read into text patterns. In a
basic expression grouping, bounds and choice are spelled behind a backslash; in an extended one the
bare characters do it.
-/

namespace FactoryDowngrade

namespace Shell

namespace Search

/-- How an expression is read: which spelling it uses, and whether letter case counts. -/
structure Dialect where
  extended : Bool
  foldCase : Bool
deriving DecidableEq, Repr

/-- A character test that pays no heed to letter case if asked. -/
def folded (d : Dialect) (accepts : Char → Bool) : Char → Bool := fun c =>
  if d.foldCase then accepts c.toLower || accepts c.toUpper else accepts c

/-- The characters of a named class. -/
def classNamed (name : Octets) (c : Char) : Bool :=
  match String.ofList name with
  | "alpha" => c.isAlpha
  | "digit" => c.isDigit
  | "alnum" => c.isAlphanum
  | "upper" => c.isUpper
  | "lower" => c.isLower
  | "space" => c == ' ' || ('\t' ≤ c && c ≤ '\r')
  | "blank" => c == ' ' || c == '\t'
  | "xdigit" => c.isDigit || ('a' ≤ c && c ≤ 'f') || ('A' ≤ c && c ≤ 'F')
  | "punct" => '!' ≤ c && c ≤ '~' && !c.isAlphanum
  | _ => false

/-- Reads the members of a bracket expression up to its closing bracket. -/
def bracketItems : Nat → Octets → Option ((Char → Bool) × Octets)
  | 0, _ => none
  | _ + 1, [] => none
  | fuel + 1, '[' :: ':' :: rest =>
    let name := rest.takeWhile (· ≠ ':')
    (bracketItems fuel (rest.drop (name.length + 2))).map fun (more, rest) =>
      (fun c => classNamed name c || more c, rest)
  | fuel + 1, a :: '-' :: b :: rest =>
    if a == ']' then some (fun _ => false, '-' :: b :: rest)
    else if b == ']' then some (fun c => c == a || c == '-', rest)
    else
      (bracketItems fuel rest).map fun (more, rest) =>
        (fun c => (a ≤ c && c ≤ b) || more c, rest)
  | fuel + 1, a :: rest =>
    if a == ']' then some (fun _ => false, rest)
    else (bracketItems fuel rest).map fun (more, rest) => (fun c => c == a || more c, rest)

/-- Reads a bracket expression behind its opening bracket. A closing bracket that comes first is a
member. -/
def bracket (s : Octets) : Option ((Char → Bool) × Octets) :=
  let members (s : Octets) : Option ((Char → Bool) × Octets) :=
    match s with
    | ']' :: rest =>
      (bracketItems (rest.length + 1) rest).map fun (more, rest) =>
        (fun c => c == ']' || more c, rest)
    | s => bracketItems (s.length + 1) s
  match s with
  | '^' :: rest => (members rest).map fun (accepts, rest) => (fun c => !accepts c, rest)
  | s => members s

/-- What a backslash makes of the character behind it, apart from grouping. -/
def escaped (c : Char) : Pattern :=
  match c with
  | 'w' => .one CharClass.isWord
  | 'W' => .one fun c => !CharClass.isWord c
  | 's' => .one CharClass.isBlank
  | 'S' => .one fun c => !CharClass.isBlank c
  | 'b' => .wordEdge
  | '<' => .seq .wordEdge (.ahead (.one CharClass.isWord))
  | '>' => .seq .wordEdge (.notAhead (.one CharClass.isWord))
  | c => .char c

/-- What a character means apart from its own self. -/
inductive Sign where
  | opening
  | closing
  | bar
  | star
  | plus
  | question
  | bound
deriving DecidableEq, Repr

/-- The signs that some expression begins with, with its spelling's length. -/
def sign? (d : Dialect) (s : Octets) : Option (Sign × Nat) :=
  let named (c : Char) : Option Sign :=
    match c with
    | '(' => some .opening
    | ')' => some .closing
    | '|' => some .bar
    | '+' => some .plus
    | '?' => some .question
    | '\x7b' => some .bound
    | _ => none
  match s with
  | '*' :: _ => some (.star, 1)
  | '\\' :: c :: _ => if d.extended then none else (named c).map (·, 2)
  | c :: _ => if d.extended then (named c).map (·, 1) else none
  | [] => none

/-- A pattern between `least` and `most` times; without `most`, any number of times. -/
def times (p : Pattern) (least : Nat) (most : Option Nat) : Pattern :=
  let front := Pattern.chain (List.replicate least p)
  match most with
  | none => .seq front (.repeated p)
  | some most =>
    .seq front ((List.range (most - least)).foldl (fun rest _ => .maybe (.seq p rest)) .empty)

/-- Reads the numbers of a bound and its end. -/
def bounds (d : Dialect) (s : Octets) : Option ((Nat × Option Nat) × Octets) :=
  let number (s : Octets) : Nat := s.foldl (fun n c => 10 * n + (c.toNat - '0'.toNat)) 0
  let low := s.takeWhile Char.isDigit
  let rest := s.drop low.length
  let (most, rest) :=
    match rest with
    | ',' :: more =>
      let high := more.takeWhile Char.isDigit
      (if high.isEmpty then none else some (number high), more.drop high.length)
    | rest => (some (number low), rest)
  let closer := if d.extended then ['\x7d'] else ['\\', '\x7d']
  if Text.startsWith rest closer then some ((number low, most), rest.drop closer.length) else none

/-- Reads the signs of repetition behind a pattern. -/
def repetitions (d : Dialect) : Nat → Pattern → Octets → Option (Pattern × Octets)
  | 0, p, s => some (p, s)
  | fuel + 1, p, s =>
    match sign? d s with
    | some (.star, n) => repetitions d fuel (.repeated p) (s.drop n)
    | some (.plus, n) => repetitions d fuel (times p 1 none) (s.drop n)
    | some (.question, n) => repetitions d fuel (.maybe p) (s.drop n)
    | some (.bound, n) =>
      match bounds d (s.drop n) with
      | some ((least, most), rest) => repetitions d fuel (times p least most) rest
      | none => none
    | _ => some (p, s)

mutual

/-- Reads branches separated by bars. -/
def branches (d : Dialect) : Nat → Octets → Option (Pattern × Octets)
  | 0, _ => none
  | fuel + 1, s => do
    let (first, rest) ← branch d true fuel s
    match sign? d rest with
    | some (.bar, n) =>
      let (second, rest) ← branches d fuel (rest.drop n)
      some (.either first second, rest)
    | _ => some (first, rest)

/-- Reads one branch up to a bar, a closing parenthesis or the end. -/
def branch (d : Dialect) (isFirst : Bool) : Nat → Octets → Option (Pattern × Octets)
  | 0, _ => none
  | fuel + 1, s =>
    match s with
    | [] => some (.empty, [])
    | c :: rest =>
      let follow (p : Pattern) (rest : Octets) : Option (Pattern × Octets) := do
        let (p, rest) ← repetitions d (rest.length + 1) p rest
        let (more, rest) ← branch d false fuel rest
        some (.seq p more, rest)
      match sign? d s with
      | some (.bar, _) => some (.empty, s)
      | some (.closing, _) => some (.empty, s)
      | some (.opening, n) => do
        let (body, rest) ← branches d fuel (s.drop n)
        match sign? d rest with
        | some (.closing, n) => follow body (rest.drop n)
        | _ => none
      | some (_, n) => if isFirst then follow (.char c) (s.drop n) else none
      | none =>
        match c, rest with
        | '\\', c :: rest => follow (escaped c) rest
        | '\\', [] => none
        | '.', rest => follow (.one fun _ => true) rest
        | '[', rest => do
          let (accepts, rest) ← bracket rest
          follow (.one (folded d accepts)) rest
        | '^', rest =>
          if isFirst || d.extended then do
            let (more, rest) ← branch d true fuel rest
            some (.seq .lineStart more, rest)
          else follow (.char '^') rest
        | '$', rest =>
          if rest.isEmpty || d.extended || ((sign? d rest).any fun s => s.1 = .closing) then
            follow .textEnd rest
          else follow (.char '$') rest
        | c, rest => follow (.one (folded d (· == c))) rest

end

/-- The pattern of an expression. -/
def pattern? (d : Dialect) (s : Octets) : Option Pattern :=
  match branches d (2 * s.length + 4) s with
  | some (p, []) => some p
  | _ => none

/-- The pattern of a fixed text. -/
def fixed (d : Dialect) (s : Octets) : Pattern :=
  Pattern.chain (s.map fun c => .one (folded d (· == c)))

end Search

end Shell

end FactoryDowngrade
