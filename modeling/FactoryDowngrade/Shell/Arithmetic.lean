import FactoryDowngrade.Shell.Command

/-!
# Shell arithmetic

Expressions over whole numbers of 64 bits with the operators of C, and variables that are read as
numbers. Division truncates toward zero.
-/

namespace FactoryDowngrade

namespace Shell

/-- The operators of two numbers. -/
inductive Operator where
  | or | and | bitOr | bitXor | bitAnd | eq | ne | lt | le | gt | ge | shl | shr
  | add | sub | mul | div | mod
deriving DecidableEq, Repr

/-- Arithmetic expressions. -/
inductive Expr where
  | number (n : Int)
  | name (name : Octets)
  | minus (e : Expr)
  | not (e : Expr)
  | complement (e : Expr)
  | binary (op : Operator) (a b : Expr)
  | choose (c a b : Expr)
  | assign (name : Octets) (op : Option Operator) (e : Expr)

namespace Operator

/-- The spellings of the operators with their precedence, longer spellings first. -/
def table : List (String × Nat × Operator) :=
  [("||", 1, or), ("&&", 2, and), ("==", 6, eq), ("!=", 6, ne), ("<<", 8, shl), (">>", 8, shr),
    ("<=", 7, le), (">=", 7, ge), ("|", 3, bitOr), ("^", 4, bitXor), ("&", 5, bitAnd), ("<", 7, lt),
    (">", 7, gt), ("+", 9, add), ("-", 9, sub), ("*", 10, mul), ("/", 10, div), ("%", 10, mod)]

/-- The operator that comes next, with its length and precedence. An operator followed by an equals
sign assigns and does not count. -/
def next? (s : Octets) : Option (Operator × Nat × Nat) :=
  (table.find? fun (text, _, _) => Text.startsWith s text.toList).bind
    fun (text, precedence, op) =>
      let behind := (s.drop text.length).head?
      let comparison := [eq, ne, le, ge].contains op
      if behind = some '=' && !comparison && !([lt, gt, or, and].contains op) then none
      else some (op, text.length, precedence)

/-- The number of values that a number of 64 bits takes. -/
def wordSize : Nat := Nat.pow 2 64

/-- The number of 64 bits with a sign that an integer wraps to. -/
def wrap (n : Int) : Int :=
  Int.bmod n wordSize

/-- One for true and zero for false. -/
def ofBool (b : Bool) : Int :=
  if b then 1 else 0

/-- The value of an operator on two numbers; dividing by zero has none. -/
def apply (op : Operator) (a b : Int) : Option Int :=
  let bits (f : Nat → Nat → Nat) : Int :=
    f (a % wordSize).toNat (b % wordSize).toNat
  match op with
  | or => some (ofBool (a != 0 || b != 0))
  | and => some (ofBool (a != 0 && b != 0))
  | bitOr => some (wrap (bits Nat.lor))
  | bitXor => some (wrap (bits Nat.xor))
  | bitAnd => some (wrap (bits Nat.land))
  | eq => some (ofBool (a == b))
  | ne => some (ofBool (a != b))
  | lt => some (ofBool (a < b))
  | le => some (ofBool (a ≤ b))
  | gt => some (ofBool (a > b))
  | ge => some (ofBool (a ≥ b))
  | shl => some (wrap (a * Nat.pow 2 (b % 64).toNat))
  | shr => some (a / Nat.pow 2 (b % 64).toNat)
  | add => some (wrap (a + b))
  | sub => some (wrap (a - b))
  | mul => some (wrap (a * b))
  | div => if b = 0 then none else some (wrap (a.tdiv b))
  | mod => if b = 0 then none else some (a.tmod b)

end Operator

namespace Expr

/-- Drops blanks. -/
def skip (s : Octets) : Octets :=
  s.dropWhile fun c => c == ' ' || c == '\t' || c == '\n'

/-- The value of a digit in a base up to sixteen. -/
def digit? (base : Nat) (c : Char) : Option Nat :=
  let n :=
    if c.isDigit then c.toNat - '0'.toNat
    else if 'a' ≤ c ∧ c ≤ 'f' then c.toNat - 'a'.toNat + 10
    else if 'A' ≤ c ∧ c ≤ 'F' then c.toNat - 'A'.toNat + 10
    else 99
  if n < base then some n else none

/-- The number that some characters spell: decimal, octal behind a zero, or hexadecimal. -/
def numeral? (s : Octets) : Option Int :=
  let read (base : Nat) (digits : Octets) : Option Int :=
    (digits.foldlM (fun n c => (digit? base c).map (base * n + ·)) 0).map Int.ofNat
  match s with
  | '0' :: 'x' :: rest => if rest.isEmpty then none else read 16 rest
  | '0' :: 'X' :: rest => if rest.isEmpty then none else read 16 rest
  | '0' :: rest => read 8 rest
  | [] => none
  | _ => read 10 s

mutual

/-- Reads an operand. -/
def operand : Nat → Octets → Option (Expr × Octets)
  | 0, _ => none
  | fuel + 1, s =>
    match skip s with
    | '(' :: rest => do
      let (e, rest) ← full fuel rest
      match skip rest with
      | ')' :: rest => some (e, rest)
      | _ => none
    | '-' :: rest => (operand fuel rest).map fun (e, rest) => (.minus e, rest)
    | '+' :: rest => operand fuel rest
    | '!' :: rest => (operand fuel rest).map fun (e, rest) => (.not e, rest)
    | '~' :: rest => (operand fuel rest).map fun (e, rest) => (.complement e, rest)
    | s =>
      let token := s.takeWhile isNameChar
      let rest := s.drop token.length
      if token.head?.any Char.isDigit then (numeral? token).map fun n => (.number n, rest)
      else if token.isEmpty then none
      else
        let assigned (op : Option Operator) (rest : Octets) : Option (Expr × Octets) :=
          (full fuel rest).map fun (e, rest) => (.assign token op e, rest)
        match skip rest with
        | '=' :: '=' :: _ => some (.name token, rest)
        | '=' :: more => assigned none more
        | '+' :: '=' :: more => assigned (some .add) more
        | '-' :: '=' :: more => assigned (some .sub) more
        | '*' :: '=' :: more => assigned (some .mul) more
        | '/' :: '=' :: more => assigned (some .div) more
        | '%' :: '=' :: more => assigned (some .mod) more
        | _ => some (.name token, rest)

/-- Reads operators of at least a precedence behind an expression. -/
def climb : Nat → Nat → Expr → Octets → Option (Expr × Octets)
  | 0, _, _, _ => none
  | fuel + 1, least, left, s =>
    match Operator.next? (skip s) with
    | none => some (left, s)
    | some (op, length, precedence) =>
      if precedence < least then some (left, s)
      else do
        let (right, rest) ← operand fuel ((skip s).drop length)
        let (right, rest) ← climb fuel (precedence + 1) right rest
        climb fuel least (.binary op left right) rest

/-- Reads an expression with a choice at its end, if there is one. -/
def full : Nat → Octets → Option (Expr × Octets)
  | 0, _ => none
  | fuel + 1, s => do
    let (first, rest) ← operand fuel s
    let (c, rest) ← climb fuel 1 first rest
    match skip rest with
    | '?' :: rest => do
      let (a, rest) ← full fuel rest
      match skip rest with
      | ':' :: rest => do
        let (b, rest) ← full fuel rest
        some (.choose c a b, rest)
      | _ => none
    | _ => some (c, rest)

end

/-- The expression that a text spells; an empty text spells zero. -/
def parse? (s : Octets) : Option Expr :=
  if (skip s).isEmpty then some (.number 0)
  else
    match full (4 * s.length + 8) s with
    | some (e, rest) => if (skip rest).isEmpty then some e else none
    | none => none

/-- Values of variables. -/
abbrev Values := List (Octets × Octets)

/-- The number that a variable holds; an unset or empty one holds zero. -/
def valueOf? (values : Values) (name : Octets) : Option Int :=
  match values.lookup name with
  | none => some 0
  | some s =>
    match skip s with
    | [] => some 0
    | '-' :: digits => (numeral? digits).map (-·)
    | digits => numeral? digits

/-- The written form of a number. -/
def written (n : Int) : Octets :=
  (toString n).toList

/-- The value of an expression, with the variables as it leaves them. -/
def eval (values : Values) : Expr → Option (Int × Values)
  | number n => some (Operator.wrap n, values)
  | name n => (valueOf? values n).map (·, values)
  | minus e => (eval values e).map fun (n, values) => (Operator.wrap (-n), values)
  | not e => (eval values e).map fun (n, values) => (Operator.ofBool (n == 0), values)
  | complement e => (eval values e).map fun (n, values) => (-n - 1, values)
  | binary .or a b => do
    let (x, values) ← eval values a
    if x != 0 then some (1, values)
    else
      let (y, values) ← eval values b
      some (Operator.ofBool (y != 0), values)
  | binary .and a b => do
    let (x, values) ← eval values a
    if x == 0 then some (0, values)
    else
      let (y, values) ← eval values b
      some (Operator.ofBool (y != 0), values)
  | binary op a b => do
    let (x, values) ← eval values a
    let (y, values) ← eval values b
    (op.apply x y).map (·, values)
  | choose c a b => do
    let (x, values) ← eval values c
    if x != 0 then eval values a else eval values b
  | assign n op e => do
    let (y, values) ← eval values e
    let result ←
      match op with
      | none => some y
      | some op => (valueOf? values n).bind (op.apply · y)
    some (result, (n, written result) :: values)

end Expr

end Shell

end FactoryDowngrade
