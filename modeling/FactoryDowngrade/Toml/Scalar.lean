import FactoryDowngrade.Data.Check

/-!
# Scalars of configuration files

Each reader takes one token from the front of a text and gives its value with what is left, or
nothing if no such token stands there. Line ends are single newlines by now.

A decimal whole number of too many digits is a fault of its own as soon as it is read, whatever
follows; in the other bases a number may have any number of digits.
-/

namespace FactoryDowngrade

namespace Toml

/-- Why a file cannot be read: it is malformed, a number in it has too many digits, or its values
are nested too deeply. -/
inductive Fault where
  | malformed
  | tooManyDigits (count : Nat)
  | tooDeep
deriving DecidableEq, Repr

/-- What is there, or else the fault of a malformed file. -/
def required {α : Type} : Option α → Except Fault α
  | some value => .ok value
  | none => .error .malformed

/-- A reader of one token. -/
abbrev Reader (α : Type) := Text → Option (α × Text)

/-- Controls that may not stand in a file, the tab and the newline apart. -/
def isControl (c : Char) : Bool :=
  (c.toNat < 32 || c.toNat == 127) && c != '\t' && c != '\n'

/-- Drops the spaces and tabs at the front. -/
def skipBlanks (s : Text) : Text :=
  s.dropWhile CharClass.isSpaceOrTab

/-! ### Strings -/

/-- Reads some digits of base sixteen. -/
def hexDigits : Nat → Nat → Reader Nat
  | 0, n, s => some (n, s)
  | count + 1, n, c :: s =>
    let digit (base offset : Nat) := hexDigits count (16 * n + (c.toNat - base + offset)) s
    if c.isDigit then digit '0'.toNat 0
    else if 'a' ≤ c ∧ c ≤ 'f' then digit 'a'.toNat 10
    else if 'A' ≤ c ∧ c ≤ 'F' then digit 'A'.toNat 10
    else none
  | _ + 1, _, [] => none

/-- Reads the code point of an escape with a fixed number of digits. -/
def codePoint (width : Nat) : Reader Char := fun s => do
  let (n, rest) ← hexDigits width 0 s
  if n < 0xD800 || (0xE000 ≤ n && n ≤ 0x10FFFF) then some (Char.ofNat n, rest) else none

/-- Reads the rest of an escape behind its backslash. -/
def escape : Reader Char
  | 'b' :: s => some ('\x08', s)
  | 't' :: s => some ('\t', s)
  | 'n' :: s => some ('\n', s)
  | 'f' :: s => some ('\x0c', s)
  | 'r' :: s => some ('\r', s)
  | '"' :: s => some ('"', s)
  | '\\' :: s => some ('\\', s)
  | 'u' :: s => codePoint 4 s
  | 'U' :: s => codePoint 8 s
  | _ => none

/-- Skips the line break that a backslash hides, with the blanks around it. At the end of the file
blanks alone may follow the backslash. -/
def hiddenBreak? (s : Text) : Option Text :=
  match s with
  | c :: _ =>
    if CharClass.isSpaceOrTab c || c == '\n' then
      match skipBlanks s with
      | [] => some []
      | '\n' :: rest => some (rest.dropWhile fun c => CharClass.isSpaceOrTab c || c == '\n')
      | _ => none
    else none
  | [] => none

/-- Reads the body of a string on one line up to its closing quote. -/
def lineString : Nat → Reader Text
  | 0, _ => none
  | fuel + 1, s =>
    match s with
    | [] => none
    | '"' :: rest => some ([], rest)
    | '\\' :: rest => do
      let (c, rest) ← escape rest
      let (body, rest) ← lineString fuel rest
      some (c :: body, rest)
    | c :: rest =>
      if isControl c || c == '\n' then none
      else (lineString fuel rest).map fun (body, rest) => (c :: body, rest)

/-- Reads the body of a string over several lines up to its closing quotes. -/
def blockString : Nat → Reader Text
  | 0, _ => none
  | fuel + 1, s =>
    match s with
    | [] => none
    | '"' :: '"' :: '"' :: rest => some ([], rest)
    | '\\' :: rest =>
      match escape rest with
      | some (c, rest) => (blockString fuel rest).map fun (body, rest) => (c :: body, rest)
      | none => (hiddenBreak? rest).bind (blockString fuel)
    | c :: rest =>
      if isControl c then none
      else (blockString fuel rest).map fun (body, rest) => (c :: body, rest)

/-- Reads the body of a string without escapes up to its closing apostrophe. -/
def plainString : Reader Text
  | [] => none
  | '\'' :: rest => some ([], rest)
  | c :: rest =>
    if isControl c || c == '\n' then none
    else (plainString rest).map fun (body, rest) => (c :: body, rest)

/-- Reads the body of a string without escapes over several lines. -/
def plainBlock : Reader Text
  | [] => none
  | '\'' :: '\'' :: '\'' :: rest => some ([], rest)
  | c :: rest =>
    if isControl c then none
    else (plainBlock rest).map fun (body, rest) => (c :: body, rest)

/-- Moves up to two further quotes behind the closing ones into the string. -/
def extraQuotes (quote : Char) : Text × Text → Text × Text
  | (body, a :: b :: rest) =>
    if a == quote then
      if b == quote then (body ++ [quote, quote], rest) else (body ++ [quote], b :: rest)
    else (body, a :: b :: rest)
  | (body, [a]) => if a == quote then (body ++ [quote], []) else (body, [a])
  | (body, []) => (body, [])

/-- Drops a newline right behind opening quotes. -/
def dropBreak : Text → Text
  | '\n' :: rest => rest
  | s => s

/-- Reads a string of any of the four kinds. -/
def string : Reader Text
  | '"' :: '"' :: '"' :: rest =>
    (blockString (rest.length + 1) (dropBreak rest)).map (extraQuotes '"')
  | '\'' :: '\'' :: '\'' :: rest => (plainBlock (dropBreak rest)).map (extraQuotes '\'')
  | '"' :: rest => lineString (rest.length + 1) rest
  | '\'' :: rest => plainString rest
  | _ => none

/-! ### Numbers -/

/-- Reads digits of a kind with single underscores between them. -/
def digitGroup (isDigit : Char → Bool) : Text → Text × Text
  | '_' :: c :: rest =>
    if isDigit c then
      let (more, rest) := digitGroup isDigit rest
      (c :: more, rest)
    else ([], '_' :: c :: rest)
  | c :: rest =>
    if isDigit c then
      let (more, rest) := digitGroup isDigit rest
      (c :: more, rest)
    else ([], c :: rest)
  | [] => ([], [])

/-- Reads at least one digit of a kind, then more with underscores between them. -/
def digits (isDigit : Char → Bool) : Reader Text
  | c :: rest =>
    if isDigit c then
      let (more, rest) := digitGroup isDigit rest
      some (c :: more, rest)
    else none
  | [] => none

/-- The value of digits in a base up to sixteen. -/
def valueIn (base : Nat) (ds : Text) : Nat :=
  ds.foldl (fun n c =>
    base * n + (if c.isDigit then c.toNat - '0'.toNat else c.toLower.toNat - 'a'.toNat + 10)) 0

/-- Whether a character is a digit of base sixteen. -/
def isHexDigit (c : Char) : Bool :=
  c.isDigit || ('a' ≤ c ∧ c ≤ 'f') || ('A' ≤ c ∧ c ≤ 'F')

/-- Reads a whole number in base sixteen, two or eight behind its mark. -/
def basedNumber : Reader Data
  | '0' :: mark :: rest =>
    let read (base : Nat) (isDigit : Char → Bool) : Option (Data × Text) :=
      (digits isDigit rest).map fun (ds, rest) => (.int (valueIn base ds), rest)
    if mark = 'x' then read 16 isHexDigit
    else if mark = 'b' then read 2 fun c => c == '0' || c == '1'
    else if mark = 'o' then read 8 fun c => '0' ≤ c ∧ c ≤ '7'
    else none
  | _ => none

/-- Reads a sign, if there is one; the value says whether it is a minus. -/
def sign : Text → Bool × Text
  | '-' :: rest => (true, rest)
  | '+' :: rest => (false, rest)
  | s => (false, s)

/-- Reads the whole part of a decimal number: a zero alone, or digits that begin with none. -/
def wholePart : Reader Text
  | '0' :: rest => some (['0'], rest)
  | s => digits Char.isDigit s

/-- Reads a point with digits behind it, if they are there. -/
def fraction (s : Text) : Text × Text :=
  match s with
  | '.' :: rest => (digits Char.isDigit rest).getD ([], s)
  | _ => ([], s)

/-- Reads an exponent, if one is there. -/
def exponent? (s : Text) : Option Int × Text :=
  match s with
  | mark :: rest =>
    if mark == 'e' || mark == 'E' then
      let (negative, rest) := sign rest
      match digits Char.isDigit rest with
      | some (ds, rest) =>
        let n : Int := valueIn 10 ds
        (some (if negative then -n else n), rest)
      | none => (none, s)
    else (none, s)
  | [] => (none, s)

/-- The largest number of digits of a whole number in base ten. -/
def digitLimit : Nat := 4300

/-- The whole number that decimal digits spell. -/
def wholeNumber (negative : Bool) (digits : Text) : Except Fault Data :=
  if digitLimit < digits.length then .error (.tooManyDigits digits.length)
  else
    let n : Int := valueIn 10 digits
    .ok (.int (if negative then -n else n))

/-- Reads a decimal number; a point or an exponent makes it a float. -/
def decimalNumber : Reader (Except Fault Data) := fun s => do
  let (negative, rest) := sign s
  let (whole, rest) ← wholePart rest
  let (places, rest) := fraction rest
  let (power, rest) := exponent? rest
  if places.isEmpty && power.isNone then some (wholeNumber negative whole, rest)
  else
    let digits := valueIn 10 (whole ++ places)
    some (.ok (.float (.ofDecimal negative digits (power.getD 0 - places.length))), rest)

/-- Reads one of the words for floats that no digits spell. -/
def specialFloat : Reader Data := fun s =>
  let (negative, rest) := sign s
  if rest.startsWith "inf".toList then some (.float (.infinity negative), rest.drop 3)
  else if rest.startsWith "nan".toList then some (.float .nan, rest.drop 3)
  else none

/-! ### Moments -/

/-- Reads a number of exactly some digits that lies in a range. -/
def field (width low high : Nat) : Reader Nat := fun s =>
  let ds := s.take width
  let n := valueIn 10 ds
  if ds.length = width && ds.all Char.isDigit && low ≤ n && n ≤ high then some (n, s.drop width)
  else none

/-- Reads the given character. -/
def mark (c : Char) (s : Text) : Option Text :=
  if s.head? = some c then some s.tail else none

/-- Reads the time of day, with any number of digits below the second. -/
def timeOfDay (s : Text) : Option Text := do
  let (_, s) ← field 2 0 23 s
  let s ← mark ':' s
  let (_, s) ← field 2 0 59 s
  let s ← mark ':' s
  let (_, s) ← field 2 0 59 s
  match s with
  | '.' :: c :: rest => if c.isDigit then some (rest.dropWhile Char.isDigit) else some s
  | _ => some s

/-- Reads an offset from universal time, if there is one. -/
def zone (s : Text) : Text :=
  match s with
  | c :: rest =>
    if c == 'Z' || c == 'z' then rest
    else if c == '+' || c == '-' then
      (do
        let (_, rest) ← field 2 0 23 rest
        let rest ← mark ':' rest
        let (_, rest) ← field 2 0 59 rest
        some rest).getD s
    else s
  | [] => s

/-- The number of days of a month. -/
def daysIn (year month : Nat) : Nat :=
  if month = 2 then
    if year % 4 = 0 && (year % 100 != 0 || year % 400 = 0) then 29 else 28
  else if [4, 6, 9, 11].contains month then 30
  else 31

/-- Reads a date by its form alone. -/
def dateForm : Reader (Nat × Nat × Nat) := fun s => do
  let (year, s) ← field 4 0 9999 s
  let s ← mark '-' s
  let (month, s) ← field 2 1 12 s
  let s ← mark '-' s
  let (day, s) ← field 2 1 31 s
  some ((year, month, day), s)

/-- Reads the time behind a date, if there is one. -/
def timeBehind (s : Text) : Text :=
  match s with
  | c :: rest =>
    if c == 'T' || c == 't' || c == ' ' then ((timeOfDay rest).map zone).getD s else s
  | [] => s

/-- Reads a date with or without a time, or a time alone. A date that no calendar has makes the
whole file invalid, which the inner result says. -/
def moment? (s : Text) : Option (Option Text) :=
  match dateForm s with
  | some ((year, month, day), rest) =>
    some (if 1 ≤ year && day ≤ daysIn year month then some (timeBehind rest) else none)
  | none => (timeOfDay s).map some

end Toml

end FactoryDowngrade
