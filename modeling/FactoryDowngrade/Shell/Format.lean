import FactoryDowngrade.Shell.Arithmetic

/-!
# Escapes and formats

How `echo` and `printf` spell characters by escapes, and how `printf` lays out its arguments. A
backslash with `c` ends all output.
-/

namespace FactoryDowngrade

namespace Shell

namespace Format

/-- The control character that a letter stands for behind a backslash. -/
def control? : Char → Option Char
  | 'a' => some '\x07'
  | 'b' => some '\x08'
  | 'f' => some '\x0c'
  | 'n' => some '\n'
  | 'r' => some '\r'
  | 't' => some '\t'
  | 'v' => some '\x0b'
  | '\\' => some '\\'
  | _ => none

/-- Whether a character is an octal digit. -/
def isOctal (c : Char) : Bool :=
  '0' ≤ c ∧ c ≤ '7'

/-- The octet with an octal number. -/
def octal (digits : Octets) : Char :=
  Char.ofNat (digits.foldl (fun n c => 8 * n + (c.toNat - '0'.toNat)) 0 % 256)

/-- Reads one escape behind its backslash: the characters it stands for, the rest, and whether
output ends here. Octal numbers begin with a zero if `zeroFirst` says so. -/
def escape (zeroFirst : Bool) : Octets → Octets × Octets × Bool
  | [] => (['\\'], [], false)
  | 'c' :: _ => ([], [], true)
  | c :: rest =>
    match control? c with
    | some x => ([x], rest, false)
    | none =>
      let digits :=
        if zeroFirst then (if c == '0' then (rest.take 3).takeWhile isOctal else [])
        else ((c :: rest).take 3).takeWhile isOctal
      if zeroFirst then
        if c == '0' then ([octal digits], rest.drop digits.length, false)
        else (['\\', c], rest, false)
      else if digits.isEmpty then (['\\', c], rest, false)
      else ([octal digits], (c :: rest).drop digits.length, false)

/-- The characters that a text with escapes spells, and whether output ends early. -/
def unescape (zeroFirst : Bool) : Nat → Octets → Octets × Bool
  | 0, s => (s, false)
  | _ + 1, [] => ([], false)
  | fuel + 1, '\\' :: rest =>
    let (chars, rest, ends) := escape zeroFirst rest
    if ends then (chars, true)
    else
      let (more, ends) := unescape zeroFirst fuel rest
      (chars ++ more, ends)
  | fuel + 1, c :: rest =>
    let (more, ends) := unescape zeroFirst fuel rest
    (c :: more, ends)

/-- The output of `echo` with escapes. -/
def echo (arguments : List Octets) : Octets :=
  let (newline, words) :=
    match arguments with
    | ['-', 'n'] :: rest => (false, rest)
    | words => (true, words)
  let line := (words.intersperse [' ']).flatten
  let (chars, ends) := unescape true (line.length + 1) line
  if newline && !ends then chars ++ ['\n'] else chars

/-- A field with flags, a width and a precision. -/
structure Field where
  left : Bool
  zeros : Bool
  plus : Bool
  width : Nat
  precision : Option Nat
deriving DecidableEq, Repr

/-- A text in a field. -/
def pad (f : Field) (s : Octets) : Octets :=
  let gap := f.width - s.length
  if f.left then s ++ List.replicate gap ' ' else List.replicate gap ' ' ++ s

/-- A number in a field. -/
def padNumber (f : Field) (negative : Bool) (digits : Octets) : Octets :=
  let digits := List.replicate (f.precision.getD 1 - digits.length) '0' ++ digits
  let sign : Octets := if negative then ['-'] else if f.plus then ['+'] else []
  if f.zeros && !f.left && f.precision.isNone then
    sign ++ List.replicate (f.width - sign.length - digits.length) '0' ++ digits
  else pad f (sign ++ digits)

/-- The number that an argument spells; a quote in front of a character stands for its code. -/
def numberOf? (s : Octets) : Option Int :=
  match s with
  | [] => some 0
  | '\'' :: c :: _ => some c.toNat
  | '"' :: c :: _ => some c.toNat
  | '-' :: digits => (Expr.numeral? digits).map (-·)
  | '+' :: digits => Expr.numeral? digits
  | digits => Expr.numeral? digits

/-- What one directive prints for an argument, whether the argument was fit, and whether output
ends. -/
def directive (f : Field) (letter : Char) (argument : Octets) : Octets × Bool × Bool :=
  let number (base : Nat) (signed : Bool) : Octets × Bool × Bool :=
    let n := (numberOf? argument).getD 0
    let value : Nat := if signed then n.natAbs else (n % Operator.wordSize).toNat
    (padNumber f (signed && n < 0) (Nat.toDigits base value), (numberOf? argument).isSome, false)
  match letter with
  | 's' => (pad f (argument.take (f.precision.getD argument.length)), true, false)
  | 'b' =>
    let (chars, ends) := unescape true (argument.length + 1) argument
    (pad f chars, true, ends)
  | 'c' => (pad f (argument.take 1), true, false)
  | 'd' | 'i' => number 10 true
  | 'u' => number 10 false
  | 'o' => number 8 false
  | 'x' => number 16 false
  | 'X' =>
    let (chars, fit, ends) := number 16 false
    (chars.map Char.toUpper, fit, ends)
  | _ => ([], false, false)

/-- Reads a field behind a percent sign. -/
def field (s : Octets) : Field × Octets :=
  let flags := s.takeWhile ['-', '0', '+', ' ', '#'].contains
  let rest := s.drop flags.length
  let number (ds : Octets) : Nat := ds.foldl (fun n c => 10 * n + (c.toNat - '0'.toNat)) 0
  let width := rest.takeWhile Char.isDigit
  let rest := rest.drop width.length
  let (precision, rest) :=
    match rest with
    | '.' :: more =>
      let ds := more.takeWhile Char.isDigit
      (some (number ds), more.drop ds.length)
    | _ => (none, rest)
  (⟨flags.contains '-', flags.contains '0', flags.contains '+', number width, precision⟩, rest)

/-- One pass over a format: what it prints, the arguments left over, whether an argument was taken,
whether all were fit, and whether output ends. -/
def pass : Nat → Octets → List Octets → Octets × List Octets × Bool × Bool × Bool
  | 0, _, args => ([], args, false, true, false)
  | _ + 1, [], args => ([], args, false, true, false)
  | fuel + 1, '\\' :: rest, args =>
    let (chars, rest, ends) := escape false rest
    if ends then (chars, args, false, true, true)
    else
      let (more, args, took, fit, ends) := pass fuel rest args
      (chars ++ more, args, took, fit, ends)
  | fuel + 1, '%' :: '%' :: rest, args =>
    let (more, args, took, fit, ends) := pass fuel rest args
    ('%' :: more, args, took, fit, ends)
  | fuel + 1, '%' :: rest, args =>
    match field rest with
    | (f, letter :: rest) =>
      let (chars, fit, ends) := directive f letter (args.headD [])
      if ends then (chars, args.tail, true, fit, true)
      else
        let (more, left, _, allFit, ends) := pass fuel rest args.tail
        (chars ++ more, left, true, fit && allFit, ends)
    | (_, []) => (['%'], args, false, true, false)
  | fuel + 1, c :: rest, args =>
    let (more, args, took, fit, ends) := pass fuel rest args
    (c :: more, args, took, fit, ends)

/-- The output of `printf`, and whether all arguments were fit. The format is used again as long as
it takes arguments and some are left. -/
def printf (format : Octets) : Nat → List Octets → Octets × Bool
  | 0, _ => ([], true)
  | fuel + 1, args =>
    let (chars, left, took, fit, ends) := pass (format.length + 1) format args
    if ends || left.isEmpty || !took then (chars, fit)
    else
      let (more, allFit) := printf format fuel left
      (chars ++ more, fit && allFit)

end Format

end Shell

end FactoryDowngrade
