import FactoryDowngrade.Data.Check
import FactoryDowngrade.Text.DecimalDigits

/-!
# Numbers as arguments

An argument may spell a number in the digits of any script, with blanks around it and with single
underscores between its digits.
-/

namespace FactoryDowngrade

namespace CommandLine

/-- Removes the underscores that stand between two digits, if there are no others. -/
def withoutSeparators? : Text → Option Text
  | [] => some []
  | '_' :: _ => none
  | c :: '_' :: d :: rest =>
    if c.isDigit && d.isDigit then (withoutSeparators? (d :: rest)).map (c :: ·) else none
  | c :: rest => (withoutSeparators? rest).map (c :: ·)

/-- The number in an argument without its blanks and separators, in ASCII digits. -/
def numeral? (argument : String) : Option Text :=
  withoutSeparators? ((Check.trimmed argument.toList).map CharClass.plainDigit)

/-- The largest number of digits of a whole number. -/
def digitLimit : Nat := 4300

/-- The number that digits spell, if there are not too many of them. -/
def natural? (digits : Text) : Option Nat :=
  if !digits.isEmpty && digits.all Char.isDigit && digits.length ≤ digitLimit then
    some (Check.digitsValue digits)
  else none

/-- The whole number that an argument spells. -/
def whole? (argument : String) : Option Int :=
  (numeral? argument).bind fun s =>
    match s with
    | '+' :: digits => (natural? digits).map Int.ofNat
    | '-' :: digits => (natural? digits).map fun n => -Int.ofNat n
    | digits => (natural? digits).map Int.ofNat

/-- The float that an argument spells. -/
def float? (argument : String) : Option Binary64 :=
  (numeral? argument).bind Check.signedFloatOf?

/-- Whether an argument is a number below zero, as far as its sign goes. A line break may follow. -/
def isNegativeNumber (argument : Text) : Bool :=
  let isDigit (c : Char) : Bool := (CharClass.digit? c).isSome
  match argument with
  | '-' :: rest =>
    let whole := rest.takeWhile isDigit
    let ended (s : Text) : Bool := s.isEmpty || s == ['\n']
    match rest.drop whole.length with
    | '.' :: places => isDigit (places.headD ' ') && ended (places.dropWhile isDigit)
    | s => !whole.isEmpty && ended s
  | _ => false

end CommandLine

end FactoryDowngrade
