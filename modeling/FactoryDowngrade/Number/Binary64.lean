/-!
# Binary floating-point numbers of 64 bits

A finite number is a mantissa of at most 53 bits times a power of two, so every operation here is
exact arithmetic on naturals followed by one rounding to nearest, ties to even. A number prints as
the fewest decimal digits that read back as itself.
-/

namespace FactoryDowngrade

/-- A number of the 64-bit binary format. A finite one is its mantissa times two to its exponent;
`ofRatio` makes the mantissa at least `2 ^ 52` unless the exponent is least. -/
inductive Binary64 where
  | nan
  | infinity (negative : Bool)
  | finite (negative : Bool) (mantissa : Nat) (exponent : Int)
deriving DecidableEq, Repr

namespace Binary64

/-- The quotient rounded to the nearest natural number, a tie to the even one. -/
def roundQuotient (num den : Nat) : Nat :=
  let q := num / den
  let twice := 2 * (num % den)
  if twice < den then q
  else if den < twice then q + 1
  else q + q % 2

/-- A ratio times two to the given exponent, again as a ratio. -/
def scale (num den : Nat) (exponent : Int) : Nat × Nat :=
  if 0 ≤ exponent then (num * Nat.pow 2 exponent.toNat, den)
  else (num, den * Nat.pow 2 (-exponent).toNat)

/-- The least exponent of a finite number. -/
def leastExponent : Int := -1074

/-- The exponent that gives a positive ratio a mantissa of 53 bits, if it is not below the least
one. -/
def exponentOf (num den : Nat) : Int :=
  let guess : Int := num.log2 - den.log2 - 53
  let (n, d) := scale num den (-guess)
  max (if n / d < Nat.pow 2 53 then guess else guess + 1) leastExponent

/-- The number nearest to a ratio. -/
def ofRatio (negative : Bool) (num den : Nat) : Binary64 :=
  if num = 0 then .finite negative 0 leastExponent
  else
    let exponent := exponentOf num den
    let (n, d) := scale num den (-exponent)
    let mantissa := roundQuotient n d
    let (mantissa, exponent) :=
      if mantissa = Nat.pow 2 53 then (Nat.pow 2 52, exponent + 1) else (mantissa, exponent)
    if 971 < exponent then .infinity negative else .finite negative mantissa exponent

/-- The number nearest to an integer. -/
def ofInt (n : Int) : Binary64 :=
  ofRatio (n < 0) n.natAbs 1

/-- The number nearest to a decimal with the given digits and power of ten. Exponents far outside
the format are settled without forming the power. -/
def ofDecimal (negative : Bool) (digits : Nat) (exponent : Int) : Binary64 :=
  let size : Int := exponent + (Nat.toDigits 10 digits).length
  if digits = 0 || size < -400 then .finite negative 0 leastExponent
  else if 400 < size then .infinity negative
  else if 0 ≤ exponent then ofRatio negative (digits * Nat.pow 10 exponent.toNat) 1
  else ofRatio negative digits (Nat.pow 10 (-exponent).toNat)

/-- Whether a number is above zero. -/
def isPositive : Binary64 → Bool
  | nan => false
  | infinity negative => !negative
  | finite negative mantissa _ => !negative && mantissa != 0

/-- Whether a number is infinite. -/
def isInfinite : Binary64 → Bool
  | infinity _ => true
  | _ => false

/-- Whether a number is zero. -/
def isZero : Binary64 → Bool
  | finite _ mantissa _ => mantissa == 0
  | _ => false

/-- A finite magnitude as a ratio. -/
def magnitude (mantissa : Nat) (exponent : Int) : Nat × Nat :=
  scale mantissa 1 exponent

/-- The integer that a finite number is, if it is one. -/
def toInt? : Binary64 → Option Int
  | finite negative mantissa exponent =>
    let (num, den) := magnitude mantissa exponent
    if num % den = 0 then
      let n : Int := (num / den : Nat)
      some (if negative then -n else n)
    else none
  | _ => none

/-- The number divided by a positive natural number. -/
def divNat (x : Binary64) (divisor : Nat) : Binary64 :=
  match x with
  | finite negative mantissa exponent =>
    let (num, den) := magnitude mantissa exponent
    ofRatio negative num (den * divisor)
  | other => other

/-- The number nearest to the rounding of `x` to some decimal places, a tie to the even digit. -/
def roundTo (places : Nat) (x : Binary64) : Binary64 :=
  match x with
  | finite negative mantissa exponent =>
    let (num, den) := magnitude mantissa exponent
    ofRatio negative (roundQuotient (num * Nat.pow 10 places) den) (Nat.pow 10 places)
  | other => other

/-! ### Shortest decimals -/

/-- Whether a ratio is at least a power of ten. -/
def reaches (num den : Nat) (power : Int) : Bool :=
  if 0 ≤ power then den * Nat.pow 10 power.toNat ≤ num
  else den ≤ num * Nat.pow 10 (-power).toNat

/-- The power of ten of the first digit of a positive ratio: the largest that it reaches, found
from a guess that is at most a few too high. -/
def leadingPower (num den : Nat) : Int :=
  let guess := ((num.log2 : Int) - den.log2) * 30103 / 100000 + 2
  ([0, 1, 2, 3, 4].find? fun k => reaches num den (guess - k)).map (guess - ·) |>.getD (guess - 4)

/-- The decimals of `count` digits next to a positive ratio, below and above, the nearer one first,
with the power of ten of their last digit. -/
def neighbours (num den count : Nat) (leading : Int) : List Nat × Int :=
  let power := leading - (count - 1 : Nat)
  let (n, d) :=
    if 0 ≤ power then (num, den * Nat.pow 10 power.toNat)
    else (num * Nat.pow 10 (-power).toNat, den)
  let low := n / d
  let near := roundQuotient n d
  (if near = low then [low, low + 1] else [low + 1, low], power)

/-- The fewest digits that read back as the number, and the power of ten of the last one. Seventeen
digits always suffice. -/
def shortest (mantissa : Nat) (exponent : Int) : Nat × Int :=
  let (num, den) := magnitude mantissa exponent
  let leading := leadingPower num den
  let readsBack (digits : Nat) (power : Int) : Bool :=
    ofDecimal false digits power = .finite false mantissa exponent
  let fitting (count : Nat) : Option (Nat × Int) :=
    let (candidates, power) := neighbours num den count leading
    (candidates.find? (readsBack · power)).map (·, power)
  ((List.range 17).findSome? fun k => fitting (k + 1)).getD (0, 0)

/-- Removes the zeros at the end of a digit list. -/
def dropZeros (digits : List Char) : List Char :=
  (digits.reverse.dropWhile (· == '0')).reverse

/-- How decimals are written: the least power of ten of a first digit that needs no exponent, and
the text of an exponent. -/
structure DecimalStyle where
  leastPower : Int
  exponentText : Int → List Char

/-- Exponents have a sign and at least two digits, and are written from the fifth zero on. -/
def padded : DecimalStyle where
  leastPower := -4
  exponentText power :=
    let digits := Nat.toDigits 10 power.natAbs
    (if power < 0 then '-' else '+') :: (if digits.length < 2 then '0' :: digits else digits)

/-- Exponents have only the sign and the digits they need, and are written from the sixth zero
on. -/
def compact : DecimalStyle where
  leastPower := -5
  exponentText power := (toString power).toList

/-- The decimal notation of some digits whose first one stands at a power of ten. Powers from the
least one to `15` are written positionally, with at least one place after the point. -/
def positional (style : DecimalStyle) (digits : List Char) (leading : Int) : List Char :=
  if style.leastPower ≤ leading ∧ leading < 16 then
    if leading < 0 then
      "0.".toList ++ List.replicate (-leading - 1).toNat '0' ++ digits
    else
      let whole := leading.toNat + 1
      let front := digits.take whole
      let back := digits.drop whole
      front ++ List.replicate (whole - front.length) '0' ++ '.' ::
        (if back.isEmpty then ['0'] else back)
  else
    match digits with
    | [] => []
    | first :: more =>
      first :: (if more.isEmpty then [] else '.' :: more) ++ 'e' :: style.exponentText leading

/-- The text of a number in a style. -/
def toTextIn (style : DecimalStyle) : Binary64 → List Char
  | nan => "nan".toList
  | infinity negative => (if negative then "-inf" else "inf").toList
  | finite negative mantissa exponent =>
    let sign := if negative then ['-'] else []
    if mantissa = 0 then sign ++ "0.0".toList
    else
      let (digits, power) := shortest mantissa exponent
      let written := Nat.toDigits 10 digits
      sign ++ positional style (dropZeros written) (power + (written.length - 1 : Nat))

/-- The text of a number. -/
def toText (x : Binary64) : List Char :=
  x.toTextIn padded

end Binary64

end FactoryDowngrade
