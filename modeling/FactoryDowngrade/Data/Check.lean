import FactoryDowngrade.Data.Value
import FactoryDowngrade.Text.CharClass

/-!
# Checking data

A check turns data into a typed value or lists everything that is wrong with it, each fault with
the path to where it lies. Checks of separate parts are combined so that no fault hides another.

Scalars are read generously: truth values also from the numbers and words that stand for them,
whole numbers from texts and from floats without a fraction, floats from whole numbers and texts.
-/

namespace FactoryDowngrade

/-- What is wrong with a piece of data. -/
inductive FaultKind where
  | extraForbidden
  | missing
  | enumeration
  | literal
  | modelType
  | listType
  | tupleType
  | stringType
  | boolType
  | boolParsing
  | intType
  | intParsing
  | intFromFloat
  | intTooLarge
  | notFinite
  | floatType
  | floatParsing
  | greaterThan
  | greaterThanEqual
  | custom (message : String)
deriving DecidableEq, Repr

/-- A fault and the path to it, outermost step first. -/
structure Fault where
  path : List String
  kind : FaultKind
deriving DecidableEq, Repr

/-- A value, or the faults that stand in its way. -/
inductive Checked (α : Type) where
  | accepted (value : α)
  | refused (faults : List Fault)

namespace Checked

/-- Applies a function to an accepted value. -/
def map {α β : Type} (f : α → β) : Checked α → Checked β
  | accepted value => accepted (f value)
  | refused faults => refused faults

/-- Accepts when both parts do, and otherwise gathers the faults of both. -/
def zip {α β : Type} : Checked α → Checked β → Checked (α × β)
  | accepted a, accepted b => accepted (a, b)
  | accepted _, refused faults => refused faults
  | refused faults, accepted _ => refused faults
  | refused first, refused second => refused (first ++ second)

instance : Applicative Checked where
  pure := accepted
  seq f x := (f.zip (x ())).map fun (f, x) => f x

/-- Goes on with an accepted value. -/
def andThen {α β : Type} (x : Checked α) (next : α → Checked β) : Checked β :=
  match x with
  | accepted value => next value
  | refused faults => refused faults

/-- A single fault at the place being checked. -/
def fault {α : Type} (kind : FaultKind) : Checked α :=
  refused [⟨[], kind⟩]

/-- Places the faults of a part under a step of the path. -/
def under {α : Type} (step : String) : Checked α → Checked α
  | accepted value => accepted value
  | refused faults => refused (faults.map fun f => { f with path := step :: f.path })

/-- The checks of several parts together, in order. -/
def all {α : Type} : List (Checked α) → Checked (List α)
  | [] => accepted []
  | x :: rest => (x.zip (all rest)).map fun (x, rest) => x :: rest

end Checked

namespace Check

/-- A check of a piece of data. -/
abbrev Of (α : Type) := Data → Checked α

/-- A text. -/
def text : Of String
  | .text value => .accepted value
  | _ => .fault .stringType

/-- The items of a list, each under its index. -/
def items {α : Type} (item : Of α) (values : List Data) : Checked (List α) :=
  .all (values.zipIdx.map fun (value, i) => (item value).under (toString i))

/-- A list of checked items. -/
def listOf {α : Type} (item : Of α) : Of (List α)
  | .list values => items item values
  | _ => .fault .listType

/-- A fixed sequence of checked items. -/
def tupleOf {α : Type} (item : Of α) : Of (List α)
  | .list values => items item values
  | _ => .fault .tupleType

/-- A value or nothing. -/
def optional {α : Type} (check : Of α) : Of (Option α)
  | .null => .accepted none
  | value => (check value).map some

/-- One of some named values; anything else has the given fault. -/
def named {α : Type} (kind : FaultKind) (find : String → Option α) : Of α
  | .text name =>
    match find name with
    | some value => .accepted value
    | none => .fault kind
  | _ => .fault kind

/-! ### Truth values -/

/-- The words for a truth value, in any case. -/
def truthOf? (word : String) : Option Bool :=
  let word := word.toLower
  if ["1", "on", "t", "true", "y", "yes"].contains word then some true
  else if ["0", "off", "f", "false", "n", "no"].contains word then some false
  else none

/-- The bound of whole numbers of 64 bits with a sign. -/
def wordBound : Int := Nat.pow 2 63

/-- The truth value that zero or one stands for. -/
def bit (value : Int) : Checked Bool :=
  if value = 0 then .accepted false else if value = 1 then .accepted true
  else .fault .boolParsing

/-- A truth value. A number with a fraction or of more than 64 bits is of no use here, and any
other number but zero and one is a word for none. -/
def bool : Of Bool
  | .bool value => .accepted value
  | .int value =>
    if -wordBound ≤ value ∧ value < wordBound then bit value else .fault .boolType
  | .float value =>
    match value.toInt? with
    | some n => if -wordBound < n ∧ n < wordBound then bit n else .fault .boolType
    | none => .fault .boolType
  | .text word =>
    match truthOf? word with
    | some value => .accepted value
    | none => .fault .boolParsing
  | _ => .fault .boolType

/-! ### Numbers in texts -/

/-- The blanks that may surround a number: white space without the four ASCII separators. -/
def isOuterBlank (c : Char) : Bool :=
  CharClass.isBlank c && !(28 ≤ c.toNat && c.toNat ≤ 31)

/-- A text without the blanks around it. -/
def trimmed (s : Text) : Text :=
  ((s.dropWhile isOuterBlank).reverse.dropWhile isOuterBlank).reverse

/-- The number that a list of digits spells. -/
def digitsValue (digits : Text) : Nat :=
  digits.foldl (fun n c => 10 * n + (c.toNat - '0'.toNat)) 0

/-- Removes single underscores between other characters, if there are no others. -/
def withoutUnderscores? (s : Text) : Option Text :=
  let doubled := (s.zip s.tail).any fun (a, b) => a == '_' && b == '_'
  if s.head? = some '_' || s.getLast? = some '_' || doubled then none
  else some (s.filter (· ≠ '_'))

/-- Removes a point with zeros behind it, at least one, that end the text. -/
def withoutPoint (s : Text) : Text :=
  let whole := s.takeWhile (· ≠ '.')
  let places := (s.drop whole.length).tail
  if !places.isEmpty && places.all (· == '0') then whole else s

/-- Removes zeros at the front, and underscores among them, from a text that begins with a zero, but
keeps one digit. What follows begins with a digit, a point or a minus. -/
def behindZeros? (s : Text) : Option Text :=
  let more := s.dropWhile fun c => c == '0' || c == '_'
  match more with
  | [] => some (s.drop (s.length - 1))
  | c :: _ =>
    if c == '.' then some (s.drop (s.length - more.length - 1))
    else if c.isDigit || c == '-' then some more
    else none

/-- Removes the zeros at the front, also behind a minus, if anything of a number stands there. -/
def withoutLeadingZeros? (s : Text) : Option Text :=
  match s with
  | '0' :: _ => behindZeros? s
  | '-' :: '0' :: rest => (behindZeros? ('0' :: rest)).map ('-' :: ·)
  | c :: _ => if c.isDigit || c == '-' then some s else none
  | [] => none

/-- Removes a plus, unless a minus follows. -/
def withoutPlus? : Text → Option Text
  | '+' :: '-' :: _ => none
  | '+' :: rest => some rest
  | s => some s

/-- What a text says as a whole number: a number, one that is too long to be taken, or none. -/
inductive Numeral where
  | value (n : Int)
  | tooLong
  | malformed
deriving DecidableEq, Repr

namespace Numeral

/-- The largest number of characters in a number. -/
def lengthLimit : Nat := 4300

/-- What a text says in plain notation: a minus if need be, and digits that begin with a zero only
if they are that zero. -/
def plain (s : Text) : Numeral :=
  let (negative, body) :=
    match s with
    | '-' :: rest => (true, rest)
    | _ => (false, s)
  let digits := body.takeWhile Char.isDigit
  if digits.head? = some '0' then if body.length = 1 then .value 0 else .malformed
  else if lengthLimit < (s.length - body.length) + digits.length then .tooLong
  else if digits.isEmpty || digits.length < body.length then .malformed
  else
    let n : Int := digitsValue digits
    .value (if negative then -n else n)

/-- The plain notation of a number that is written with a plus, zeros at the front, zeros behind a
point or underscores. -/
def plainForm? (s : Text) : Option Text := do
  let s ← withoutPlus? s
  let s ← withoutLeadingZeros? s
  let s := withoutPoint s
  some ((withoutUnderscores? s).getD s)

/-- What a text says, with blanks around it. -/
def read (s : Text) : Numeral :=
  let s := trimmed s
  match plain s with
  | .malformed => ((plainForm? s).map plain).getD .malformed
  | numeral => numeral

end Numeral

/-- The number that digits with a point and an exponent spell. -/
def decimalOf? (negative : Bool) (s : Text) : Option Binary64 :=
  let whole := s.takeWhile Char.isDigit
  let rest := s.drop whole.length
  let (places, rest) :=
    match rest with
    | '.' :: more => (more.takeWhile Char.isDigit, more.dropWhile Char.isDigit)
    | _ => ([], rest)
  if whole.isEmpty && places.isEmpty then none
  else
    let value (power : Int) : Option Binary64 :=
      some (.ofDecimal negative (digitsValue (whole ++ places)) (power - places.length))
    match rest with
    | [] => value 0
    | mark :: rest =>
      let (down, digits) :=
        match rest with
        | '-' :: more => (true, more)
        | '+' :: more => (false, more)
        | more => (false, more)
      if (mark == 'e' || mark == 'E') && !digits.isEmpty && digits.all Char.isDigit then
        let power : Int := digitsValue digits
        value (if down then -power else power)
      else none

/-- The float that an unsigned text spells, in digits or as a word. -/
def magnitudeOf? (negative : Bool) (s : Text) : Option Binary64 :=
  let word := s.map Char.toLower
  if word = "inf".toList || word = "infinity".toList then some (.infinity negative)
  else if word = "nan".toList then some .nan
  else decimalOf? negative s

/-- The float that a text without blanks spells. -/
def signedFloatOf? : Text → Option Binary64
  | '+' :: rest => magnitudeOf? false rest
  | '-' :: rest => magnitudeOf? true rest
  | rest => magnitudeOf? false rest

/-- The float that a text spells, either with blanks around it or with underscores between its
characters. -/
def floatOf? (s : String) : Option Binary64 :=
  (signedFloatOf? (trimmed s.toList)).or ((withoutUnderscores? s.toList).bind signedFloatOf?)

/-- A whole number. -/
def int : Of Int
  | .bool value => .accepted (if value then 1 else 0)
  | .int value => .accepted value
  | .float value =>
    match value.toInt? with
    | some n => if -wordBound < n ∧ n < wordBound then .accepted n else .fault .intTooLarge
    | none =>
      match value with
      | .finite .. => .fault .intFromFloat
      | _ => .fault .notFinite
  | .text s =>
    match Numeral.read s.toList with
    | .value n => .accepted n
    | .tooLong => .fault .intTooLarge
    | .malformed => .fault .intParsing
  | _ => .fault .intType

/-- A float. A whole number too large for the format is none. -/
def float : Of Binary64
  | .bool value => .accepted (.ofInt (if value then 1 else 0))
  | .int value =>
    match Binary64.ofInt value with
    | .infinity _ => .fault .floatType
    | x => .accepted x
  | .float value => .accepted value
  | .text s =>
    match floatOf? s with
    | some x => .accepted x
    | none => .fault .floatParsing
  | _ => .fault .floatType

/-! ### Tables -/

/-- A field that must be there. -/
def required {α : Type} (fields : List (String × Data)) (name : String) (check : Of α) :
    Checked α :=
  match Data.field? fields name with
  | some value => (check value).under name
  | none => (Checked.fault .missing).under name

/-- A field that has a default. -/
def defaulting {α : Type} (fields : List (String × Data)) (name : String) (default : α)
    (check : Of α) : Checked α :=
  match Data.field? fields name with
  | some value => (check value).under name
  | none => .accepted default

/-- Refuses every field whose name is not known. -/
def onlyKnown (fields : List (String × Data)) (known : List String) : Checked Unit :=
  match fields.filter fun f => !known.contains f.1 with
  | [] => .accepted ()
  | extra => .refused (extra.map fun f => ⟨[f.1], .extraForbidden⟩)

/-- The fields of a table. -/
def record {α : Type} (check : List (String × Data) → Checked α) : Of α
  | .table fields => check fields
  | _ => .fault .modelType

end Check

end FactoryDowngrade
