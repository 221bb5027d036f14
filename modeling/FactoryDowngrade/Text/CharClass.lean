import FactoryDowngrade.Text.LetterRanges
import FactoryDowngrade.Text.HiddenRanges

/-!
# Classes of characters

A text is its list of code points, so an offset counts code points and a slice is `take` after
`drop`. Word characters are the letters and digits of every script and the underscore; blanks are
the white space of every script, line breaks included, together with the four ASCII separators.
-/

namespace FactoryDowngrade

/-- A text as the list of its code points. -/
abbrev Text := List Char

namespace Text

/-- The half-open slice from `start` to `stop`; empty when `stop ≤ start`. -/
def slice (text : Text) (start stop : Nat) : Text :=
  (text.take stop).drop start

/-- Whether `text` begins with `head`. -/
def startsWith (text head : Text) : Bool :=
  head.isPrefixOf text

/-- The order of code points, of which a shorter text precedes its extensions. -/
def le : Text → Text → Bool
  | [], _ => true
  | _ :: _, [] => false
  | a :: s, b :: t => a.toNat < b.toNat || (a == b && le s t)

/-- The line break is a character like any other, so the first line excludes it. -/
def firstLine (text : Text) : Text :=
  text.takeWhile (· ≠ '\n')

end Text

namespace CharClass

/-- Whether one of the inclusive ranges holds the code point of `c`. -/
def within (ranges : List (Nat × Nat)) (c : Char) : Bool :=
  ranges.any fun range => decide (range.1 ≤ c.toNat) && decide (c.toNat ≤ range.2)

/-- Letters, digits and numeric signs of every script. -/
def isAlnum (c : Char) : Bool :=
  if c.toNat < 128 then c.isAlphanum else within letterRanges c

/-- Alphanumeric characters and the underscore. -/
def isWord (c : Char) : Bool :=
  c == '_' || isAlnum c

/-- ASCII small letters and the underscore, which open a local name. -/
def isLowerStart (c : Char) : Bool :=
  c == '_' || c.isLower

/-- ASCII letters and the underscore, which open any name. -/
def isNameStart (c : Char) : Bool :=
  c == '_' || c.isAlpha

/-- White space of every script, line breaks and the four ASCII separators included. -/
def isBlank (c : Char) : Bool :=
  let n := c.toNat
  n == 32 || (9 ≤ n && n ≤ 13) || (28 ≤ n && n ≤ 31) ||
    n == 0x85 || n == 0xA0 || n == 0x1680 || (0x2000 ≤ n && n ≤ 0x200A) ||
    n == 0x2028 || n == 0x2029 || n == 0x202F || n == 0x205F || n == 0x3000

/-- A space or a tab. -/
def isSpaceOrTab (c : Char) : Bool :=
  c == ' ' || c == '\t'

/-- Characters that a quoted text may hold as they are. -/
def isVisible (c : Char) : Bool :=
  let n := c.toNat
  if n < 128 then decide (32 ≤ n) && n != 127 else !within hiddenRanges c

end CharClass

namespace Text

/-- Removes the blanks at the front. -/
def trimLeft (text : Text) : Text :=
  text.dropWhile CharClass.isBlank

/-- Removes the blanks at the back. -/
def trimRight (text : Text) : Text :=
  (text.reverse.dropWhile CharClass.isBlank).reverse

/-- Removes the blanks at both ends. -/
def trim (text : Text) : Text :=
  text.trimLeft.trimRight

/-- The maximal runs of characters that are not blank, in order. -/
def words (text : Text) : List Text :=
  (text.splitBy fun a b => CharClass.isBlank a == CharClass.isBlank b).filter
    fun run => run.any fun c => !CharClass.isBlank c

end Text

end FactoryDowngrade
