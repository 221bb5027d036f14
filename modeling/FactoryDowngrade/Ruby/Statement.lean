import FactoryDowngrade.Ruby.Bracket
import FactoryDowngrade.Text.Pattern

/-!
# Extents of statements and receivers

An argument list without parentheses ends with its statement: at a line break that nothing
continues, a semicolon, a bracket it did not open, a trailing block or a modifier such as `if`.

A receiver chain is read backwards from its end: name characters belong to it, and so does a
bracketed group that follows a name.
-/

namespace FactoryDowngrade

namespace Statement

/-- Words that end an argument list when blanks stand before them. -/
def modifiers : List Text :=
  ["if", "unless", "while", "until", "rescue", "do"].map String.toList

/-- Whether spaces or tabs and then one of the modifier words come next. -/
def modifierAhead (text : Text) : Bool :=
  let rest := text.dropWhile CharClass.isSpaceOrTab
  modifiers.contains (rest.takeWhile CharClass.isWord)

/-- Whether the text passed, nearest character first, continues on the next line. -/
def continues (passed : Text) : Bool :=
  (passed.dropWhile CharClass.isBlank).head?.any fun c => c == ',' || c == '\\'

/-- Whether the argument list ends in front of `c`, outside every bracket. -/
def endsBefore (passed : Text) (c : Char) (rest : Text) : Bool :=
  c == ';' || (c == '\n' && !continues passed) ||
    (CharClass.isSpaceOrTab c && modifierAhead (c :: rest))

/-- The characters of the list that begins here, nearest first, blanks at its end included. The
depth counts open brackets of every kind together. -/
def gather (passed : Text) (depth : Nat) : Text → Text
  | [] => passed
  | c :: rest =>
    match BracketRole.ofChar c with
    | .opens _ => gather (c :: passed) (depth + 1) rest
    | .closes _ =>
      match depth with
      | 0 => passed
      | depth + 1 => gather (c :: passed) depth rest
    | .plain =>
      if depth = 0 && endsBefore passed c rest then passed else gather (c :: passed) depth rest

/-- A space, a tab or a character of a line end. -/
def isTrailing (c : Char) : Bool :=
  c == ' ' || c == '\t' || c == '\r' || c == '\n'

/-- The length of the argument list at the front of a text. -/
def argumentLength (text : Text) : Nat :=
  ((gather [] 0 text).dropWhile isTrailing).length

/-- The offset where the argument list that starts at `start` ends. -/
def stop (text : Text) (start : Nat) : Nat :=
  start + argumentLength (text.drop start)

end Statement

namespace Receiver

/-- Characters of a receiver chain outside its groups. -/
def isChainChar (c : Char) : Bool :=
  CharClass.isWord c || [':', '.', '!', '?', '@', '&'].contains c

/-- The number of characters that a group ending here takes, if it follows a name. -/
def groupLength? (backwards : Text) : Option Nat :=
  match Bracket.openDistance backwards with
  | none => none
  | some back => if (backwards.drop (back + 1)).head?.any isChainChar then some (back + 1) else none

/-- The length of the chain that ends here, in a text read backwards; at most `limit` steps. -/
def chainLength : Nat → Text → Nat
  | 0, _ => 0
  | _ + 1, [] => 0
  | limit + 1, c :: rest =>
    if isChainChar c then chainLength limit rest + 1
    else if c = ')' then
      match groupLength? (c :: rest) with
      | some taken => taken + chainLength limit ((c :: rest).drop taken)
      | none => 0
    else 0

/-- Characters that join a chain to something before it and do not belong to it. -/
def isJoint (c : Char) : Bool :=
  c == '.' || c == '&' || c == ':'

/-- The receiver chain that ends where `backwards` begins. -/
def chainEnding (backwards : Text) : Text :=
  ((backwards.take (chainLength backwards.length backwards)).reverse).dropWhile isJoint

/-- The receiver chain that ends at an offset. -/
def chainAt (text : Text) (stop : Nat) : Text :=
  chainEnding (text.take stop).reverse

/-- Removes the parenthesised groups of a chain, and its blanks. The depth counts open groups. -/
def dropGroups : Nat → Text → Text
  | _, [] => []
  | depth, c :: rest =>
    if c = '(' then dropGroups (depth + 1) rest
    else if c = ')' then dropGroups (depth - 1) rest
    else if depth = 0 && !CharClass.isBlank c then c :: dropGroups 0 rest
    else dropGroups depth rest

/-- A chain without its argument groups. -/
def outline (chain : Text) : Text :=
  dropGroups 0 chain

end Receiver

end FactoryDowngrade
