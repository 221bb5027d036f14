import FactoryDowngrade.Ruby.Statement

/-!
# Method invocations

Every method name in a masked text starts an invocation. Its arguments are the parenthesised list
right behind the name, or what follows on the statement if that can begin an argument, or nothing.
-/

namespace FactoryDowngrade

/-- A method invocation: its receiver chain with the name, and the ranges of name and arguments. -/
structure Invocation where
  callee : Text
  nameStart : Nat
  nameStop : Nat
  argsStart : Nat
  argsStop : Nat
  parenthesized : Bool
deriving DecidableEq, Repr

namespace Invocation

/-- Characters that cannot begin an argument after blanks. -/
def isNoArgument (c : Char) : Bool :=
  "=.)]\x7d|&+-*/<>;\n#?:".toList.contains c

/-- Whether an argument begins here: a symbol, or a character that is no operator. -/
def beginsArgument : Text → Bool
  | [] => false
  | ':' :: rest => rest.head? != some ':'
  | c :: _ => !isNoArgument c

/-- The end of the argument list behind an opening parenthesis at `index`; if the parenthesis is
never closed, the list ends like one without parentheses. -/
def parenthesizedStop (after : Text) (index : Nat) : Nat :=
  match Bracket.closeDistance BracketRole.ofChar [] after with
  | some distance => index + distance
  | none => index + 1 + Statement.argumentLength after.tail

/-- The invocation of a name between two places of a text. -/
def ofName (first last : Cursor) : Invocation :=
  let nameStop := last.offset
  let callee := Receiver.chainEnding last.before
  let bare : Invocation := ⟨callee, first.offset, nameStop, nameStop, nameStop, false⟩
  if last.after.head? = some '(' then
    { bare with
      argsStart := nameStop + 1
      argsStop := parenthesizedStop last.after nameStop
      parenthesized := true }
  else
    let gap := last.after.takeWhile CharClass.isSpaceOrTab
    let rest := last.after.drop gap.length
    if !gap.isEmpty && beginsArgument rest then
      let argsStart := nameStop + gap.length
      { bare with argsStart, argsStop := argsStart + Statement.argumentLength rest }
    else bare

/-- The invocations of the names that a pattern matches, in order. -/
def ofPattern (names : Pattern) (masked : Text) : List Invocation :=
  (names.allMatches masked).map fun (first, last) => ofName first last

/-- Any method name that is not a constant path, a symbol or a variable with a sigil. -/
def anyName : Pattern :=
  .chain [
    .notAfter fun c => CharClass.isWord c || c == '@' || c == '$' || c == ':',
    .one CharClass.isNameStart, .wordRun, .maybe (.anyOf "?!")]

/-- Every invocation in a masked text, in order. -/
def all (masked : Text) : List Invocation :=
  ofPattern anyName masked

/-- Whether the argument range holds a range of the text. -/
def holds (i : Invocation) (start stop : Nat) : Bool :=
  i.argsStart ≤ start && stop ≤ i.argsStop

/-- The names in order as one pattern; no name at all matches the empty stretch. -/
def namesPattern : List Text → Pattern
  | [] => .empty
  | first :: rest => .choice (.literal first) (rest.map .literal)

end Invocation

end FactoryDowngrade
