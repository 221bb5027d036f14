import FactoryDowngrade.Text.Cursor

/-!
# Matching brackets

Brackets of three kinds must nest properly. Both directions use one walk: it keeps the kinds that
are still open and stops where the first of them is closed. Read backwards, a text opens with its
closing brackets, so the search for an opening bracket is the same walk over the reversed text.
-/

namespace FactoryDowngrade

/-- The three kinds of brackets. -/
inductive BracketKind where
  | round
  | square
  | curly
deriving DecidableEq, Repr

/-- The part a character plays in a walk over brackets. -/
inductive BracketRole where
  | opens (kind : BracketKind)
  | closes (kind : BracketKind)
  | plain
deriving DecidableEq, Repr

namespace BracketRole

/-- The role of a character read forwards. -/
def ofChar : Char → BracketRole
  | '(' => .opens .round
  | '[' => .opens .square
  | '\x7b' => .opens .curly
  | ')' => .closes .round
  | ']' => .closes .square
  | '\x7d' => .closes .curly
  | _ => .plain

/-- The same bracket read from the other side. -/
def flip : BracketRole → BracketRole
  | opens kind => closes kind
  | closes kind => opens kind
  | plain => plain

/-- A bracket that is turned around twice is as it was. -/
@[simp] theorem flip_flip (r : BracketRole) : r.flip.flip = r := by
  cases r <;> rfl

/-- What turns around to a role is that role turned around. -/
theorem eq_flip_of_flip_eq {r s : BracketRole} (h : r.flip = s) : r = s.flip := by
  rw [← h, flip_flip]

end BracketRole

namespace Bracket

/-- Walks until every open bracket is closed, and gives the distance to the closing one. A closer
of another kind, or one with nothing open, ends the walk without a result. -/
def closeDistance (role : Char → BracketRole) : List BracketKind → Text → Option Nat
  | _, [] => none
  | openKinds, c :: rest =>
    match role c with
    | .opens kind => (closeDistance role (kind :: openKinds) rest).map (· + 1)
    | .plain => (closeDistance role openKinds rest).map (· + 1)
    | .closes kind =>
      match openKinds with
      | [] => none
      | [last] => if last = kind then some 0 else none
      | last :: outer =>
        if last = kind then (closeDistance role outer rest).map (· + 1) else none

/-- The offset of the bracket that closes the first one at or after an offset. -/
def closing? (text : Text) (index : Nat) : Option Nat :=
  (closeDistance BracketRole.ofChar [] (text.drop index)).map (index + ·)

/-- The distance back to the bracket that opens the first closing one, in a text that is read
backwards. -/
def openDistance (backwards : Text) : Option Nat :=
  closeDistance (fun c => (BracketRole.ofChar c).flip) [] backwards

/-- The offset of the bracket that opens the last closing one at or before an offset. -/
def opening? (text : Text) (index : Nat) : Option Nat :=
  (openDistance (text.take (index + 1)).reverse).map (index - ·)

end Bracket

end FactoryDowngrade
