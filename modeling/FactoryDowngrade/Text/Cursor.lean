import FactoryDowngrade.Text.CharClass

/-!
# Places in a text

A cursor splits a text in two: what stands before it, nearest character first, and what stands
after it. Looking at the neighbour on either side and moving on by one character take one step.
-/

namespace FactoryDowngrade

/-- A place in a text. -/
structure Cursor where
  before : Text
  after : Text
deriving DecidableEq, Repr

namespace Cursor

/-- The place in front of the whole text. -/
def start (text : Text) : Cursor :=
  ⟨[], text⟩

/-- The place at an offset; past the end it is the end. -/
def place (text : Text) (offset : Nat) : Cursor :=
  ⟨(text.take offset).reverse, text.drop offset⟩

/-- The number of characters before the cursor. -/
def offset (c : Cursor) : Nat :=
  c.before.length

/-- The text that the cursor stands in. -/
def text (c : Cursor) : Text :=
  c.before.reverse ++ c.after

/-- Whether the character just before the cursor is accepted; false at the start. -/
def follows (c : Cursor) (accepts : Char → Bool) : Bool :=
  c.before.head?.any accepts

/-- Whether the character just after the cursor is accepted; false at the end. -/
def precedes (c : Cursor) (accepts : Char → Bool) : Bool :=
  c.after.head?.any accepts

/-- Moves past `count` characters, or to the end if there are fewer. -/
def skip : Nat → Cursor → Cursor
  | 0, c => c
  | count + 1, ⟨before, x :: after⟩ => skip count ⟨x :: before, after⟩
  | _ + 1, ⟨before, []⟩ => ⟨before, []⟩

/-- The characters from one cursor to a later one of the same text. -/
def upTo (first last : Cursor) : Text :=
  (last.before.take (last.offset - first.offset)).reverse

/-- The text between the last line break before the cursor and the cursor. -/
def lineHead (c : Cursor) : Text :=
  (c.before.takeWhile (· ≠ '\n')).reverse

/-- The cursor at the start of a text is on that text. -/
theorem text_start (t : Text) : (start t).text = t := rfl

/-- Tries a test at every place from the cursor to the end and gives the first result. -/
def findSome? {α : Type} (test : Cursor → Option α) : Text → Text → Option α
  | before, [] => test ⟨before, []⟩
  | before, x :: after =>
    match test ⟨before, x :: after⟩ with
    | some found => some found
    | none => findSome? test (x :: before) after

/-- The first result of a test at or after the cursor. -/
def first? {α : Type} (test : Cursor → Option α) (c : Cursor) : Option α :=
  findSome? test c.before c.after

/-- Results of a reader at successive places: after a result the search goes on where that result
ends, or one character later if it ends where it began. -/
def readAll {α : Type} (read : Cursor → Option (α × Cursor)) (c : Cursor) : List α :=
  match read c with
  | some (value, stop) =>
    if _ : stop.after.length < c.after.length then value :: readAll read stop
    else match c with
      | ⟨_, []⟩ => [value]
      | ⟨before, x :: after⟩ => value :: readAll read ⟨x :: before, after⟩
  | none =>
    match c with
    | ⟨_, []⟩ => []
    | ⟨before, x :: after⟩ => readAll read ⟨x :: before, after⟩
termination_by c.after.length
decreasing_by all_goals simp_all

end Cursor

end FactoryDowngrade
