import FactoryDowngrade.Text.Cursor

/-!
# Heredocs

An opener names the tag that ends a heredoc. Its body starts on the next line and runs through
the line that holds the tag alone; bodies of several openers on one line follow in order. With a
`-` or `~` flag the closing line may be indented.

After a name, a number or a closing bracket the two angle signs append to a collection and open
nothing.
-/

namespace FactoryDowngrade

/-- A pending heredoc: its tag, and whether its closing line is compared without its blanks. -/
structure Heredoc where
  tag : Text
  indented : Bool
deriving DecidableEq, Repr

namespace Heredoc

/-- Whether a character before the angle signs makes them the append operator. -/
def isOperand (c : Char) : Bool :=
  CharClass.isAlnum c || c == '_' || c == ')' || c == ']' || c == '}'

/-- Capital letters, digits and the underscore, of which a bare tag is made. -/
def isTagChar (c : Char) : Bool :=
  c == '_' || c.isUpper || c.isDigit

/-- A tag between two equal quotes, and the length of both together. -/
def quotedTag? : Text → Option (Text × Nat)
  | quote :: first :: rest =>
    let more := rest.takeWhile CharClass.isWord
    if (quote == '\'' || quote == '"' || quote == '\x60') && CharClass.isNameStart first
        && (rest.drop more.length).head? == some quote then
      some (first :: more, more.length + 3)
    else none
  | _ => none

/-- A tag of capitals that no further word character follows, and its length. -/
def bareTag? : Text → Option (Text × Nat)
  | first :: rest =>
    let more := rest.takeWhile isTagChar
    if (first == '_' || first.isUpper) && !(rest.drop more.length).head?.any CharClass.isWord then
      some (first :: more, more.length + 1)
    else none
  | [] => none

/-- A tag that begins with a small letter, and its length. -/
def smallTag? : Text → Option (Text × Nat)
  | first :: rest =>
    let more := rest.takeWhile CharClass.isWord
    if CharClass.isLowerStart first then some (first :: more, more.length + 1) else none
  | [] => none

/-- The opener that the text after both angle signs and the flag spells. -/
def tag? (flagged : Bool) (rest : Text) : Option (Text × Nat) :=
  (quotedTag? rest).or ((bareTag? rest).or (if flagged then smallTag? rest else none))

/-- The heredoc opened at the front of a text, and the length of its opener. `previous` is the
nearest character before it that is neither a space nor a tab. -/
def opener? (previous : Option Char) : Text → Option (Heredoc × Nat)
  | '<' :: '<' :: rest =>
    if previous.any isOperand then none
    else match rest with
      | '-' :: more => (tag? true more).map fun (tag, n) => (⟨tag, true⟩, n + 3)
      | '~' :: more => (tag? true more).map fun (tag, n) => (⟨tag, true⟩, n + 3)
      | more => (tag? false more).map fun (tag, n) => (⟨tag, false⟩, n + 2)
  | _ => none

/-- Whether a line closes the heredoc. -/
def closes (h : Heredoc) (line : Text) : Bool :=
  if h.indented then line.trim == h.tag
  else (line.reverse.dropWhile (· == '\r')).reverse == h.tag

/-- What stands behind a character that ends a run is shorter than the text. -/
theorem length_lt_of_dropWhile_eq {p : Char → Bool} {text rest : Text} {c : Char}
    (h : text.dropWhile p = c :: rest) : rest.length < text.length := by
  have hle := (List.dropWhile_suffix p (l := text)).length_le
  rw [h, List.length_cons] at hle
  omega

/-- The number of characters from the start of a body through its closing line and line break. -/
def bodyLength (h : Heredoc) (text : Text) : Nat :=
  let line := text.firstLine
  match _ : text.dropWhile (· ≠ '\n') with
  | [] => line.length
  | _ :: rest =>
    if h.closes line then line.length + 1 else line.length + 1 + h.bodyLength rest
termination_by text.length
decreasing_by exact length_lt_of_dropWhile_eq (by assumption)

/-- The number of characters that the bodies of successive heredocs take together. -/
def bodiesLength : List Heredoc → Text → Nat
  | [], _ => 0
  | h :: more, text =>
    let taken := h.bodyLength text
    taken + bodiesLength more (text.drop taken)

end Heredoc

end FactoryDowngrade
