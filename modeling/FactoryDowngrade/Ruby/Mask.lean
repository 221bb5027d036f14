import FactoryDowngrade.Ruby.Heredoc

/-!
# Masking literals and comments

Masking replaces the bodies of string literals, heredocs and comments by spaces and keeps every
line break, so that what is left visible is code and every offset means the same place as before.
Code inside an interpolation stays visible.

The scan walks the text once. It is either at top level, in the code of an interpolation, or in a
literal, and each of these can hold the next; a stack of frames records the way out. Top-level
code lies below the bottom of the stack and is never left.
-/

namespace FactoryDowngrade

/-- The delimiters of a literal. A bracketed literal nests its own bracket, and the characters of
an interpolating one may contain code. -/
structure Literal where
  closer : Char
  opener : Option Char
  interpolates : Bool
deriving DecidableEq, Repr

/-- What the scan is inside of. The depth counts the open braces of interpolated code, or the
brackets nested in a literal. -/
inductive Frame where
  | code (depth : Nat)
  | literal (kind : Literal) (depth : Nat)
deriving DecidableEq, Repr

/-- A scan underway: the characters passed and their masked form, nearest first, the characters
ahead, the frames above top-level code, and the heredocs whose bodies start on the next line. -/
structure Scan where
  before : Text
  masked : Text
  after : Text
  frames : List Frame
  heredocs : List Heredoc
deriving DecidableEq, Repr

namespace Literal

/-- The literal that a quote character opens. -/
def ofQuote? (c : Char) : Option Literal :=
  if c == '"' || c == '\x60' then some ⟨c, none, true⟩
  else if c == '\'' then some ⟨c, none, false⟩
  else none

/-- The literal that a delimiter opens after a percent sign. -/
def ofDelimiter? (interpolates : Bool) : Char → Option Literal
  | '(' => some ⟨')', some '(', interpolates⟩
  | '[' => some ⟨']', some '[', interpolates⟩
  | '{' => some ⟨'}', some '{', interpolates⟩
  | '<' => some ⟨'>', some '<', interpolates⟩
  | '|' => some ⟨'|', none, interpolates⟩
  | '!' => some ⟨'!', none, interpolates⟩
  | '/' => some ⟨'/', none, interpolates⟩
  | '^' => some ⟨'^', none, interpolates⟩
  | _ => none

/-- Whether a percent literal with this kind letter interpolates, if it is a kind letter. -/
def kind? : Char → Option Bool
  | 'q' | 'w' | 'i' | 's' => some false
  | 'Q' | 'W' | 'I' | 'r' => some true
  | _ => none

/-- The percent literal at the front of a text, and the length of its opening. -/
def percent? : Text → Option (Literal × Nat)
  | '%' :: a :: rest =>
    match kind? a with
    | some interpolates => (rest.head?.bind (ofDelimiter? interpolates)).map (·, 3)
    | none => (ofDelimiter? true a).map (·, 2)
  | _ => none

/-- Whether a percent sign may open a literal after this character. -/
def mayFollow (c : Char) : Bool :=
  ['(', ',', '=', '[', '{', '|', '&', ':', ';', '\n'].contains c

end Literal

/-- The number of characters of a block comment, through the line that ends it. -/
def blockCommentLength (text : Text) : Nat :=
  let line := text.firstLine
  match _ : text.dropWhile (· ≠ '\n') with
  | [] => line.length
  | _ :: rest =>
    if line.startsWith "=end".toList && !(line.drop 4).head?.any CharClass.isWord then line.length
    else line.length + 1 + blockCommentLength rest
termination_by text.length
decreasing_by exact Heredoc.length_lt_of_dropWhile_eq (by assumption)

namespace Scan

/-- A scan that has passed nothing. -/
def start (text : Text) : Scan :=
  ⟨[], [], text, [], []⟩

/-- The masked form of a character inside a literal or comment. -/
def blankOf (c : Char) : Char :=
  if c == '\n' then '\n' else ' '

/-- Passes some characters, writing each as `image` says. -/
def pass (image : Char → Char) (count : Nat) (s : Scan) : Scan :=
  let taken := s.after.take count
  { s with
    before := taken.reverse ++ s.before
    masked := (taken.map image).reverse ++ s.masked
    after := s.after.drop count }

/-- Passes some characters and leaves them visible. -/
def keep (count : Nat) (s : Scan) : Scan :=
  s.pass id count

/-- Passes some characters and blanks them. -/
def blank (count : Nat) (s : Scan) : Scan :=
  s.pass blankOf count

/-- The nearest character passed that is neither a space nor a tab. -/
def previous (s : Scan) : Option Char :=
  (s.before.dropWhile CharClass.isSpaceOrTab).head?

/-- Whether the next character begins a line. -/
def atLineStart (s : Scan) : Bool :=
  s.before.head?.all (· == '\n')

/-- Enters a literal or an interpolation. -/
def push (frame : Frame) (s : Scan) : Scan :=
  { s with frames := frame :: s.frames }

/-- Replaces the frames. -/
def within (frames : List Frame) (s : Scan) : Scan :=
  { s with frames := frames }

/-- Passes the line break just ahead and the heredoc bodies that begin behind it. -/
def passLineBreak (s : Scan) : Scan :=
  let next := s.keep 1
  { next.blank (Heredoc.bodiesLength s.heredocs next.after) with heredocs := [] }

/-- One step in a literal whose frame lies on `outer`; `c` comes first and `next?` after it. -/
def stepLiteral (kind : Literal) (depth : Nat) (outer : List Frame) (c : Char)
    (next? : Option Char) (s : Scan) : Scan :=
  if c = '\\' && next?.isSome then s.blank 2
  else if kind.interpolates && c = '#' && next? = some '{' then (s.push (.code 0)).keep 2
  else if kind.opener = some c then (s.within (.literal kind (depth + 1) :: outer)).blank 1
  else if c = kind.closer then
    match depth with
    | 0 => (s.within outer).keep 1
    | depth + 1 => (s.within (.literal kind depth :: outer)).blank 1
  else s.blank 1

/-- The frames after a code character that opens nothing. Only interpolated code counts braces,
and leaves at the brace that it did not open. -/
def countBrace (c : Char) : List Frame → List Frame
  | .code depth :: outer =>
    if c = '\x7b' then .code (depth + 1) :: outer
    else if c = '\x7d' then
      match depth with
      | 0 => outer
      | depth + 1 => .code depth :: outer
    else .code depth :: outer
  | frames => frames

/-- The literal that opens just ahead, by a quote or by a percent sign, and the length of its
opening. -/
def literalAhead? (c : Char) (s : Scan) : Option (Literal × Nat) :=
  match Literal.ofQuote? c with
  | some kind => some (kind, 1)
  | none => if s.previous.all Literal.mayFollow then Literal.percent? s.after else none

/-- One step in code, where `c` comes first. -/
def stepCode (c : Char) (s : Scan) : Scan :=
  if c = '\n' then s.passLineBreak
  else if c = '#' then s.blank s.after.firstLine.length
  else if c = '=' && s.atLineStart && s.after.startsWith "=begin".toList then
    s.blank (blockCommentLength s.after)
  else match s.literalAhead? c with
    | some (kind, length) => (s.push (.literal kind 0)).keep length
    | none =>
      match Heredoc.opener? s.previous s.after with
      | some (heredoc, length) => { s.keep length with heredocs := s.heredocs ++ [heredoc] }
      | none => (s.within (countBrace c s.frames)).keep 1

/-- One step of the scan; at the end of the text nothing happens. -/
def step (s : Scan) : Scan :=
  match s.after with
  | [] => s
  | c :: rest =>
    match s.frames with
    | .literal kind depth :: outer => s.stepLiteral kind depth outer c rest.head?
    | _ => s.stepCode c

/-- Some number of steps. -/
def steps : Nat → Scan → Scan
  | 0, s => s
  | count + 1, s => steps count s.step

/-- Whether the scan stands in top-level code. -/
def atTopLevel (s : Scan) : Bool :=
  s.frames.isEmpty

end Scan

/-- The text with the bodies of literals and comments blanked. Every step passes at least one
character, so as many steps as there are characters reach the end. -/
def mask (text : Text) : Text :=
  (Scan.steps text.length (Scan.start text)).masked.reverse

end FactoryDowngrade
