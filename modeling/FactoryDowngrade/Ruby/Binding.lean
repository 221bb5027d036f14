import FactoryDowngrade.Ruby.Bracket
import FactoryDowngrade.Text.Pattern

/-!
# Names bound to a call's result

A call's result is bound by an assignment in the same statement, or by the lazily evaluated block
(`let`, `subject`) whose body holds the call. An assignment wins over a block, and of several
blocks the innermost counts.
-/

namespace FactoryDowngrade

/-! ### Blocks -/

namespace Block

/-- What a keyword does to the nesting of blocks. -/
inductive Keyword where
  | opens
  | opensStatement
  | closes
deriving DecidableEq, Repr

/-- The block keyword that a word spells. Conditions and loops open a block only where they begin
a statement; behind one they are modifiers. -/
def keyword? (word : Text) : Option Keyword :=
  let spelled (words : List String) : Bool := (words.map String.toList).contains word
  if spelled ["do", "def", "class", "module", "begin", "case", "for"] then some .opens
  else if spelled ["if", "unless", "while", "until"] then some .opensStatement
  else if spelled ["end"] then some .closes
  else none

/-- Characters before or after a word that make it something other than a keyword. -/
def spoilsBefore (c : Char) : Bool :=
  CharClass.isWord c || c == '.' || c == ':' || c == '@' || c == '$'

/-- The keyword at a cursor. -/
def keywordAt? (c : Cursor) : Option Keyword :=
  let word := c.after.takeWhile CharClass.isWord
  if c.follows spoilsBefore then none
  else if (c.after.drop word.length).head?.any ['?', '!', ':'].contains then none
  else keyword? word

/-- Whether only blanks, or an expression that wants a statement, stand before the cursor on its
line. -/
def startsStatement (c : Cursor) : Bool :=
  ((c.before.takeWhile (· ≠ '\n')).dropWhile CharClass.isBlank).head?.all ['=', '(', ';'].contains

/-- The place of the `end` that closes the first block opened here. `depth` counts the blocks open
so far; an `end` without a block takes it below zero. -/
def closingEnd? (depth : Int) : Text → Text → Option Cursor
  | _, [] => none
  | before, x :: after =>
    let c : Cursor := ⟨before, x :: after⟩
    match keywordAt? c with
    | some .closes =>
      if depth = 1 then some c else closingEnd? (depth - 1) (x :: before) after
    | some .opens => closingEnd? (depth + 1) (x :: before) after
    | some .opensStatement =>
      closingEnd? (if startsStatement c then depth + 1 else depth) (x :: before) after
    | none => closingEnd? depth (x :: before) after

/-- The offset of the `end` that closes the block whose `do` stands at the cursor. -/
def stop? (c : Cursor) : Option Nat :=
  (closingEnd? 0 c.before c.after).map Cursor.offset

end Block

/-! ### Assignments -/

namespace Assignment

/-- What begins a new statement or a block body on a line. -/
def statementBreak : Pattern :=
  .choice (.anyOf ";\x7b") [
    .chain [.wordEdge, .word "do", .wordEdge],
    .chain [.wordEdge, .word "then", .wordEdge],
    .chain [.char '|',
      .run fun c => CharClass.isWord c || CharClass.isBlank c || c == ',' || c == '*' || c == '&',
      .char '|', .notBefore (· == '=')]]

/-- A local or instance variable name. -/
def targetName : Pattern :=
  .chain [.maybe (.char '@'), .maybe (.char '@'), .one CharClass.isLowerStart, .wordRun]

/-- The operator of an assignment at the end of a text. -/
def operatorTail : Pattern :=
  .chain [.blanks, .maybe (.word "||"), .char '=', .blanks, .textEnd]

/-- What stands on the line after its last statement break. -/
def lastStatement (line : Text) : Text :=
  match (statementBreak.allMatches line).getLast? with
  | some (_, stop) => stop.after
  | none => line

/-- The name that the end of a statement assigns to. -/
def targetOf (statement : Text) : Option Text :=
  (Cursor.start statement).first? fun first =>
    (targetName.ends first).findSome? fun last =>
      if operatorTail.occursAt last then some (first.upTo last) else none

/-- The name assigned by the statement whose right-hand side starts at the cursor. -/
def target? (c : Cursor) : Option Text :=
  targetOf (lastStatement c.lineHead)

end Assignment

/-! ### Lazy blocks -/

/-- A lazily evaluated block: the name it defines, its keyword and the range of its body. -/
structure LazyBinding where
  name : Text
  keyword : Text
  bodyStart : Nat
  bodyStop : Nat
deriving DecidableEq, Repr

namespace LazyBinding

/-- A block's head: keyword, name in parentheses if there is one, and the place of the opener with
the place behind it. -/
structure Head where
  keyword : Text
  name : Option Text
  opener : Cursor
  body : Cursor

/-- The keyword of a lazy block, with a bang if there is one. -/
def keywordPattern : Pattern :=
  .seq (.wordOf "let" ["subject"]) (.maybe (.char '!'))

/-- What leads to the name in parentheses. -/
def nameLead : Pattern :=
  .chain [.blanks, .char '(', .blanks, .char ':']

/-- A name as it stands in parentheses. -/
def namePattern : Pattern :=
  .chain [.one CharClass.isLowerStart, .wordRun, .maybe (.anyOf "?!")]

/-- What closes the parentheses around a name. -/
def nameTail : Pattern :=
  .chain [.blanks, .char ')']

/-- A brace, or `do` as a whole word. -/
def openerPattern : Pattern :=
  .either (.char '\x7b') (.chain [.wordEdge, .word "do", .wordEdge])

/-- The ways to read a name in parentheses, and last the way to read none. -/
def nameReadings (c : Cursor) : List (Option Text × Cursor) :=
  ((nameLead.ends c).flatMap fun first =>
    (namePattern.ends first).flatMap fun last =>
      (nameTail.ends last).map fun stop => (some (first.upTo last), stop))
    ++ [(none, c)]

/-- The head of a lazy block at the cursor. -/
def headAt? (c : Cursor) : Option (Head × Cursor) :=
  if c.follows fun x => CharClass.isWord x || x == '.' || x == ':' || x == '@' then none
  else
    (keywordPattern.ends c).findSome? fun named =>
      (nameReadings named).findSome? fun (name, rest) =>
        (Pattern.blanks.ends rest).findSome? fun opener =>
          (openerPattern.match? opener).map fun body =>
            (⟨c.upTo named, name, opener, body⟩, body)

/-- The name that a head defines; `subject` without a name defines itself. -/
def Head.boundName (h : Head) : Option Text :=
  h.name.or (if h.keyword.startsWith "subject".toList then some "subject".toList else none)

/-- The block that a head opens, if it has a name and its end is found. -/
def ofHead? (h : Head) : Option LazyBinding := do
  let name ← h.boundName
  let bodyStop ←
    if h.opener.after.head? = some '\x7b' then
      (Bracket.closeDistance BracketRole.ofChar [] h.opener.after).map (h.opener.offset + ·)
    else Block.stop? h.opener
  return ⟨name, h.keyword, h.body.offset, bodyStop⟩

/-- Every lazy block of a masked text whose body can be found, in order. -/
def all (masked : Text) : List LazyBinding :=
  (Cursor.readAll headAt? (Cursor.start masked)).filterMap ofHead?

/-- Whether the block's body holds a range of the text. -/
def holds (b : LazyBinding) (start stop : Nat) : Bool :=
  b.bodyStart ≤ start && stop ≤ b.bodyStop

/-- The innermost block that holds a range; of two that begin together, the later one. -/
def innermost? (blocks : List LazyBinding) (start stop : Nat) : Option LazyBinding :=
  (blocks.filter (·.holds start stop)).foldl (fun best b =>
    match best with
    | none => some b
    | some last => if last.bodyStart ≤ b.bodyStart then some b else some last) none

end LazyBinding

/-- The name bound to the result of the call from the cursor to `stop`. -/
def boundName? (blocks : List LazyBinding) (c : Cursor) (stop : Nat) : Option Text :=
  (Assignment.target? c).or ((LazyBinding.innermost? blocks c.offset stop).map (·.name))

end FactoryDowngrade
