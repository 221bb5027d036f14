import FactoryDowngrade.Text.Cursor

/-!
# Text patterns

A pattern describes stretches of a text together with what may stand around them. Its meaning is
the list of places where a stretch beginning at a given place may end, the preferred one first:
runs and repetitions prefer to be long, and a choice prefers its first branch. The first end is
the match, and a search takes the first place that has one.
-/

namespace FactoryDowngrade

/-- Descriptions of stretches of text. -/
inductive Pattern where
  | empty
  | one (accepts : Char → Bool)
  | run (accepts : Char → Bool)
  | seq (first second : Pattern)
  | either (first second : Pattern)
  | repeated (body : Pattern)
  | ahead (body : Pattern)
  | notAhead (body : Pattern)
  | notAfter (refused : Char → Bool)
  | wordEdge
  | lineStart
  | textStart
  | textEnd

namespace Pattern

/-- The places that a run of accepted characters passes, its beginning included, nearest first. -/
def runPlaces (accepts : Char → Bool) : Text → Text → List Cursor
  | before, [] => [⟨before, []⟩]
  | before, x :: after =>
    ⟨before, x :: after⟩ :: if accepts x then runPlaces accepts (x :: before) after else []

/-- The ends of at most `limit` successive stretches that each take a character, longest first. -/
def repeatPlaces (step : Cursor → List Cursor) : Nat → Cursor → List Cursor
  | 0, c => [c]
  | limit + 1, c =>
    ((step c).filter fun e => e.after.length < c.after.length).flatMap (repeatPlaces step limit)
      ++ [c]

/-- The places where a stretch beginning at the cursor may end, the preferred one first. -/
def ends : Pattern → Cursor → List Cursor
  | empty, c => [c]
  | one accepts, c =>
    match c.after with
    | [] => []
    | x :: after => if accepts x then [⟨x :: c.before, after⟩] else []
  | run accepts, c => (runPlaces accepts c.before c.after).reverse
  | seq first second, c => (first.ends c).flatMap second.ends
  | either first second, c => first.ends c ++ second.ends c
  | repeated body, c => repeatPlaces body.ends c.after.length c
  | ahead body, c => if (body.ends c).isEmpty then [] else [c]
  | notAhead body, c => if (body.ends c).isEmpty then [c] else []
  | notAfter refused, c => if c.follows refused then [] else [c]
  | wordEdge, c => if c.follows CharClass.isWord != c.precedes CharClass.isWord then [c] else []
  | lineStart, c => if c.before.head?.all (· == '\n') then [c] else []
  | textStart, c => if c.before.isEmpty then [c] else []
  | textEnd, c => if c.after.isEmpty then [c] else []

/-! The ends of each form of pattern. -/

section Ends

variable (accepts refused : Char → Bool) (p q : Pattern) (c : Cursor)

/-- Nothing ends where it begins. -/
theorem ends_empty : empty.ends c = [c] := rfl

/-- One character of a class is taken, if it stands there. -/
theorem ends_one : (one accepts).ends c =
    match c.after with
    | [] => []
    | x :: after => if accepts x then [⟨x :: c.before, after⟩] else [] := rfl

/-- A run ends behind each of its characters, the longest way first. -/
theorem ends_run : (run accepts).ends c = (runPlaces accepts c.before c.after).reverse := rfl

/-- The second pattern goes on from every end of the first one. -/
theorem ends_seq : (seq p q).ends c = (p.ends c).flatMap q.ends := rfl

/-- The ends of the first pattern come before those of the second one. -/
theorem ends_either : (either p q).ends c = p.ends c ++ q.ends c := rfl

/-- Looking ahead takes nothing, and needs a match. -/
theorem ends_ahead : (ahead p).ends c = if (p.ends c).isEmpty then [] else [c] := rfl

/-- Looking ahead for what must not be there needs that there is no match. -/
theorem ends_notAhead : (notAhead p).ends c = if (p.ends c).isEmpty then [c] else [] := rfl

/-- Looking back takes nothing, and needs that the character is not refused. -/
theorem ends_notAfter : (notAfter refused).ends c = if c.follows refused then [] else [c] := rfl

/-- A word begins or ends where just one of the two neighbours is a word character. -/
theorem ends_wordEdge : wordEdge.ends c =
    if c.follows CharClass.isWord != c.precedes CharClass.isWord then [c] else [] := rfl

/-- A line begins at the start of the text and behind every line break. -/
theorem ends_lineStart :
    lineStart.ends c = if c.before.head?.all (· == '\n') then [c] else [] := rfl

/-- The text begins where nothing stands before. -/
theorem ends_textStart : textStart.ends c = if c.before.isEmpty then [c] else [] := rfl

/-- It ends where nothing stands behind. -/
theorem ends_textEnd : textEnd.ends c = if c.after.isEmpty then [c] else [] := rfl

end Ends

/-- The match at the cursor, by its end. -/
def match? (p : Pattern) (c : Cursor) : Option Cursor :=
  (p.ends c).head?

/-- Whether the pattern matches at the cursor. -/
def occursAt (p : Pattern) (c : Cursor) : Bool :=
  !(p.ends c).isEmpty

/-- The first match at or after the cursor, by its two ends. -/
def search? (p : Pattern) (c : Cursor) : Option (Cursor × Cursor) :=
  c.first? fun place => (p.match? place).map fun stop => (place, stop)

/-- Whether the pattern matches somewhere at or after the cursor. -/
def occurs (p : Pattern) (c : Cursor) : Bool :=
  (p.search? c).isSome

/-- The successive matches from the cursor on. Each search begins where the last match ended; a
match that takes no character is not repeated at its place. -/
def matchesFrom (p : Pattern) (afterEmpty : Bool) (c : Cursor) : List (Cursor × Cursor) :=
  match (p.ends c).find? fun stop => !afterEmpty || stop.after.length < c.after.length with
  | some stop =>
    (c, stop) ::
      if _ : stop.after.length < c.after.length then matchesFrom p false stop
      else match afterEmpty with
        | false => matchesFrom p true c
        | true => []
  | none =>
    match c with
    | ⟨_, []⟩ => []
    | ⟨before, x :: after⟩ => matchesFrom p false ⟨x :: before, after⟩
termination_by 2 * c.after.length + if afterEmpty then 0 else 1
decreasing_by
  · split <;> omega
  · simp
  · rw [List.length_cons]
    split <;> omega

/-- All successive matches in a text. -/
def allMatches (p : Pattern) (text : Text) : List (Cursor × Cursor) :=
  p.matchesFrom false (Cursor.start text)

/-! ### Derived patterns -/

/-- The given character. -/
def char (c : Char) : Pattern :=
  one (· == c)

/-- One of the characters of a list. -/
def anyOf (chars : String) : Pattern :=
  one chars.toList.contains

/-- The given characters in order. -/
def literal (chars : Text) : Pattern :=
  chars.foldr (fun c rest => seq (char c) rest) empty

/-- The characters of a fixed word. -/
def word (chars : String) : Pattern :=
  literal chars.toList

/-- All of the patterns, one after the other. -/
def chain (parts : List Pattern) : Pattern :=
  parts.foldr seq empty

/-- The first fitting pattern of a list with at least one member. -/
def choice (first : Pattern) : List Pattern → Pattern
  | [] => first
  | second :: rest => either first (choice second rest)

/-- The pattern or nothing, preferring the pattern. -/
def maybe (p : Pattern) : Pattern :=
  either p empty

/-- One of the fixed words. -/
def wordOf (first : String) (rest : List String) : Pattern :=
  choice (word first) (rest.map word)

/-- Any number of blanks. -/
def blanks : Pattern :=
  run CharClass.isBlank

/-- Any number of word characters. -/
def wordRun : Pattern :=
  run CharClass.isWord

/-- No word character and none of the given ones comes next. -/
def notBefore (refused : Char → Bool) : Pattern :=
  notAhead (one refused)

end Pattern

end FactoryDowngrade
