import FactoryDowngrade.Shell.Command

/-!
# Reading scripts

Readers of the tokens of a script: blanks, quoted text, names of parameters, operators of
redirections. A reader that refuses a script tells how far it came.
-/

namespace FactoryDowngrade

namespace Shell

/-- What is wrong with a script, and how many line breaks are left behind that place. -/
structure ScriptFault where
  message : String
  breaksLeft : Nat
deriving DecidableEq, Repr

/-- A reader of scripts. -/
abbrev Reader := StateT Octets (Except ScriptFault)

namespace Reader

/-- What is left to read. -/
def rest : Reader Octets := get

/-- Refuses the script. -/
def refuse {α : Type} (message : String) : Reader α := fun s => .error ⟨message, s.count '\n'⟩

/-- Drops some characters. -/
def drop (count : Nat) : Reader Unit := modify (·.drop count)

/-- Whether the given characters come next. -/
def sees (text : String) : Reader Bool := do
  return Text.startsWith (← rest) text.toList

/-- Drops the given characters if they come next, and says whether they did. -/
def eats (text : String) : Reader Bool := do
  if ← sees text then
    drop text.length
    return true
  else return false

/-- Reads characters as long as they are accepted. -/
def takeWhile (accepts : Char → Bool) : Reader Octets := do
  let taken := (← rest).takeWhile accepts
  drop taken.length
  return taken

end Reader

/-- Characters that end a word. -/
def isMeta (c : Char) : Bool :=
  [' ', '\t', '\n', ';', '&', '|', '<', '>', '(', ')'].contains c

/-- The backquote, which encloses a command. -/
def backquote : Char := '\x60'

/-- Drops blanks, joined lines and comments. -/
def skipBlanks : Nat → Octets → Octets
  | 0, s => s
  | fuel + 1, s =>
    match s with
    | ' ' :: rest => skipBlanks fuel rest
    | '\t' :: rest => skipBlanks fuel rest
    | '\\' :: '\n' :: rest => skipBlanks fuel rest
    | '#' :: rest => rest.dropWhile (· ≠ '\n')
    | s => s

/-- Drops blanks, line breaks and comments. -/
def skipLines : Nat → Octets → Octets
  | 0, s => s
  | fuel + 1, s =>
    match skipBlanks (s.length + 1) s with
    | '\n' :: rest => skipLines fuel rest
    | s => s

namespace Reader

/-- Drops blanks and comments. -/
def blanks : Reader Unit := modify fun s => skipBlanks (s.length + 1) s

/-- Drops blanks, line breaks and comments. -/
def lines : Reader Unit := modify fun s => skipLines (s.length + 1) s

end Reader

/-- Reads up to a closing single quote. -/
def singleQuoted : Reader Octets := do
  let body ← Reader.takeWhile (· ≠ '\'')
  if ← Reader.eats "'" then return body
  else Reader.refuse "Syntax error: Unterminated quoted string"

/-- Reads up to a closing backquote; a backslash keeps a backquote, a dollar or itself. -/
def backquoted : Nat → Reader Octets
  | 0 => Reader.refuse "Syntax error: EOF in backquote substitution"
  | fuel + 1 => do
    match ← Reader.rest with
    | [] => Reader.refuse "Syntax error: EOF in backquote substitution"
    | '\\' :: c :: _ =>
      Reader.drop 2
      let more ← backquoted fuel
      return if c == backquote || c == '$' || c == '\\' then c :: more else '\\' :: c :: more
    | c :: _ =>
      Reader.drop 1
      if c == backquote then return []
      return c :: (← backquoted fuel)

/-- Reads the text of an arithmetic expansion up to its two closing parentheses. -/
def arithmeticText : Nat → Nat → Reader Octets
  | 0, _ => Reader.refuse "Syntax error: Missing '))'"
  | fuel + 1, depth => do
    match ← Reader.rest with
    | ')' :: ')' :: _ =>
      if depth = 0 then
        Reader.drop 2
        return []
      Reader.drop 1
      return ')' :: (← arithmeticText fuel (depth - 1))
    | c :: _ =>
      Reader.drop 1
      let depth := if c = '(' then depth + 1 else if c = ')' then depth - 1 else depth
      return c :: (← arithmeticText fuel depth)
    | [] => Reader.refuse "Syntax error: Missing '))'"

/-- Reads what an expansion in braces does besides naming a variable. -/
def treatment : Reader Treatment := do
  let emptyToo ← Reader.eats ":"
  match ← Reader.rest with
  | '-' :: _ => Reader.drop 1; return .whenUnset emptyToo
  | '=' :: _ => Reader.drop 1; return .assignUnset emptyToo
  | '?' :: _ => Reader.drop 1; return .failUnset emptyToo
  | '+' :: _ => Reader.drop 1; return .whenSet emptyToo
  | '#' :: '#' :: _ => Reader.drop 2; return .trimFront true
  | '#' :: _ => Reader.drop 1; return .trimFront false
  | '%' :: '%' :: _ => Reader.drop 2; return .trimBack true
  | '%' :: _ => Reader.drop 1; return .trimBack false
  | '\x7d' :: _ => return .plain
  | [] => Reader.refuse "Syntax error: Missing '\x7d'"
  | _ => Reader.refuse "Bad substitution"

/-- Reads the name of a variable or a special parameter. -/
def parameterName : Reader Octets := do
  match ← Reader.rest with
  | c :: _ =>
    if isNameStart c then Reader.takeWhile isNameChar
    else if c.isDigit then Reader.takeWhile Char.isDigit
    else if ['@', '*', '#', '?', '-', '$', '!'].contains c then
      Reader.drop 1
      return [c]
    else Reader.refuse "Bad substitution"
  | [] => Reader.refuse "Syntax error: Missing '\x7d'"

/-- Adds a character to the parts of a word. -/
def addChar (c : Char) (isQuoted : Bool) : Word → Word
  | .text chars q :: rest =>
    if q == isQuoted then .text (c :: chars) q :: rest
    else .text [c] isQuoted :: .text chars q :: rest
  | parts => .text [c] isQuoted :: parts

/-- Reads the lines of a document, which begin on the line after this one and end at a line that is
the delimiter, or with the script. The rest of this line is read on afterwards. -/
def documentText (isIndented : Bool) (delimiter : Octets) : Reader Octets := do
  let s ← Reader.rest
  let line := s.takeWhile (· ≠ '\n')
  let below := (s.drop (line.length + 1)).splitOn '\n'
  let below := if isIndented then below.map (·.dropWhile (· == '\t')) else below
  let body := below.takeWhile (· ≠ delimiter)
  let rest := below.drop (body.length + 1)
  set (line ++ (rest.map ('\n' :: ·)).flatten)
  let text := (body.intersperse ['\n']).flatten
  return if body.length < below.length && !body.isEmpty then text ++ ['\n'] else text

/-- Reads the file descriptor and operator of a redirection, if one comes next. -/
def redirectionHead : Reader (Option (Nat × Redirection)) := do
  let s ← Reader.rest
  let digits := s.takeWhile Char.isDigit
  let number := digits.foldl (fun n c => 10 * n + (c.toNat - '0'.toNat)) 0
  let descriptor (default : Nat) : Nat := if digits.isEmpty then default else number
  let found (length : Nat) (default : Nat) (kind : Redirection) :
      Reader (Option (Nat × Redirection)) := do
    Reader.drop (digits.length + length)
    return some (descriptor default, kind)
  match s.drop digits.length with
  | '>' :: '>' :: _ => found 2 1 .append
  | '>' :: '&' :: _ => found 2 1 .duplicate
  | '>' :: '|' :: _ => found 2 1 .overwrite
  | '>' :: _ => found 1 1 .overwrite
  | '<' :: '<' :: '-' :: _ => found 3 0 (.document true)
  | '<' :: '<' :: _ => found 2 0 (.document false)
  | '<' :: '&' :: _ => found 2 0 .duplicate
  | '<' :: _ => found 1 0 .read
  | _ => return none

end Shell

end FactoryDowngrade
