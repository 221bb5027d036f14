import FactoryDowngrade.Text.CharClass

/-!
# Shell commands

The commands that verification scripts are made of. A script is a sequence of octets, each held as
a character below 256; words keep apart what was quoted and what was not, since only the latter is
split and matched against file names.
-/

namespace FactoryDowngrade

namespace Shell

/-- Octets, each as the character with its number. -/
abbrev Octets := List Char

/-- What an expansion does with the value of a variable. -/
inductive Treatment where
  | plain
  | size
  | whenUnset (emptyToo : Bool)
  | assignUnset (emptyToo : Bool)
  | failUnset (emptyToo : Bool)
  | whenSet (emptyToo : Bool)
  | trimFront (longest : Bool)
  | trimBack (longest : Bool)
deriving DecidableEq, Repr

/-- What a redirection does. A document stands in the script itself, perhaps with tabs in front of
its lines that do not belong to it. -/
inductive Redirection where
  | read
  | document (isIndented : Bool)
  | overwrite
  | append
  | duplicate
deriving DecidableEq, Repr

mutual

/-- A part of a word. -/
inductive Part where
  | text (chars : Octets) (isQuoted : Bool)
  | variable (name : Octets) (treatment : Treatment) (operand : List Part) (isQuoted : Bool)
  | arithmetic (body : List Part) (isQuoted : Bool)
  | output (body : Command) (isQuoted : Bool)

/-- A command. -/
inductive Command where
  | nothing
  | simple (line : Nat) (assignments : List (Octets × List Part)) (words : List (List Part))
  | redirected (body : Command) (redirections : List (Nat × Redirection × List Part))
  | sequence (first second : Command)
  | both (first second : Command)
  | orElse (first second : Command)
  | negated (body : Command)
  | piped (first second : Command)
  | background (body : Command)
  | group (body : Command)
  | subshell (body : Command)
  | choose (condition yes no : Command)
  | loop (untilTrue : Bool) (condition body : Command)
  | each (name : Octets) (words : Option (List (List Part))) (body : Command)
  | select (word : List Part) (clauses : List (List (List Part) × Command))
  | define (name : Octets) (body : Command)

end

/-- A word. -/
abbrev Word := List Part

instance : Inhabited Command := ⟨.nothing⟩

/-- Characters that open a name. -/
def isNameStart (c : Char) : Bool :=
  c == '_' || c.isAlpha

/-- Characters of a name. -/
def isNameChar (c : Char) : Bool :=
  c == '_' || c.isAlphanum

/-- Whether some characters form a name. -/
def isName (s : Octets) : Bool :=
  s.head?.any isNameStart && s.all isNameChar

/-- The words that have a meaning of their own where a command begins. -/
def reserved : List Octets :=
  ["if", "then", "elif", "else", "fi", "while", "until", "for", "do", "done", "case", "esac", "in",
    "\x7b", "\x7d", "!"].map String.toList

/-- The plain text of a word without quotes or expansions. -/
def plainText? : Word → Option Octets
  | [] => some []
  | .text chars false :: rest => (plainText? rest).map (chars ++ ·)
  | _ => none

/-- Whether some part of a word is quoted. -/
def isQuoted (w : Word) : Bool :=
  w.any fun
    | .text _ quoted => quoted
    | _ => false

/-- The text of a word, quoted or not, without its expansions. -/
def bareText (w : Word) : Octets :=
  w.flatMap fun
    | .text chars _ => chars
    | _ => []

/-- The name and value of a word that assigns to a variable. -/
def assignment? : Word → Option (Octets × Word)
  | .text chars false :: rest =>
    let name := chars.takeWhile (· ≠ '=')
    if isName name && name.length < chars.length then
      let value := chars.drop (name.length + 1)
      some (name, if value.isEmpty then rest else .text value false :: rest)
    else none
  | _ => none

end Shell

end FactoryDowngrade
