import FactoryDowngrade.Shell.Reader

/-!
# Scripts

How a script spells its commands. Commands are read line by line, as a shell does, which has run
the lines before a faulty one when it comes to it.
-/

namespace FactoryDowngrade

namespace Shell

/-- Whether nothing more of the present script comes. -/
def endsScript : Reader Bool := do
  match ← Reader.rest with
  | [] => return true
  | ')' :: _ => return true
  | ';' :: ';' :: _ => return true
  | s =>
    let next := s.takeWhile fun c => !isMeta c
    return (["then", "elif", "else", "fi", "do", "done", "esac", "\x7d"].map
      String.toList).contains next

/-- What the shell calls the token that comes next. -/
def tokenName (s : Octets) : String :=
  let next := s.takeWhile fun c => !isMeta c
  match s with
  | [] => "end of file"
  | '\n' :: _ => "newline"
  | '&' :: '&' :: _ => "\"&&\""
  | '|' :: '|' :: _ => "\"||\""
  | ';' :: ';' :: _ => "\";;\""
  | '<' :: _ => "redirection"
  | '>' :: _ => "redirection"
  | c :: _ =>
    if next.isEmpty then
      let sign := String.ofList [c]
      s!"\"{sign}\""
    else if reserved.contains next then
      let word := String.ofList next
      s!"\"{word}\""
    else "word"

/-- Refuses the token that comes next, where another one is expected. -/
def unexpected {α : Type} (expected : String) : Reader α := do
  let seen := tokenName (← Reader.rest)
  let _ ← Reader.eats "\n"
  if expected.isEmpty then Reader.refuse s!"Syntax error: {seen} unexpected"
  else Reader.refuse s!"Syntax error: {seen} unexpected (expecting \"{expected}\")"

/-- Reads the given reserved word. -/
def keyword (name : String) : Reader Unit := do
  Reader.lines
  let next := (← Reader.rest).takeWhile fun c => !isMeta c
  if next = name.toList then Reader.drop next.length else unexpected name

mutual

/-- Reads the parts of a word up to a character that ends it. -/
def wordParts (breaks : Nat) : Nat → Reader Word
  | 0 => return []
  | fuel + 1 => do
    match ← Reader.rest with
    | [] => return []
    | '\'' :: _ =>
      Reader.drop 1
      let body ← singleQuoted
      return .text body true :: (← wordParts breaks fuel)
    | '"' :: _ =>
      Reader.drop 1
      let body ← quotedParts breaks true fuel
      return .text [] true :: body ++ (← wordParts breaks fuel)
    | '\\' :: '\n' :: _ =>
      Reader.drop 2
      wordParts breaks fuel
    | '\\' :: c :: _ =>
      Reader.drop 2
      return addChar c true (← wordParts breaks fuel)
    | '$' :: _ =>
      let part ← dollar breaks false fuel
      return part :: (← wordParts breaks fuel)
    | c :: _ =>
      if isMeta c then return []
      Reader.drop 1
      if c == backquote then
        let part ← backquotedPart breaks false fuel
        return part :: (← wordParts breaks fuel)
      return addChar c false (← wordParts breaks fuel)

/-- Reads the parts of quoted text up to the closing quote, or to the end if there is none to
find. -/
def quotedParts (breaks : Nat) (needsQuote : Bool) : Nat → Reader Word
  | 0 => return []
  | fuel + 1 => do
    match ← Reader.rest with
    | [] =>
      if needsQuote then Reader.refuse "Syntax error: Unterminated quoted string" else return []
    | '\\' :: '\n' :: _ =>
      Reader.drop 2
      quotedParts breaks needsQuote fuel
    | '\\' :: c :: _ =>
      if c == '$' || (c == '"' && needsQuote) || c == '\\' || c == backquote then
        Reader.drop 2
        return addChar c true (← quotedParts breaks needsQuote fuel)
      Reader.drop 1
      return addChar '\\' true (← quotedParts breaks needsQuote fuel)
    | '$' :: _ =>
      let part ← dollar breaks true fuel
      return part :: (← quotedParts breaks needsQuote fuel)
    | c :: _ =>
      Reader.drop 1
      if c == '"' && needsQuote then return []
      if c == backquote then
        let part ← backquotedPart breaks true fuel
        return part :: (← quotedParts breaks needsQuote fuel)
      return addChar c true (← quotedParts breaks needsQuote fuel)

/-- Reads a command between backquotes, behind the first of them. -/
def backquotedPart (breaks : Nat) (isQuoted : Bool) : Nat → Reader Part
  | 0 => return .text [] isQuoted
  | fuel + 1 => do
    let inner ← backquoted ((← Reader.rest).length + 1)
    match (script breaks fuel).run inner with
    | .ok (body, _) => return .output body isQuoted
    | .error fault => Reader.refuse fault.message

/-- Reads an expansion that begins with a dollar. -/
def dollar (breaks : Nat) (isQuoted : Bool) : Nat → Reader Part
  | 0 => return .text [] isQuoted
  | fuel + 1 => do
    Reader.drop 1
    match ← Reader.rest with
    | '(' :: '(' :: _ =>
      Reader.drop 2
      let text ← arithmeticText ((← Reader.rest).length + 1) 0
      match (quotedParts breaks false fuel).run text with
      | .ok (body, _) => return .arithmetic body isQuoted
      | .error fault => Reader.refuse fault.message
    | '(' :: _ =>
      Reader.drop 1
      let body ← script breaks fuel
      if ← Reader.eats ")" then return .output body isQuoted else unexpected ")"
    | '\x7b' :: '#' :: '\x7d' :: _ =>
      Reader.drop 3
      return .variable ['#'] .plain [] isQuoted
    | '\x7b' :: '#' :: _ =>
      Reader.drop 2
      let name ← parameterName
      if ← Reader.eats "\x7d" then return .variable name .size [] isQuoted
      else Reader.refuse "Bad substitution"
    | '\x7b' :: _ =>
      Reader.drop 1
      let name ← parameterName
      let use ← treatment
      let operand ← bracedParts breaks isQuoted fuel
      return .variable name use operand isQuoted
    | c :: _ =>
      if isNameStart c then return .variable (← Reader.takeWhile isNameChar) .plain [] isQuoted
      if c.isDigit || ['@', '*', '#', '?', '-', '$', '!'].contains c then
        Reader.drop 1
        return .variable [c] .plain [] isQuoted
      return .text ['$'] isQuoted
    | [] => return .text ['$'] isQuoted

/-- Reads the operand of an expansion up to its closing brace. -/
def bracedParts (breaks : Nat) (isQuoted : Bool) : Nat → Reader Word
  | 0 => return []
  | fuel + 1 => do
    match ← Reader.rest with
    | [] => Reader.refuse "Syntax error: Missing '\x7d'"
    | '\x7d' :: _ =>
      Reader.drop 1
      return []
    | '\'' :: _ =>
      Reader.drop 1
      if isQuoted then return addChar '\'' true (← bracedParts breaks isQuoted fuel)
      let body ← singleQuoted
      return .text body true :: (← bracedParts breaks isQuoted fuel)
    | '"' :: _ =>
      Reader.drop 1
      let body ← quotedParts breaks true fuel
      return .text [] true :: body ++ (← bracedParts breaks isQuoted fuel)
    | '\\' :: c :: _ =>
      Reader.drop 2
      return addChar c true (← bracedParts breaks isQuoted fuel)
    | '$' :: _ =>
      let part ← dollar breaks isQuoted fuel
      return part :: (← bracedParts breaks isQuoted fuel)
    | c :: _ =>
      Reader.drop 1
      return addChar c isQuoted (← bracedParts breaks isQuoted fuel)

/-- Reads a word, if one comes next. -/
def word? (breaks : Nat) : Nat → Reader (Option Word)
  | 0 => return none
  | fuel + 1 => do
    Reader.blanks
    match ← Reader.rest with
    | [] => return none
    | c :: _ => if isMeta c then return none else return some (← wordParts breaks fuel)

/-- Reads what a redirection leads to. The body of a document takes the place of the delimiter that
is written there, and is plain text if any of the delimiter is quoted. -/
def redirectionTarget (breaks : Nat) (kind : Redirection) : Nat → Reader Word
  | 0 => return []
  | fuel + 1 => do
    match kind, ← word? breaks fuel with
    | _, none => unexpected ""
    | .document isIndented, some delimiter =>
      let text ← documentText isIndented (bareText delimiter)
      if isQuoted delimiter then return [.text text true]
      match (quotedParts breaks false fuel).run text with
      | .ok (body, _) => return body
      | .error fault => Reader.refuse fault.message
    | _, some target => return target

/-- Reads redirections as long as they come. -/
def redirections (breaks : Nat) : Nat → Reader (List (Nat × Redirection × Word))
  | 0 => return []
  | fuel + 1 => do
    Reader.blanks
    match ← redirectionHead with
    | none => return []
    | some (descriptor, kind) =>
      let target ← redirectionTarget breaks kind fuel
      return (descriptor, kind, target) :: (← redirections breaks fuel)

/-- Reads the words and redirections of a simple command. -/
def simpleParts (breaks : Nat) : Nat →
    Reader (List Word × List (Nat × Redirection × Word))
  | 0 => return ([], [])
  | fuel + 1 => do
    Reader.blanks
    match ← redirectionHead with
    | some (descriptor, kind) =>
      let target ← redirectionTarget breaks kind fuel
      let (words, more) ← simpleParts breaks fuel
      return (words, (descriptor, kind, target) :: more)
    | none =>
      match ← word? breaks fuel with
      | none => return ([], [])
      | some w =>
        let (words, more) ← simpleParts breaks fuel
        return (w :: words, more)

/-- Reads commands up to the end, or to a word that ends the surrounding command. -/
def script (breaks : Nat) : Nat → Reader Command
  | 0 => return .nothing
  | fuel + 1 => do
    Reader.lines
    if ← endsScript then return .nothing
    let first ← line breaks fuel
    match ← Reader.rest with
    | '\n' :: _ => return .sequence first (← script breaks fuel)
    | _ => return first

/-- Reads commands of which there has to be one, unless the script ends. -/
def block (breaks : Nat) : Nat → Reader Command
  | 0 => return .nothing
  | fuel + 1 => do
    Reader.lines
    if !(← Reader.rest).isEmpty && (← endsScript) then unexpected ""
    script breaks fuel

/-- Reads the commands of one line, which may go on inside a command that is not complete. -/
def line (breaks : Nat) : Nat → Reader Command
  | 0 => return .nothing
  | fuel + 1 => do
    Reader.blanks
    if (← endsScript) || (← Reader.sees "\n") then return .nothing
    let first ← andOr breaks fuel
    Reader.blanks
    match ← Reader.rest with
    | ';' :: ';' :: _ => return first
    | ';' :: _ =>
      Reader.drop 1
      return .sequence first (← line breaks fuel)
    | '&' :: _ =>
      Reader.drop 1
      return .sequence (.background first) (← line breaks fuel)
    | _ => return first

/-- Reads pipelines joined by conditions. -/
def andOr (breaks : Nat) : Nat → Reader Command
  | 0 => return .nothing
  | fuel + 1 => do
    let first ← pipeline breaks fuel
    andOrRest breaks first fuel

/-- Reads further pipelines behind one or more. -/
def andOrRest (breaks : Nat) (first : Command) : Nat → Reader Command
  | 0 => return first
  | fuel + 1 => do
    Reader.blanks
    if ← Reader.eats "&&" then
      Reader.lines
      let second ← pipeline breaks fuel
      andOrRest breaks (.both first second) fuel
    else if ← Reader.eats "||" then
      Reader.lines
      let second ← pipeline breaks fuel
      andOrRest breaks (.orElse first second) fuel
    else return first

/-- Reads commands joined by pipes, with a negation in front if there is one. -/
def pipeline (breaks : Nat) : Nat → Reader Command
  | 0 => return .nothing
  | fuel + 1 => do
    Reader.blanks
    if (← Reader.rest).takeWhile (fun c => !isMeta c) = ['!'] then
      Reader.drop 1
      return .negated (← pipes breaks fuel)
    pipes breaks fuel

/-- Reads commands joined by pipes. -/
def pipes (breaks : Nat) : Nat → Reader Command
  | 0 => return .nothing
  | fuel + 1 => do
    let first ← command breaks fuel
    Reader.blanks
    match ← Reader.rest with
    | '|' :: '|' :: _ => return first
    | '|' :: _ =>
      Reader.drop 1
      Reader.lines
      return .piped first (← pipes breaks fuel)
    | _ => return first

/-- Reads one command. -/
def command (breaks : Nat) : Nat → Reader Command
  | 0 => return .nothing
  | fuel + 1 => do
    Reader.blanks
    let s ← Reader.rest
    let next := String.ofList (s.takeWhile fun c => !isMeta c)
    let redirect (body : Command) : Reader Command := do
      match ← redirections breaks fuel with
      | [] => return body
      | rs => return .redirected body rs
    match s with
    | '(' :: _ =>
      Reader.drop 1
      let body ← block breaks fuel
      Reader.lines
      if ← Reader.eats ")" then redirect (.subshell body) else unexpected ")"
    | _ =>
      match next with
      | "\x7b" =>
        Reader.drop 1
        let body ← block breaks fuel
        keyword "\x7d"
        redirect (.group body)
      | "if" =>
        Reader.drop 2
        let body ← branches breaks fuel
        redirect body
      | "while" | "until" =>
        Reader.drop 5
        let condition ← block breaks fuel
        keyword "do"
        let body ← block breaks fuel
        keyword "done"
        redirect (.loop (next = "until") condition body)
      | "for" =>
        Reader.drop 3
        let body ← forLoop breaks fuel
        redirect body
      | "case" =>
        Reader.drop 4
        match ← word? breaks fuel with
        | none => unexpected ""
        | some w =>
          keyword "in"
          let clauses ← caseClauses breaks fuel
          redirect (.select w clauses)
      | _ =>
        if reserved.contains next.toList then unexpected ""
        let line := 1 + breaks - s.count '\n'
        let (words, rs) ← simpleParts breaks fuel
        if words.isEmpty && rs.isEmpty then unexpected ""
        else if words.length = 1 && rs.isEmpty && (← Reader.sees "(") then
          if (words.head?.bind assignment?).isSome then unexpected ""
          Reader.drop 1
          Reader.blanks
          if !(← Reader.eats ")") then unexpected ")"
          Reader.lines
          let body ← command breaks fuel
          match words.head?.bind plainText? with
          | some name => return .define name body
          | none => Reader.refuse "Syntax error: Bad function name"
        else
          let assignments := (words.map assignment?).takeWhile Option.isSome
          let words := words.drop assignments.length
          let plain := Command.simple line (assignments.filterMap id) words
          return if rs.isEmpty then plain else .redirected plain rs

/-- Reads the rest of a condition behind its first word. -/
def branches (breaks : Nat) : Nat → Reader Command
  | 0 => return .nothing
  | fuel + 1 => do
    let condition ← block breaks fuel
    keyword "then"
    let yes ← block breaks fuel
    Reader.lines
    let next := String.ofList ((← Reader.rest).takeWhile fun c => !isMeta c)
    if next = "elif" then
      Reader.drop 4
      return .choose condition yes (← branches breaks fuel)
    else if next = "else" then
      Reader.drop 4
      let no ← block breaks fuel
      keyword "fi"
      return .choose condition yes no
    else
      keyword "fi"
      return .choose condition yes .nothing

/-- Reads words as long as they come. -/
def wordList (breaks : Nat) : Nat → Reader (List Word)
  | 0 => return []
  | fuel + 1 => do
    match ← word? breaks fuel with
    | none => return []
    | some w => return w :: (← wordList breaks fuel)

/-- Reads the rest of a loop over words behind its first word. -/
def forLoop (breaks : Nat) : Nat → Reader Command
  | 0 => return .nothing
  | fuel + 1 => do
    Reader.blanks
    let name ← Reader.takeWhile isNameChar
    if !isName name then Reader.refuse "Syntax error: Bad for loop variable"
    Reader.lines
    let next := String.ofList ((← Reader.rest).takeWhile fun c => !isMeta c)
    let words ←
      if next = "in" then do
        Reader.drop 2
        pure (some (← wordList breaks fuel))
      else pure none
    Reader.blanks
    if words.isSome && (← Reader.rest).isEmpty then unexpected ""
    let _ ← Reader.eats ";"
    keyword "do"
    let body ← block breaks fuel
    keyword "done"
    return .each name words body

/-- Reads patterns separated by bars. -/
def patterns (breaks : Nat) : Nat → Reader (List Word)
  | 0 => return []
  | fuel + 1 => do
    match ← word? breaks fuel with
    | none => return []
    | some w =>
      Reader.blanks
      if ← Reader.eats "|" then return w :: (← patterns breaks fuel) else return [w]

/-- Reads the clauses of a choice by pattern, through its last word. -/
def caseClauses (breaks : Nat) : Nat → Reader (List (List Word × Command))
  | 0 => return []
  | fuel + 1 => do
    Reader.lines
    let next := String.ofList ((← Reader.rest).takeWhile fun c => !isMeta c)
    if next = "esac" then
      Reader.drop 4
      return []
    let _ ← Reader.eats "("
    let ps ← patterns breaks fuel
    Reader.blanks
    if !(← Reader.eats ")") then unexpected ")"
    let body ← script breaks fuel
    Reader.lines
    if ← Reader.eats ";;" then return (ps, body) :: (← caseClauses breaks fuel)
    keyword "esac"
    return [(ps, body)]

end

/-- Reads the first commands of a script up to the end of a line: nothing if there are none, else
the command and the rest of the script. -/
def firstLine? (s : Octets) : Except ScriptFault (Option (Command × Octets)) :=
  match skipLines (s.length + 1) s with
  | [] => .ok none
  | s =>
    match (line (s.count '\n') (4 * s.length + 16)).run s with
    | .error fault => .error fault
    | .ok (body, rest) =>
      match skipBlanks (rest.length + 1) rest with
      | [] => .ok (some (body, []))
      | '\n' :: rest => .ok (some (body, rest))
      | rest =>
        match (unexpected "" : Reader Unit).run rest with
        | .error fault => .error fault
        | .ok _ => .ok none

end Shell

end FactoryDowngrade
