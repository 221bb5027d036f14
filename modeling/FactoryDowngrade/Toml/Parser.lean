import FactoryDowngrade.Toml.Document
import FactoryDowngrade.Toml.Scalar

/-!
# Reading configuration files

A file is a sequence of lines that each hold a header, a setting or nothing, and perhaps a comment.
The values of settings may nest, but only so deeply. A file is accepted as a whole or not at all,
and the first fault from its start is told.
-/

namespace FactoryDowngrade

namespace Toml

/-- Drops a comment up to the end of its line; nothing if it holds a control character. -/
def skipComment (s : Text) : Option Text :=
  match s with
  | '#' :: rest =>
    let comment := Text.firstLine rest
    if comment.any isControl then none else some (rest.drop comment.length)
  | _ => some s

/-- Drops blanks, line breaks and comments between the items of a list. -/
def skipFiller : Nat → Text → Option Text
  | 0, s => some s
  | fuel + 1, s =>
    match s.dropWhile fun c => CharClass.isSpaceOrTab c || c == '\n' with
    | '#' :: rest => (skipComment ('#' :: rest)).bind (skipFiller fuel)
    | rest => some rest

/-! ### Keys -/

/-- Characters of a key without quotes. -/
def isKeyChar (c : Char) : Bool :=
  c.isAlphanum || c == '-' || c == '_'

/-- Reads one part of a key. -/
def keyPart : Reader String
  | '"' :: rest => (lineString (rest.length + 1) rest).map fun (t, s) => (String.ofList t, s)
  | '\'' :: rest => (plainString rest).map fun (t, s) => (String.ofList t, s)
  | s =>
    let part := s.takeWhile isKeyChar
    if part.isEmpty then none else some (String.ofList part, s.drop part.length)

/-- Reads a dotted key and the blanks behind it. -/
def key : Nat → Reader Key
  | 0, _ => none
  | fuel + 1, s => do
    let (part, rest) ← keyPart s
    match skipBlanks rest with
    | '.' :: rest =>
      let (more, rest) ← key fuel (skipBlanks rest)
      some (part :: more, rest)
    | rest => some ([part], rest)

/-- Reads a key with the sign of assignment behind it. -/
def keyAndSign : Reader Key := fun s => do
  let (k, rest) ← key (s.length + 1) s
  match rest with
  | '=' :: rest => some (k, skipBlanks rest)
  | _ => none

/-! ### Values -/

/-- Reads a value that does not nest. -/
def scalar (s : Text) : Except Fault (Data × Text) :=
  match s with
  | '"' :: _ | '\'' :: _ =>
    required ((string s).map fun (t, s) => (.text (String.ofList t), s))
  | _ =>
    if s.startsWith "true".toList then .ok (.bool true, s.drop 4)
    else if s.startsWith "false".toList then .ok (.bool false, s.drop 5)
    else
      match moment? s with
      | some (some rest) => .ok (.moment, rest)
      | some none => .error .malformed
      | none =>
        match basedNumber s, decimalNumber s with
        | some result, _ => .ok result
        | none, some (number, rest) => number.map fun number => (number, rest)
        | none, none => required (specialFloat s)

/-- The room for nested values. -/
def nestingRoom : Nat := 988

/-- What a list takes of the room of the values in it. -/
def listRoom : Nat := 2

/-- What an inline table takes of the room of the values in it. -/
def tableRoom : Nat := 3

mutual

/-- Reads any value, in the room there is for nested ones. -/
def value : Nat → Nat → Text → Except Fault (Data × Text)
  | 0, _, _ => .error .malformed
  | fuel + 1, room, s =>
    match s with
    | '[' :: rest =>
      if room < listRoom then .error .tooDeep
      else do
        match ← required (skipFiller rest.length rest) with
        | ']' :: rest => return (.list [], rest)
        | rest => listItems fuel (room - listRoom) [] rest
    | '\x7b' :: rest =>
      if room < tableRoom then .error .tooDeep
      else
        match skipBlanks rest with
        | '\x7d' :: rest => .ok (.table [], rest)
        | rest => inlineFields fuel (room - tableRoom) [] [] rest
    | s => scalar s

/-- Reads the items of a list from the first one on; `done` holds earlier ones, the last first. -/
def listItems : Nat → Nat → List Data → Text → Except Fault (Data × Text)
  | 0, _, _, _ => .error .malformed
  | fuel + 1, room, done, s => do
    let (item, rest) ← value fuel room s
    match ← required (skipFiller rest.length rest) with
    | ']' :: rest => return (.list (item :: done).reverse, rest)
    | ',' :: rest =>
      match ← required (skipFiller rest.length rest) with
      | ']' :: rest => return (.list (item :: done).reverse, rest)
      | rest => listItems fuel room (item :: done) rest
    | _ => .error .malformed

/-- Reads the settings of an inline table; `frozen` holds the keys of values that may not be
extended. -/
def inlineFields : Nat → Nat → List Key → Fields → Text → Except Fault (Data × Text)
  | 0, _, _, _, _ => .error .malformed
  | fuel + 1, room, frozen, fields, s => do
    let (k, rest) ← required (keyAndSign s)
    let (v, rest) ← value fuel room rest
    if leadsThrough frozen k then .error .malformed
    else
      let fields ← required (Fields.addAt false k v fields)
      match skipBlanks rest with
      | '\x7d' :: rest => return (.table fields, rest)
      | ',' :: rest =>
        let frozen := if Document.isContainer v then k :: frozen else frozen
        inlineFields fuel room frozen fields (skipBlanks rest)
      | _ => .error .malformed

end

/-! ### Lines -/

/-- Reads the end of a header and opens its table. -/
def header (isList : Bool) (s : Text) (d : Document) : Option ((Document × Key) × Text) := do
  let (k, rest) ← key (s.length + 1) (skipBlanks s)
  match isList, rest with
  | false, ']' :: rest => (d.openTable k).map fun d => ((d, k), rest)
  | true, ']' :: ']' :: rest => (d.openListTable k).map fun d => ((d, k), rest)
  | _, _ => none

/-- Reads what a line holds besides its comment. -/
def line (d : Document) (current : Key) (s : Text) : Except Fault ((Document × Key) × Text) :=
  match s with
  | '[' :: '[' :: rest => required (header true rest d)
  | '[' :: rest => required (header false rest d)
  | '#' :: _ => .ok ((d, current), s)
  | _ => do
    let (k, rest) ← required (keyAndSign s)
    let (v, rest) ← value (3 * rest.length + 3) nestingRoom rest
    let d ← required (d.set current k v)
    return ((d, current), rest)

/-- Reads the lines of a file. -/
def lines : Nat → Document → Key → Text → Except Fault Document
  | 0, _, _, _ => .error .malformed
  | fuel + 1, d, current, s =>
    match skipBlanks s with
    | [] => .ok d
    | '\n' :: rest => lines fuel d current rest
    | rest => do
      let ((d, current), rest) ← line d current rest
      match ← required (skipComment (skipBlanks rest)) with
      | [] => return d
      | '\n' :: rest => lines fuel d current rest
      | _ => .error .malformed

/-- Turns every carriage return before a newline into nothing. -/
def joinLineEnds : Text → Text
  | '\r' :: '\n' :: rest => '\n' :: joinLineEnds rest
  | c :: rest => c :: joinLineEnds rest
  | [] => []

/-- The table that a file spells. -/
def parse (text : Text) : Except Fault Data :=
  let s := joinLineEnds text
  (lines (s.length + 1) .empty [] s).map fun d => .table d.fields

end Toml

end FactoryDowngrade
