import FactoryDowngrade.Data.Value
import FactoryDowngrade.Text.Quoted

/-!
# Laying data out as text

Values are written over several lines, two spaces deeper at each level, with the fields of a table
in the order of their names; an empty list or table stays on one line. Characters keep their own
form except quotes, backslashes and the controls below the space.
-/

namespace FactoryDowngrade

namespace Data

/-- The written form of one character of a string. -/
def escape (c : Char) : List Char :=
  match c with
  | '"' => ['\\', '"']
  | '\\' => ['\\', '\\']
  | '\n' => ['\\', 'n']
  | '\r' => ['\\', 'r']
  | '\t' => ['\\', 't']
  | c =>
    if c.toNat = 8 then ['\\', 'b']
    else if c.toNat = 12 then ['\\', 'f']
    else if c.toNat < 32 then '\\' :: 'u' :: Quoted.hex 4 c.toNat
    else [c]

/-- A string between its quotes. -/
def quoted (s : String) : String :=
  String.ofList ('"' :: (s.toList.flatMap escape ++ ['"']))

/-- Fields in the order of their names. -/
def sortFields (fields : List (String × String)) : List (String × String) :=
  fields.mergeSort fun a b => a.1 ≤ b.1

/-- A bracketed block of items, each on a line of its own, at a depth of indentation. -/
def block (opener closer : String) (depth : Nat) (items : List String) : String :=
  if items.isEmpty then opener ++ closer
  else
    let indent (n : Nat) : String := String.ofList (List.replicate (2 * n) ' ')
    opener ++ "\n" ++ ",\n".intercalate (items.map (indent (depth + 1) ++ ·)) ++ "\n"
      ++ indent depth ++ closer

/-- The layout of a float; one that is not finite is written as nothing. -/
def layoutFloat (x : Binary64) : String :=
  match x with
  | .finite .. => String.ofList (x.toTextIn Binary64.compact)
  | _ => "null"

mutual

/-- Whether every whole number in a value has 64 bits, with or without a sign. Only such values
can be exchanged as text. -/
def isPortable : Data → Bool
  | int value => -Nat.pow 2 63 ≤ value && value < Nat.pow 2 64
  | list items => arePortable items
  | table fields => fieldsArePortable fields
  | _ => true

/-- Whether the items of a list are all portable. -/
def arePortable : List Data → Bool
  | [] => true
  | item :: rest => isPortable item && arePortable rest

/-- Whether the fields of a table are all portable. -/
def fieldsArePortable : List (String × Data) → Bool
  | [] => true
  | (_, value) :: rest => isPortable value && fieldsArePortable rest

end

mutual

/-- The layout of a value at a depth of indentation. -/
def layoutAt (depth : Nat) : Data → String
  | null => "null"
  | bool value => if value then "true" else "false"
  | int value => toString value
  | float value => layoutFloat value
  | text value => quoted value
  | moment => "null"
  | list items => block "[" "]" depth (layoutItems (depth + 1) items)
  | table fields =>
    let written := sortFields (layoutFields (depth + 1) fields)
    block "\x7b" "\x7d" depth (written.map fun (name, value) => quoted name ++ ": " ++ value)

/-- The layouts of the items of a list. -/
def layoutItems (depth : Nat) : List Data → List String
  | [] => []
  | item :: rest => layoutAt depth item :: layoutItems depth rest

/-- The layouts of the fields of a table. -/
def layoutFields (depth : Nat) : List (String × Data) → List (String × String)
  | [] => []
  | (name, value) :: rest => (name, layoutAt depth value) :: layoutFields depth rest

end

/-- The layout of a value. -/
def layout (value : Data) : String :=
  layoutAt 0 value

end Data

end FactoryDowngrade
