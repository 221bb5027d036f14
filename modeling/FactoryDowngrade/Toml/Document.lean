import FactoryDowngrade.Data.Value

/-!
# Documents of configuration files

A document grows by table headers and by settings under dotted keys. What was written once may not
be written again: a table is declared at most once, a table made by a dotted key is not reopened
by a header, and inline values are never extended.
-/

namespace FactoryDowngrade

namespace Toml

/-- A dotted key. -/
abbrev Key := List String

/-- The fields of a table. -/
abbrev Fields := List (String × Data)

namespace Fields

/-- The value of a field. -/
def get? (fields : Fields) (name : String) : Option Data :=
  fields.lookup name

/-- Sets a field, in its place if it is there and at the end if not. -/
def set (fields : Fields) (name : String) (value : Data) : Fields :=
  match fields with
  | [] => [(name, value)]
  | (other, old) :: rest =>
    if other = name then (name, value) :: rest else (other, old) :: set rest name value

/-- Changes the table at a key, which is made if it is not there. Through a list the way leads to
its last table, unless `throughLists` forbids it. -/
def alter (throughLists : Bool) (change : Fields → Option Fields) :
    Key → Fields → Option Fields
  | [], fields => change fields
  | name :: key, fields =>
    match get? fields name with
    | none => (alter throughLists change key []).map fun inner => set fields name (.table inner)
    | some (.table inner) =>
      (alter throughLists change key inner).map fun inner => set fields name (.table inner)
    | some (.list items) =>
      match throughLists, items.getLast? with
      | true, some (.table inner) =>
        (alter throughLists change key inner).map fun inner =>
          set fields name (.list (items.dropLast ++ [.table inner]))
      | _, _ => none
    | some _ => none

/-- Adds a field that is not there yet. -/
def add (name : String) (value : Data) (fields : Fields) : Option Fields :=
  match get? fields name with
  | some _ => none
  | none => some (set fields name value)

/-- Adds a table to the list of tables with a name. -/
def addTable (name : String) (fields : Fields) : Option Fields :=
  match get? fields name with
  | none => some (set fields name (.list [.table []]))
  | some (.list items) => some (set fields name (.list (items ++ [.table []])))
  | some _ => none

/-- Adds a value under a dotted key. -/
def addAt (throughLists : Bool) (key : Key) (value : Data) (fields : Fields) : Option Fields :=
  match key.getLast? with
  | none => none
  | some name => alter throughLists (add name value) key.dropLast fields

end Fields

/-- Whether a key leads to or through one of some keys. -/
def leadsThrough (keys : List Key) (key : Key) : Bool :=
  keys.any fun k => !k.isEmpty && k.isPrefixOf key

/-- A document underway: its fields, the keys whose values may not be extended, the keys that are
not to be declared again, and those that will not be once a header comes. -/
structure Document where
  fields : Fields
  frozen : List Key
  declared : List Key
  pending : List Key

namespace Document

/-- A document without content. -/
def empty : Document :=
  ⟨[], [], [], []⟩

/-- Whether a value is a list or a table. -/
def isContainer : Data → Bool
  | .list _ => true
  | .table _ => true
  | _ => false

/-- Declares the tables of dotted keys for good, as every header does. -/
def settle (d : Document) : Document :=
  { d with declared := d.pending ++ d.declared, pending := [] }

/-- Opens a table. -/
def openTable (key : Key) (d : Document) : Option Document :=
  let d := d.settle
  if d.declared.contains key || leadsThrough d.frozen key then none
  else
    (Fields.alter true some key d.fields).map fun fields =>
      { d with fields, declared := key :: d.declared }

/-- Opens the next table of a list of tables. What was declared in the one before it does not
bind the new one. -/
def openListTable (key : Key) (d : Document) : Option Document :=
  let d := d.settle
  if leadsThrough d.frozen key then none
  else
    let outside (keys : List Key) : List Key := keys.filter fun k => !key.isPrefixOf k
    match key.getLast? with
    | none => none
    | some name =>
      (Fields.alter true (Fields.addTable name) key.dropLast d.fields).map fun fields =>
        { d with fields, frozen := outside d.frozen, declared := key :: outside d.declared }

/-- The keys of the tables that a dotted key makes on its way, under a header. -/
def waypoints (header key : Key) : List Key :=
  ((List.range key.length).drop 1).map fun n => header ++ key.take n

/-- Sets a value under a header. -/
def set (header key : Key) (value : Data) (d : Document) : Option Document :=
  let made := waypoints header key
  if made.any d.declared.contains || leadsThrough d.frozen (header ++ key.dropLast) then none
  else
    (Fields.addAt true (header ++ key) value d.fields).map fun fields =>
      { d with
        fields
        frozen := if isContainer value then (header ++ key) :: d.frozen else d.frozen
        pending := made ++ d.pending }

end Document

end Toml

end FactoryDowngrade
