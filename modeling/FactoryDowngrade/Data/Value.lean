import FactoryDowngrade.Number.Binary64

/-!
# Dynamic data

The values that configuration files and exchanged records are made of. A moment is a date or time
of a configuration file, which no setting accepts.
-/

namespace FactoryDowngrade

/-- A value of unknown shape. -/
inductive Data where
  | null
  | bool (value : Bool)
  | int (value : Int)
  | float (value : Binary64)
  | text (value : String)
  | moment
  | list (items : List Data)
  | table (fields : List (String × Data))

namespace Data

/-- The field of a table; of several with one name the last. -/
def field? (fields : List (String × Data)) (name : String) : Option Data :=
  (fields.reverse.find? fun f => f.1 = name).map (·.2)

end Data

end FactoryDowngrade
