import FactoryDowngrade.Text.CharClass

/-!
# Path names

A path name is a list of components, absolute or relative. Repeated and final slashes and single
dots vanish when a name is read; double dots stay. Exactly two slashes in front are kept apart
from one.
-/

namespace FactoryDowngrade

/-- A path name, with the number of slashes in front of an absolute one. -/
structure PathName where
  slashes : Nat
  parts : List String
deriving DecidableEq, Repr

namespace PathName

/-- The components of a text between slashes, the empty ones and single dots left out. -/
def components (text : String) : List String :=
  ((text.toList.splitOn '/').map String.ofList).filter fun part => part ≠ "" && part ≠ "."

/-- The path name that a text spells. -/
def ofString (text : String) : PathName :=
  let front := (text.toList.takeWhile (· == '/')).length
  ⟨if front = 0 then 0 else if front = 2 then 2 else 1, components text⟩

/-- Whether the name starts at the root. -/
def isAbsolute (p : PathName) : Bool :=
  p.slashes ≠ 0

/-- The text of a path name; a relative one without components is a dot. -/
def toText (p : PathName) : String :=
  if p.slashes = 0 && p.parts.isEmpty then "."
  else String.ofList (List.replicate p.slashes '/') ++ "/".intercalate p.parts

/-- The last component, or nothing. -/
def name (p : PathName) : String :=
  p.parts.getLast?.getD ""

/-- The path name without its last component. -/
def parent (p : PathName) : PathName :=
  { p with parts := p.parts.dropLast }

/-- A path name seen from another one. -/
def join (base p : PathName) : PathName :=
  if p.isAbsolute then p else { base with parts := base.parts ++ p.parts }

/-- A path name with one more component. -/
def child (base : PathName) (name : String) : PathName :=
  { base with parts := base.parts ++ [name] }

/-- The part of a file name before its extension. A dot at either end of the name begins none. -/
def stemOf (name : String) : String :=
  let chars := name.toList
  let extension := chars.reverse.takeWhile (· ≠ '.')
  let before := chars.length - extension.length
  if extension.length = chars.length || extension.isEmpty || before ≤ 1 then name
  else String.ofList (chars.take (before - 1))

/-- Components with each double dot taking away the one before it; at the root it does nothing. -/
def normalize (parts : List String) : List String :=
  (parts.foldl (fun done part => if part = ".." then done.tail else part :: done) []).reverse

/-- The absolute components that a path name leads to from a directory. -/
def resolve (cwd : List String) (p : PathName) : List String :=
  normalize (if p.isAbsolute then p.parts else cwd ++ p.parts)

/-- The absolute path name with the given components. -/
def absolute (parts : List String) : PathName :=
  ⟨1, parts⟩

end PathName

end FactoryDowngrade
