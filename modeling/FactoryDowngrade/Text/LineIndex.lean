import FactoryDowngrade.Text.CharClass

/-!
# Lines and columns

A line index holds the offsets at which the lines of a text start. A place is looked up by the
number of lines that start at or before it; lines and columns count from one.
-/

namespace FactoryDowngrade

/-- A line and a column, both counted from one. -/
structure Position where
  line : Nat
  column : Nat
deriving DecidableEq, Repr

/-- A half-open range of offsets with the positions of its two ends. -/
structure SourceSpan where
  start : Nat
  stop : Nat
  startPosition : Position
  stopPosition : Position
deriving DecidableEq, Repr

namespace SourceSpan

/-- Whether the second span lies in the first. -/
def contains (outer inner : SourceSpan) : Bool :=
  outer.start ≤ inner.start && inner.stop ≤ outer.stop

/-- Whether each span starts before the other stops. -/
def overlaps (a b : SourceSpan) : Bool :=
  a.start < b.stop && b.start < a.stop

/-- Overlapping is symmetric. -/
theorem overlaps_comm (a b : SourceSpan) : a.overlaps b = b.overlaps a := by
  simp [overlaps, Bool.and_comm]

end SourceSpan

/-- The offsets of the line starts of a text, in ascending order. -/
structure LineIndex where
  starts : List Nat
deriving DecidableEq, Repr

namespace LineIndex

/-- The offsets behind the line breaks of a text that begins at `offset`. -/
def startsFrom (offset : Nat) : Text → List Nat
  | [] => []
  | c :: rest =>
    if c = '\n' then (offset + 1) :: startsFrom (offset + 1) rest else startsFrom (offset + 1) rest

/-- The index of a text. -/
def ofText (text : Text) : LineIndex :=
  ⟨0 :: startsFrom 0 text⟩

/-- The position of an offset. -/
def position (index : LineIndex) (offset : Nat) : Position :=
  let passed := index.starts.takeWhile (· ≤ offset)
  ⟨passed.length, offset - passed.getLast?.getD 0 + 1⟩

/-- The span between two offsets. -/
def span (index : LineIndex) (start stop : Nat) : SourceSpan :=
  ⟨start, stop, index.position start, index.position stop⟩

end LineIndex

end FactoryDowngrade
