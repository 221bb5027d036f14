import FactoryDowngrade.CallSite
import FactoryDowngrade.Ruby.Invocation

/-!
# Persistence evidence

Detectors look through the text around a call for signs that its record must really be stored.
Each leaves one record that says whether it found a sign, and which. One match is enough to
require persistence.
-/

namespace FactoryDowngrade

/-- What one detector found about one call site. -/
structure Evidence where
  signalName : String
  isMatch : Bool
  detail : String
deriving DecidableEq, Repr

/-- Whether a record must be stored. -/
inductive PersistenceSignal where
  | requiresPersistence
  | noEvidence
deriving DecidableEq, Repr

namespace PersistenceSignal

/-- The name of a signal. -/
def name : PersistenceSignal → String
  | requiresPersistence => "requires_persistence"
  | noEvidence => "no_evidence"

/-- The signal with the given name. -/
def ofName? (name : String) : Option PersistenceSignal :=
  [requiresPersistence, noEvidence].find? fun s => s.name = name

/-- One match requires persistence. -/
def ofEvidence (evidence : List Evidence) : PersistenceSignal :=
  if evidence.any (·.isMatch) then requiresPersistence else noEvidence

end PersistenceSignal

/-- A text with its masked form and the invocations found in it. -/
structure SpecText where
  raw : Text
  masked : Text
  invocations : List Invocation

namespace SpecText

/-- Masks a text and finds its invocations. -/
def ofText (raw : Text) : SpecText :=
  let masked := mask raw
  ⟨raw, masked, Invocation.all masked⟩

/-- The invocations whose arguments hold the call. -/
def around (t : SpecText) (site : CallSite) : List Invocation :=
  t.invocations.filter (·.holds site.sourceSpan.start site.sourceSpan.stop)

end SpecText

namespace Evidence

/-- A stretch of text on one line, cut after 77 characters if it has more than 80. -/
def snippet (stretch : Text) : Text :=
  let words := (stretch.words.intersperse [' ']).flatten
  if 80 < words.length then words.take 77 ++ "...".toList else words

/-- A stretch of a text with the number of its line. -/
def describe (text : Text) (start stop : Nat) : String :=
  let line := (text.take start).count '\n' + 1
  s!"`{String.ofList (snippet (text.slice start stop))}` at line {line}"

/-- An invocation with its receiver chain and its arguments. -/
def describeInvocation (text : Text) (i : Invocation) : String :=
  describe text (i.nameStop - i.callee.length) (i.argsStop + if i.parenthesized then 1 else 0)

/-- What the first matching pattern finds in a text. -/
def firstMatch? (t : SpecText) (patterns : List Pattern) : Option String :=
  patterns.findSome? fun p =>
    (p.search? (Cursor.start t.masked)).map fun (first, last) =>
      describe t.raw first.offset last.offset

/-- The first invocation with a fitting callee whose arguments hold the call. -/
def containing? (t : SpecText) (site : CallSite) (fits : Text → Bool) : Option String :=
  ((t.around site).find? fun i => fits i.callee).map (describeInvocation t.raw)

/-- Whether a name is referred to between two offsets of a masked text. -/
def refersWithin (masked : Text) (name : Text) (start stop : Nat) : Bool :=
  (Reference.standalone name).occurs
    ⟨(masked.take start).reverse, masked.slice start stop⟩

/-- The first invocation with a fitting callee whose arguments refer to the name. -/
def receiving? (t : SpecText) (name : Text) (fits : Text → Bool) : Option String :=
  (t.invocations.find? fun i =>
    i.argsStart != i.argsStop && fits i.callee
      && refersWithin t.masked name i.argsStart i.argsStop).map (describeInvocation t.raw)

/-- A call of a method on the bound name. -/
def methodOn (name : Text) : Pattern :=
  .chain [Reference.pattern name, .blanks, .maybe (.char '&'), .char '.', .blanks]

/-- A call of a method on an association of the bound name, up to the dot. -/
def associationOf (name : Text) : Pattern :=
  .chain [methodOn name, .one CharClass.isLowerStart, .wordRun, .blanks]

/-- The dot that leads to a method, and its blanks. -/
def methodDot : Pattern :=
  .chain [.maybe (.char '&'), .char '.', .blanks]

end Evidence

end FactoryDowngrade
