import FactoryDowngrade.Text.Pattern

/-!
# References to a bound name

A name counts as a reference only where it is not the tail of something longer: no word character,
sigil, colon or dot may stand before a local name, and no word character or `@` before an instance
variable.
-/

namespace FactoryDowngrade

namespace Reference

/-- Whether a character before a name makes it part of something else. -/
def refusedBefore (name : Text) (c : Char) : Bool :=
  if name.head? = some '@' then CharClass.isWord c || c == '@'
  else CharClass.isWord c || c == '@' || c == '$' || c == ':' || c == '.'

/-- The marks that begin a line, a statement or a block body make a name part of nothing. -/
theorem refusedBefore_mark (name : Text) :
    ∀ x ∈ ['\n', ';', '\x7b', '|'], refusedBefore name x = false := by
  intro x hx
  simp only [List.mem_cons, List.not_mem_nil, or_false] at hx
  rw [refusedBefore]
  rcases hx with rfl | rfl | rfl | rfl <;> split <;> decide

/-- The name where nothing before it makes it part of something else. -/
def pattern (name : Text) : Pattern :=
  .seq (.notAfter (refusedBefore name)) (.literal name)

/-- Whether a character after a method name makes the name a longer one. -/
def extendsName (c : Char) : Bool :=
  CharClass.isWord c || c == '?' || c == '!'

/-- The end of a method name. -/
def nameEnd : Pattern :=
  .notBefore extendsName

/-- Neither a longer name nor a key or symbol colon comes next; two colons are a constant path. -/
def notKey : Pattern :=
  .notAhead (.either (.one extendsName) (.seq (.char ':') (.notBefore (· == ':'))))

/-- The colon of a key whose value is left out, as in `find_by(user:)`. -/
def omittedValue : Pattern :=
  .chain [.char ':', .run CharClass.isSpaceOrTab, .ahead (.either (.anyOf ",)\x7d") .textEnd)]

/-- A whole reference to the name; a key with its value left out reads the name as well. -/
def standalone (name : Text) : Pattern :=
  .seq (pattern name) (.either notKey omittedValue)

end Reference

end FactoryDowngrade
