import FactoryDowngrade.Text.LineIndex
import FactoryDowngrade.Ruby.Binding
import FactoryDowngrade.Ruby.Mask
import FactoryDowngrade.Ruby.Reference
import FactoryDowngrade.Ruby.Statement

/-!
# Construction call sites

A construction call names one of three strategies, alone or on `FactoryBot` or `FactoryGirl`, and
takes a factory name first. Calls are found in the masked text, so strings and comments hold none;
factory names are read from the text itself. A call whose arguments cannot be read is reported
with its fault and otherwise left alone.
-/

namespace FactoryDowngrade

/-- The construction strategies, named after their methods. -/
inductive Variant where
  | build
  | buildStubbed
  | create
deriving DecidableEq, Repr

namespace Variant

/-- The method of a strategy. -/
def method : Variant → String
  | build => "build"
  | buildStubbed => "build_stubbed"
  | create => "create"

/-- The strategies, in the order in which a scan tries their methods. -/
def all : List Variant :=
  [buildStubbed, build, create]

/-- The strategy with the given method. -/
def ofMethod? (method : String) : Option Variant :=
  all.find? fun v => v.method = method

/-- The relative cost of a strategy. -/
def cost : Variant → Nat
  | build => 0
  | buildStubbed => 1
  | create => 2

/-- A strategy is read back from its method name. -/
theorem ofMethod?_method (v : Variant) : ofMethod? v.method = some v := by
  cases v <;> decide

end Variant

/-- Why the arguments of a call cannot be read. -/
inductive SiteFault where
  | unbalancedArguments
  | unnamedFactory
  | reported (text : String)
deriving DecidableEq, Repr

namespace SiteFault

/-- The wording of a fault. -/
def message : SiteFault → String
  | unbalancedArguments => "unbalanced parentheses in argument list"
  | unnamedFactory => "first argument is not a factory name literal"
  | reported text => text

end SiteFault

/-- A construction call found in a text. -/
structure CallSite where
  id : String
  variant : Variant
  schemaName : Option Text
  argumentText : Text
  bindingName : Option Text
  sourceSpan : SourceSpan
  calleeSpan : SourceSpan
  enclosingVariant : Option Variant
  fault : Option SiteFault
deriving DecidableEq, Repr

namespace CallSite

/-- Whether the arguments of the call could be read. -/
def isParsed (s : CallSite) : Bool :=
  s.fault.isNone

/-- The name of a call site: its position, strategy and factory. -/
def idOf (position : Position) (variant : String) (schema : Option String) : String :=
  let name := match schema with
    | none | some "" => "<unparsed>"
    | some name => name
  s!"site:L{position.line}:C{position.column}:{variant}:{name}"

end CallSite

namespace CallSite

/-! ### Factory names -/

/-- Characters of a factory name in quotes. -/
def isFactoryChar (c : Char) : Bool :=
  CharClass.isWord c || c == '/'

/-- The factory name at the front of an argument list: a symbol, a quoted symbol or a string. -/
def factoryName? (arguments : Text) : Option Text :=
  match arguments.trimLeft with
  | ':' :: '"' :: rest =>
    let name := rest.takeWhile (· ≠ '"')
    if name.isEmpty || (rest.drop name.length).isEmpty then none else some name
  | ':' :: c :: rest =>
    if CharClass.isNameStart c then some (c :: rest.takeWhile CharClass.isWord) else none
  | quote :: c :: rest =>
    let more := rest.takeWhile isFactoryChar
    if (quote == '"' || quote == '\'') && CharClass.isNameStart c
        && (rest.drop more.length).head?.any ['"', '\''].contains then
      some (c :: more)
    else none
  | _ => none

/-- The factory name between two offsets of a text, or the fault of having none. -/
def factoryName (text : Text) (start stop : Nat) : Except SiteFault Text :=
  match factoryName? (text.slice start stop) with
  | some name => .ok name
  | none => .error .unnamedFactory

/-! ### Calls as they stand in the text -/

/-- The head of a call: where it starts, where its method name starts and ends, and the strategy. -/
structure Head where
  first : Cursor
  callee : Cursor
  last : Cursor
  variant : Variant

/-- A call with the ranges it takes in the text. -/
structure Call where
  variant : Variant
  start : Nat
  stop : Nat
  calleeStart : Nat
  calleeStop : Nat
  argsStart : Nat
  argsStop : Nat
  schemaName : Option Text
  fault : Option SiteFault
deriving DecidableEq, Repr

/-- Characters before a word that make it something other than a call without a receiver. -/
def spoilsBefore (c : Char) : Bool :=
  CharClass.isWord c || ['?', '!', '.', ':', '@', '$'].contains c

/-- The two factory libraries as receivers. -/
def receiver : Pattern :=
  .chain [.wordOf "FactoryBot" ["FactoryGirl"], .blanks, .char '.', .blanks]

/-- The head of a call at the cursor, with the place behind the method name. -/
def headAt? (c : Cursor) : Option (Head × Cursor) :=
  if c.follows spoilsBefore then none
  else
    ((Pattern.maybe receiver).ends c).findSome? fun callee =>
      Variant.all.findSome? fun variant =>
        ((Pattern.seq (.word variant.method) Reference.notKey).match? callee).map fun last =>
          (⟨c, callee, last, variant⟩, last)

/-- The end of a line that begins a method definition. -/
def definitionLead : Pattern :=
  .chain [.wordEdge, .word "def", .one CharClass.isBlank, .blanks,
    .maybe (.chain [.word "self", .blanks, .char '.', .blanks]), .textEnd]

/-- Whether the head is the name in a method definition. -/
def Head.isDefinition (h : Head) : Bool :=
  definitionLead.occurs (Cursor.start h.first.lineHead)

/-- A call with its argument range; its factory name is read from the text itself. -/
def Head.call (h : Head) (text : Text) (argsStart argsStop stop : Nat) : Call :=
  let name := factoryName? (text.slice argsStart argsStop)
  { variant := h.variant
    start := h.first.offset
    stop
    calleeStart := h.callee.offset
    calleeStop := h.last.offset
    argsStart
    argsStop
    schemaName := name
    fault := if name.isNone then some .unnamedFactory else none }

/-- The call that runs to the end of its line because its parenthesis is never closed. -/
def Head.unbalanced (h : Head) : Call :=
  let lineStop := h.last.offset + h.last.after.firstLine.length
  { variant := h.variant
    start := h.first.offset
    stop := lineStop
    calleeStart := h.callee.offset
    calleeStop := h.last.offset
    argsStart := h.last.offset + 1
    argsStop := lineStop
    schemaName := none
    fault := some .unbalancedArguments }

/-- Whether a factory name begins here; a constant path does not. -/
def beginsName (text : Text) : Bool :=
  match text with
  | ':' :: ':' :: _ => false
  | c :: _ => c == ':' || c == '"' || c == '\''
  | [] => false

/-- The call that a head begins. Without parentheses it is one only before a factory name. -/
def Head.call? (h : Head) (text : Text) : Option Call :=
  if h.isDefinition then none
  else
    let nameStop := h.last.offset
    if h.last.after.head? = some '(' then
      match Bracket.closeDistance BracketRole.ofChar [] h.last.after with
      | none => some h.unbalanced
      | some distance =>
        some (h.call text (nameStop + 1) (nameStop + distance) (nameStop + distance + 1))
    else
      let gap := h.last.after.takeWhile CharClass.isSpaceOrTab
      let argsStart := nameStop + gap.length
      if !gap.isEmpty && beginsName (text.drop argsStart) then
        let argsStop := argsStart + Statement.argumentLength (h.last.after.drop gap.length)
        some (h.call text argsStart argsStop argsStop)
      else none

/-- The calls of a text, in order. -/
def calls (text masked : Text) : List Call :=
  (Cursor.readAll headAt? (Cursor.start masked)).filterMap fun h => h.call? text

namespace Call

/-- Whether a call lies in the argument range of another. -/
def holds (outer inner : Call) : Bool :=
  outer.argsStart ≤ inner.start && inner.stop ≤ outer.argsStop

/-- The innermost other call whose arguments hold this one. Calls differ in where they start. -/
def enclosing? (all : List Call) (c : Call) : Option Call :=
  (all.filter fun other => other.start != c.start && other.holds c).foldl (fun best other =>
    match best with
    | none => some other
    | some last => if last.argsStart ≤ other.argsStart then some other else some last) none

end Call

/-! ### Sites -/

/-- The site of a call among the calls of its text. A call inside another one, or one that cannot
be read, has no name bound to it. -/
def ofCall (text masked : Text) (index : LineIndex) (blocks : List LazyBinding)
    (all : List Call) (c : Call) : CallSite :=
  let span := index.span c.start c.stop
  let enclosing := c.enclosing? all
  { id := idOf span.startPosition c.variant.method (c.schemaName.map String.ofList)
    variant := c.variant
    schemaName := c.schemaName
    argumentText := text.slice c.argsStart c.argsStop
    bindingName :=
      if enclosing.isNone && c.fault.isNone then
        boundName? blocks (Cursor.place masked c.start) c.stop
      else none
    sourceSpan := span
    calleeSpan := index.span c.calleeStart c.calleeStop
    enclosingVariant := enclosing.map (·.variant)
    fault := c.fault }

/-- The construction call sites of a text, in order. -/
def extract (text : Text) : List CallSite :=
  let masked := mask text
  let all := calls text masked
  all.map (ofCall text masked (LineIndex.ofText text) (LazyBinding.all masked) all)

end CallSite

end FactoryDowngrade
