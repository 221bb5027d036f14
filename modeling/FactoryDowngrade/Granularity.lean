import FactoryDowngrade.Ruby.Mask
import FactoryDowngrade.Text.Pattern
import FactoryDowngrade.Text.Quoted

/-!
# Granularity of a spec file

How much of a system a spec file runs decides whether its records may be stubbed at all. A
granularity that is given and known is taken as it is. Otherwise cues in the code decide, and the
widest scope with a cue wins. Without a cue the default holds, and a note says so.
-/

namespace FactoryDowngrade

/-- The scope of a spec file. -/
inductive Granularity where
  | unit
  | integration
  | request
  | endToEnd
deriving DecidableEq, Repr

/-- Where a granularity was taken from. -/
inductive GranularitySource where
  | explicit
  | inferred
  | default
deriving DecidableEq, Repr

/-- How much a note matters. -/
inductive NoteLevel where
  | info
  | warning
  | error
deriving DecidableEq, Repr

/-- A remark in a plan or report. -/
structure Note where
  level : NoteLevel
  code : String
  message : String
deriving DecidableEq, Repr

namespace NoteLevel

/-- The name of a level. -/
def name : NoteLevel → String
  | info => "info"
  | warning => "warning"
  | error => "error"

/-- The level with the given name. -/
def ofName? (name : String) : Option NoteLevel :=
  [info, warning, error].find? fun l => l.name = name

end NoteLevel

namespace GranularitySource

/-- The name of a source. -/
def name : GranularitySource → String
  | explicit => "explicit"
  | inferred => "inferred"
  | default => "default"

end GranularitySource

namespace Granularity

/-- The name of a granularity. -/
def name : Granularity → String
  | unit => "unit"
  | integration => "integration"
  | request => "request"
  | endToEnd => "end_to_end"

/-- All granularities. -/
def all : List Granularity :=
  [unit, integration, request, endToEnd]

/-- The granularity with exactly the given name. -/
def ofName? (name : String) : Option Granularity :=
  all.find? fun g => g.name = name

/-- A scope is read back from its name. -/
theorem ofName?_name (g : Granularity) : ofName? g.name = some g := by
  cases g <;> decide

/-- Every name that a granularity may be given by. -/
def aliases : List (String × Granularity) :=
  [("unit", unit), ("model", unit), ("integration", integration), ("job", integration),
    ("worker", integration), ("request", request), ("request_level", request),
    ("controller", request), ("end_to_end", endToEnd), ("e2e", endToEnd), ("system", endToEnd),
    ("feature", endToEnd)]

/-- The small letters that stand for a character; only those that can yield an ASCII letter
matter to the aliases. -/
def lower (c : Char) : List Char :=
  if c.toNat = 0x212A then ['k']
  else if c.toNat = 0x130 then ['i', Char.ofNat 0x307]
  else [c.toLower]

/-- The granularity that a text names; blanks around it, case and hyphens do not matter. -/
def parse? (text : Text) : Option Granularity :=
  let name := (text.trim.flatMap lower).map fun c => if c = '-' then '_' else c
  aliases.lookup (String.ofList name)

/-! ### Cues in the code -/

/-- A `type:` tag with one of the given values. -/
def typeCue (first : String) (rest : List String) : Pattern :=
  .chain [.wordEdge, .word "type", .blanks, .either (.char ':') (.word "=>"), .blanks, .char ':',
    .wordOf first rest, .wordEdge]

/-- The cues of a whole system under test: browser steps and feature blocks. -/
def endToEndCues : List Pattern :=
  let notCalledOn : Pattern := .notAfter fun c => CharClass.isWord c || c == '.'
  [typeCue "system" ["feature"],
    .chain [.wordEdge, .maybe (.word "RSpec."), .word "feature", .one CharClass.isBlank, .blanks,
      .anyOf "'\""],
    .chain [notCalledOn, .word "visit", .blanks, .maybe (.char '('), .blanks,
      .one fun c => !CharClass.isBlank c],
    .chain [notCalledOn, .word "page", .blanks, .char '.', .blanks,
      .wordOf "has_" ["find", "click", "fill_in"]]]

/-- The cues of requests against an application. -/
def requestCues : List Pattern :=
  [typeCue "request" ["controller", "routing"],
    .chain [.lineStart, .blanks, .wordOf "get" ["post", "put", "patch", "delete", "head"], .blanks,
      .maybe (.char '('), .blanks,
      .either (.anyOf "'\"")
        (.chain [.one CharClass.isWord, .wordRun, .char '_', .wordOf "path" ["url"], .wordEdge])]]

/-- The cues of several units at work together. -/
def integrationCues : List Pattern :=
  [typeCue "job" ["worker", "integration", "mailbox", "channel"]]

/-- The cues of a single unit. -/
def unitCues : List Pattern :=
  [typeCue "model" ["helper", "mailer", "service", "lib", "policy"]]

/-- The cues of each granularity, the widest scope first. -/
def cues : List (Granularity × List Pattern) :=
  [(endToEnd, endToEndCues), (request, requestCues), (integration, integrationCues),
    (unit, unitCues)]

/-- The granularity that the code of a masked text shows. -/
def ofMasked? (masked : Text) : Option Granularity :=
  (cues.find? fun (_, patterns) => patterns.any (·.occurs (Cursor.start masked))).map (·.1)

/-- The granularity that the code of a text shows. -/
def infer? (text : Text) : Option Granularity :=
  ofMasked? (mask text)

/-! ### Resolution -/

/-- A granularity, where it was taken from, and what there is to say about that. -/
structure Resolution where
  granularity : Granularity
  source : GranularitySource
  notes : List Note
deriving DecidableEq, Repr

/-- The note about a given granularity that names none. -/
def unknownNote (given : Text) : Note :=
  ⟨.warning, "granularity_invalid",
    s!"Ignoring unrecognized granularity {String.ofList (Quoted.literal given)}"⟩

/-- The note about a text without a cue. -/
def defaultNote (g : Granularity) : Note :=
  ⟨.warning, "granularity_unresolved",
    s!"No explicit granularity and no textual cue; using default '{g.name}'"⟩

/-- The granularity of a text. -/
def resolve (text : Text) (explicit : Option Text) (fallback : Granularity) : Resolution :=
  match explicit.bind parse? with
  | some g => ⟨g, .explicit, []⟩
  | none =>
    let notes := (explicit.map unknownNote).toList
    match infer? text with
    | some g => ⟨g, .inferred, notes⟩
    | none => ⟨fallback, .default, notes ++ [defaultNote fallback]⟩

end Granularity

end FactoryDowngrade
