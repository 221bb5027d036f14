import FactoryDowngrade.Evidence.Basic

/-!
# Detectors

Five detectors look for signs of persistence.

* A persistence accessor reads identity or stored state through the bound name, or writes it.
* An association mutation creates related records through the bound name.
* A query dependency passes the record to a lookup, or queries one of its associations.
* External consumption passes the record to a job, a service, a mailer or an enqueue matcher.
* Nested construction makes the record an argument of another construction call.

Lookups, boundaries and nesting also tell on a record that is built inline, without a name. Nested
construction does not ask how the outer record is built, since that may change in the same run.
-/

namespace FactoryDowngrade

/-- The detectors, in their usual order. -/
inductive Detector where
  | persistenceAccessor
  | associationMutation
  | queryDependency
  | externalConsumption
  | nestedConstruction
deriving DecidableEq, Repr

/-- Class name endings that count as jobs and as services besides the usual ones. -/
structure Suffixes where
  jobs : List Text
  services : List Text
deriving DecidableEq, Repr

/-! ### Callees -/

namespace Callee

/-- One of the given names. -/
def nameIn (names : List Text) : Pattern :=
  match names with
  | [] => .notAhead .empty
  | first :: rest => .choice (.literal first) (rest.map .literal)

/-- One of the given words. -/
def wordIn (words : List String) : Pattern :=
  nameIn (words.map String.toList)

/-- A call step such as `.first` or `.valid?`. -/
def step : Pattern :=
  .chain [.char '.', .one CharClass.isWord, .wordRun, .maybe (.anyOf "?!")]

/-- A constant name. -/
def constant : Pattern :=
  .seq (.one Char.isUpper) .wordRun

/-- The lookups of a storage class. -/
def lookups : List String :=
  ["where", "not", "rewhere", "find", "find_by", "find_by!", "find_or_create_by",
    "find_or_create_by!", "find_or_initialize_by", "exists?", "find_each", "joins", "includes",
    "pluck", "count"]

/-- A chain from a storage class, or the described one, to a lookup. -/
def storageLookup : Pattern :=
  .chain [.textStart,
    .either (.seq constant (.repeated (.seq (.word "::") constant))) (.word "described_class"),
    .repeated step, .char '.',
    .either (wordIn lookups) (.chain [.word "find_by_", .one CharClass.isWord, .wordRun]),
    .textEnd]

/-- Whether a callee looks records up in storage. -/
def isStorageLookup (callee : Text) : Bool :=
  storageLookup.occursAt (Cursor.start (Receiver.outline callee))

/-- The usual endings of job classes. -/
def jobEndings : List Text :=
  ["Job", "Worker"].map String.toList

/-- The usual endings of service classes. -/
def serviceEndings : List Text :=
  ["Service", "Interactor", "Command", "Operation", "Client", "Gateway", "Handler"].map
    String.toList

/-- The methods that dispatch a job. -/
def dispatches : List String :=
  ["perform_later", "perform_now", "perform_async", "perform_in", "perform_at", "perform_inline",
    "perform"]

/-- The methods that call a service. -/
def serviceCalls : List String :=
  ["call", "call!", "perform", "run", "execute", "process", "new"]

/-- A class, in any namespace, whose name has one of the endings. -/
def classEnding (endings : List Text) : Pattern :=
  .chain [.textStart,
    .maybe (.seq (.run fun c => CharClass.isWord c || c == ':') (.word "::")),
    .maybe constant, nameIn endings]

/-- A job class that dispatches. -/
def jobBoundary (suffixes : Suffixes) : Pattern :=
  .chain [classEnding (jobEndings ++ suffixes.jobs),
    .maybe (wordIn [".set", ".new"]), .char '.', wordIn dispatches, .textEnd]

/-- A service class that is called or made. -/
def serviceBoundary (suffixes : Suffixes) : Pattern :=
  .chain [classEnding (serviceEndings ++ suffixes.services),
    .maybe (.word ".new"), .char '.', wordIn serviceCalls, .textEnd]

/-- A mailer with any message. -/
def mailerBoundary : Pattern :=
  .chain [classEnding ["Mailer".toList], .maybe (.word ".with"), step, .textEnd]

/-- The arguments of a matcher for enqueued jobs. -/
def enqueueMatcher : Pattern :=
  .chain [.either .textStart (.char '.'),
    .choice (.chain [.word "have_enqueued_", .one CharClass.isWord, .wordRun]) [
      .word "have_been_enqueued",
      .chain [.word "enqueue_", .one CharClass.isWord, .wordRun],
      .word "have_enqueued_sidekiq_job"],
    .repeated step, .word ".with", .textEnd]

/-- Whether a callee is a boundary behind which the record may be read from storage. -/
def isBoundary (suffixes : Suffixes) (callee : Text) : Bool :=
  let outline := Cursor.start (Receiver.outline callee)
  [jobBoundary suffixes, serviceBoundary suffixes, mailerBoundary, enqueueMatcher].any
    (·.occurs outline)

end Callee

/-! ### Uses of a bound name -/

namespace Usage

/-- Methods that read identity or stored state, reload, or write through the record. -/
def accessors : List String :=
  ["id", "persisted?", "new_record?", "destroyed?", "previously_new_record?", "reload", "save",
    "save!", "update", "update!", "update_attribute", "update_column", "update_columns", "destroy",
    "destroy!", "delete", "touch", "lock!", "increment!", "decrement!", "toggle!"]

/-- An accessor called on the name. -/
def accessorCall (name : Text) : Pattern :=
  .chain [Evidence.methodOn name, Callee.wordIn accessors, Reference.nameEnd]

/-- An expectation on the stored state of the name. -/
def storedStateMatcher (name : Text) : Pattern :=
  .chain [.word "expect", .blanks, .char '(', .blanks, Reference.pattern name, .blanks, .char ')',
    .blanks, .char '.', .blanks, .wordOf "to" ["not_to", "to_not"], .blanks, .maybe (.char '('),
    .blanks, .word "be_", .wordOf "persisted" ["new_record"], .wordEdge]

/-- Methods of an association that create or attach records. -/
def creators : List String :=
  ["create!", "create", "find_or_create_by!", "find_or_create_by", "create_with", "insert!",
    "insert", "push", "concat", "append"]

/-- A creating method called on an association of the name. -/
def associationCreation (name : Text) : Pattern :=
  .chain [Evidence.associationOf name, Evidence.methodDot, Callee.wordIn creators,
    Reference.nameEnd]

/-- A record appended to an association of the name; an opening heredoc is no record. -/
def associationAppend (name : Text) : Pattern :=
  .chain [Evidence.associationOf name, .word "<<",
    .notAhead (.seq (.maybe (.anyOf "~-")) (.one fun c => c.isUpper || c == '\'' || c == '"'))]

/-- Methods of an association that query storage. -/
def associationQueries : List String :=
  ["where", "find", "find_by!", "find_by", "exists?", "count", "pluck", "ids", "sum", "order",
    "reload"]

/-- A query on an association of the name. -/
def associationQuery (name : Text) : Pattern :=
  .chain [Evidence.associationOf name, Evidence.methodDot, Callee.wordIn associationQueries,
    Reference.nameEnd]

end Usage

namespace Detector

/-- The detectors in their usual order. -/
def all : List Detector :=
  [persistenceAccessor, associationMutation, queryDependency, externalConsumption,
    nestedConstruction]

/-- The name of a detector, which its evidence carries. -/
def name : Detector → String
  | persistenceAccessor => "persistence_accessor"
  | associationMutation => "association_mutation"
  | queryDependency => "query_dependency"
  | externalConsumption => "external_consumption"
  | nestedConstruction => "nested_construction"

/-- The detector with the given name. -/
def ofName? (name : String) : Option Detector :=
  all.find? fun d => d.name = name

/-- A detector is read back from its name. -/
theorem ofName?_name (d : Detector) : ofName? d.name = some d := by
  cases d <;> decide

/-- The names of all detectors, separated by commas. -/
def nameList : String :=
  ", ".intercalate (all.map name)

/-- The detectors with the given names, or the first name that is unknown. -/
def ofNames (names : List String) : Except String (List Detector) :=
  names.mapM fun name =>
    match ofName? name with
    | some d => .ok d
    | none => .error name

/-- What to say about a name that no detector has. -/
def unknownMessage (name : String) : String :=
  s!"Unknown detector '{name}'. Valid detectors: {nameList}"

/-- What the detector finds about a call, or why it finds nothing. -/
def finding (d : Detector) (suffixes : Suffixes) (t : SpecText) (site : CallSite) :
    Except String String :=
  let named (noBinding : String) (look : Text → Except String String) : Except String String :=
    match site.bindingName with
    | none => .error noBinding
    | some name => look name
  let orElse (found : Option String) (reason : String) : Except String String :=
    match found with
    | some detail => .ok detail
    | none => .error reason
  match d with
  | persistenceAccessor =>
    named "no binding; accessor use cannot be traced" fun name =>
      orElse (Evidence.firstMatch? t [Usage.accessorCall name, Usage.storedStateMatcher name])
        s!"no persistence accessor on `{String.ofList name}`"
  | associationMutation =>
    named "no binding; association use cannot be traced" fun name =>
      orElse
        (Evidence.firstMatch? t [Usage.associationCreation name, Usage.associationAppend name])
        s!"no association mutation on `{String.ofList name}`"
  | queryDependency =>
    match Evidence.containing? t site Callee.isStorageLookup with
    | some detail => .ok detail
    | none =>
      named "inline call is not a lookup argument" fun name =>
        orElse
          ((Evidence.receiving? t name Callee.isStorageLookup).or
            (Evidence.firstMatch? t [Usage.associationQuery name]))
          s!"`{String.ofList name}` is not used in a lookup"
  | externalConsumption =>
    let fits := Callee.isBoundary suffixes
    match Evidence.containing? t site fits with
    | some detail => .ok detail
    | none =>
      named "inline call is not passed across a boundary" fun name =>
        orElse (Evidence.receiving? t name fits)
          s!"`{String.ofList name}` is not passed to a job or service"
  | nestedConstruction =>
    match site.enclosingVariant with
    | none => .error "not nested in another construction call"
    | some _ =>
      let line := site.sourceSpan.startPosition.line
      .ok s!"argument of an enclosing construction call at line {line}"

/-- The evidence that the detector leaves about a call. -/
def detect (d : Detector) (suffixes : Suffixes) (t : SpecText) (site : CallSite) : Evidence :=
  match d.finding suffixes t site with
  | .ok detail => ⟨d.name, true, detail⟩
  | .error reason => ⟨d.name, false, reason⟩

end Detector

namespace Evidence

/-- The signal name that stands for a call whose arguments cannot be read. -/
def faultSignal : String := "parse_error"

/-- The evidence about a call, one record per detector. A call that cannot be read is not examined
and has one record that says so. -/
def collect (detectors : List Detector) (suffixes : Suffixes) (t : SpecText) (site : CallSite) :
    List Evidence :=
  match site.fault with
  | some fault => [⟨faultSignal, false, fault.message⟩]
  | none => detectors.map fun d => d.detect suffixes t site

end Evidence

end FactoryDowngrade
