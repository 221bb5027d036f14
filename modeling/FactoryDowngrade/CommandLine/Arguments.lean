import FactoryDowngrade.CommandLine.Number
import FactoryDowngrade.Granularity

/-!
# Arguments of the command line

A command line names an order and its operands, with switches between them. Long switches may be
shortened as long as they stay unambiguous. What follows a double dash is the verification command.
Arguments that fit no order end the program with a usage status, and so does asking for help.
-/

namespace FactoryDowngrade

namespace CommandLine

/-- The switches of all orders. -/
inductive Switch where
  | help
  | verbose
  | granularity
  | root
  | timeout
  | jobs
  | reportDir
deriving DecidableEq, Repr

namespace Switch

/-- The long name of a switch. -/
def name : Switch → String
  | help => "--help"
  | verbose => "--verbose"
  | granularity => "--granularity"
  | root => "--root"
  | timeout => "--timeout"
  | jobs => "--jobs"
  | reportDir => "--report-dir"

/-- The letter of a switch that has a short form. -/
def letter? : Switch → Option Char
  | help => some 'h'
  | verbose => some 'v'
  | _ => none

/-- Whether a switch takes a value. -/
def takesValue : Switch → Bool
  | help => false
  | verbose => false
  | _ => true

/-- The switches in front of an order. -/
def beforeOrder : List Switch := [help, verbose]

/-- The switches of an analysis. -/
def ofAnalyze : List Switch := [help, granularity, root]

/-- The switches of an optimization. -/
def ofOptimize : List Switch := [help, granularity, root, timeout, jobs, reportDir]

end Switch

/-- What an argument is: an operand, a switch with the value that is joined to it if there is one,
several switches by their letters, a switch that is not known, the short form of several switches,
or letters with a value that none of them takes. -/
inductive Kind where
  | operand
  | switch (s : Switch) (value : Option String)
  | letters (switches : List Switch) (isComplete : Bool)
  | unknown
  | ambiguous
  | refused
deriving DecidableEq, Repr

/-- Reads switches by their letters, up to one that is not known. A sign behind a known letter would
be a value for it, and there is none that takes one. -/
def readLetters? (available : List Switch) : Text → Option (List Switch × Bool)
  | [] => some ([], true)
  | c :: rest =>
    match available.find? fun s => s.letter? = some c with
    | some s =>
      if rest.head?.any ['=', '-'].contains then none
      else (readLetters? available rest).map fun (more, isComplete) => (s :: more, isComplete)
    | none => some ([], false)

/-- What an argument that no switch begins may still be. -/
def otherKind (s : Text) : Kind :=
  if isNegativeNumber s || s.contains ' ' then .operand else .unknown

/-- What an argument is among the given switches. -/
def kindOf (available : List Switch) (argument : String) : Kind :=
  match argument.toList with
  | '-' :: '-' :: _ =>
    let chars := argument.toList
    let name := chars.takeWhile (· ≠ '=')
    let value :=
      if name.length < chars.length then some (String.ofList (chars.drop (name.length + 1)))
      else none
    match available.find? fun s => s.name.toList = name with
    | some s => .switch s value
    | none =>
      match available.filter fun s => Text.startsWith s.name.toList name with
      | [] => otherKind chars
      | [s] => .switch s value
      | _ => .ambiguous
  | '-' :: c :: rest =>
    if available.any fun s => s.letter? = some c then
      match readLetters? available (c :: rest) with
      | some (switches, isComplete) => .letters switches isComplete
      | none => .refused
    else otherKind argument.toList
  | _ => .operand

/-- How far the operands have come: none yet, in a row of them, or behind their row. -/
inductive Row where
  | awaited
  | current
  | finished
deriving DecidableEq, Repr

/-- What has been read so far. -/
structure Progress where
  verbose : Bool
  granularity : Option String
  root : String
  timeout : Option Binary64
  jobs : Int
  reportDir : Option String
  operands : List String
  row : Row
  hasExtra : Bool
  pending : Option Switch
deriving DecidableEq

namespace Progress

/-- Nothing has been read. -/
def start : Progress :=
  ⟨false, none, ".", none, 1, none, [], .awaited, false, none⟩

/-- The status of arguments that fit no order. -/
def misuse : Nat := 2

/-- Gives a switch its value; the error is the status that the program ends with. -/
def assign (p : Progress) (s : Switch) (value : String) : Except Nat Progress :=
  match s with
  | .granularity =>
    if (Granularity.aliases.lookup value).isSome then .ok { p with granularity := some value }
    else .error misuse
  | .root => .ok { p with root := value }
  | .timeout =>
    match float? value with
    | some seconds => .ok { p with timeout := some seconds }
    | none => .error misuse
  | .jobs =>
    match whole? value with
    | some n => .ok { p with jobs := n }
    | none => .error misuse
  | .reportDir => .ok { p with reportDir := some value }
  | .help => .error 0
  | .verbose => .ok { p with verbose := true }

/-- Ends the row of operands, if it has begun. -/
def endRow (p : Progress) : Progress :=
  { p with row := if p.row = .current then .finished else p.row }

/-- Takes a switch. -/
def take (p : Progress) (s : Switch) (value : Option String) : Except Nat Progress :=
  let p := p.endRow
  match value with
  | some value => if s.takesValue then p.assign s value else .error misuse
  | none => if s.takesValue then .ok { p with pending := some s } else p.assign s ""

/-- Takes an operand; only those of the first row count, and only the first of them if there may be
but one. -/
def addOperand (many : Bool) (p : Progress) (operand : String) : Progress :=
  match p.row with
  | .awaited => { p with operands := [operand], row := if many then .current else .finished }
  | .current => { p with operands := p.operands ++ [operand] }
  | .finished => { p with hasExtra := true }

/-- Reads one argument. -/
def step (available : List Switch) (many : Bool) (p : Progress) (argument : String) :
    Except Nat Progress :=
  match p.pending, kindOf available argument with
  | some s, .operand => assign { p with pending := none } s argument
  | some _, _ => .error misuse
  | none, .operand => .ok (p.addOperand many argument)
  | none, .switch s value => p.take s value
  | none, .letters switches isComplete =>
    (switches.foldlM (fun p s => take p s none) p).map fun p =>
      { p with hasExtra := p.hasExtra || !isComplete }
  | none, .unknown => .ok { p.endRow with hasExtra := true }
  | none, .ambiguous => .error misuse
  | none, .refused => .error misuse

/-- Whether none of some arguments is the short form of several switches. -/
def isClear (available : List Switch) (arguments : List String) : Bool :=
  arguments.all fun argument => kindOf available argument ≠ .ambiguous

/-- Reads all arguments of an order. An ambiguous one is refused before any is read. -/
def readAll (available : List Switch) (many : Bool) (p : Progress) (arguments : List String) :
    Except Nat Progress := do
  if !isClear available arguments then .error misuse
  let p ← arguments.foldlM (step available many) p
  if p.pending.isSome || p.hasExtra || p.operands.isEmpty then .error misuse else .ok p

end Progress

/-- What the program is asked to do. -/
inductive Order where
  | analyze (file : String)
  | optimize (files : List String) (timeout : Option Binary64) (jobs : Int)
      (reportDir : Option String) (command : Option (List String))
deriving DecidableEq

/-- The arguments of the program. -/
structure Arguments where
  verbose : Bool
  granularity : Option String
  root : String
  order : Order
deriving DecidableEq

namespace Arguments

/-- The arguments in front of a double dash, and those behind it if there is one. -/
def splitCommand (arguments : List String) : List String × Option (List String) :=
  let front := arguments.takeWhile (· ≠ "--")
  (front,
    if front.length < arguments.length then some (arguments.drop (front.length + 1)) else none)

/-- What an order is called by. -/
def ofProgress (name : String) (p : Progress) (command : Option (List String)) :
    Except Nat Arguments :=
  let order : Option Order :=
    if name = "optimize" then some (.optimize p.operands p.timeout p.jobs p.reportDir command)
    else if command.isNone then p.operands.head?.map .analyze
    else none
  match order with
  | some order => .ok ⟨p.verbose, p.granularity, p.root, order⟩
  | none => .error Progress.misuse

/-- Reads switches up to the name of an order, and then the order. -/
def readOrder (command : Option (List String)) : Progress → List String → Except Nat Arguments
  | _, [] => .error Progress.misuse
  | p, argument :: rest =>
    match kindOf Switch.beforeOrder argument with
    | .operand =>
      if argument = "analyze" then do
        ofProgress argument (← p.readAll Switch.ofAnalyze false rest) command
      else if argument = "optimize" then do
        ofProgress argument (← p.readAll Switch.ofOptimize true rest) command
      else .error Progress.misuse
    | _ =>
      match p.step Switch.beforeOrder false argument with
      | .ok p => readOrder command p rest
      | .error status => .error status

/-- Reads the arguments of the program; the error is the status that it ends with. -/
def read (arguments : List String) : Except Nat Arguments :=
  let (front, command) := splitCommand arguments
  if Progress.isClear Switch.beforeOrder front then readOrder command .start front
  else .error Progress.misuse

end Arguments

end CommandLine

end FactoryDowngrade
