import FactoryDowngrade.Config
import FactoryDowngrade.Shell.Launch
import FactoryDowngrade.World.Scratch

/-!
# The verification command

The command that judges candidates runs in a process of its own with a limit on its time. The path
of the candidate takes the place of a mark in the command, or stands at its end if there is no
mark. Only a clean exit passes; what the process printed last is kept for the report.
-/

namespace FactoryDowngrade

/-- A limit on time: a whole number of seconds, or any number. -/
inductive TimeLimit where
  | whole (seconds : Int)
  | exact (seconds : Binary64)
deriving DecidableEq, Repr

namespace TimeLimit

/-- Longer than any process takes. -/
def forever : Nat := Nat.pow 10 40

/-- A limit in nanoseconds; none below zero. -/
def nanoseconds : TimeLimit → Nat
  | whole seconds => seconds.toNat * Nat.pow 10 9
  | exact .nan => forever
  | exact (.infinity negative) => if negative then 0 else forever
  | exact (.finite negative mantissa exponent) =>
    let (num, den) := Binary64.magnitude mantissa exponent
    if negative then 0 else num * Nat.pow 10 9 / den

/-- The written form of a limit. -/
def toText : TimeLimit → Text
  | whole seconds => (toString seconds).toList
  | exact seconds => seconds.toText

/-- Whether a limit is a time that a clock can be set to. -/
def isSettable : TimeLimit → Bool
  | whole seconds => !(Binary64.ofInt seconds).isInfinite
  | exact _ => true

/-- Whether a limit is zero. -/
def isZero : TimeLimit → Bool
  | whole seconds => seconds == 0
  | exact seconds => seconds.isZero

end TimeLimit

/-- How candidates are verified: the command, the directory it runs in, its limit, the number of
lines that are kept of its output, and variables that it is given besides the usual ones. -/
structure Oracle where
  command : List String
  cwd : List String
  limit : TimeLimit
  tailLines : Int
  environment : List (String × String)

namespace Oracle

/-- The verification that a configuration asks for, with another command or limit if one is given.
An empty command and a limit of zero do not count. -/
def ofConfig (config : Config) (cwd : List String) (command : List String)
    (limit : Option TimeLimit) : Oracle :=
  let settings := config.oracle
  { command := if command.isEmpty then settings.command else command
    cwd
    limit := (limit.filter fun l => !l.isZero).getD (.exact settings.timeout)
    tailLines := settings.tailLines
    environment := [] }

/-- The arguments that a command runs with for a candidate. -/
def arguments (command : List String) (candidate : String) : List String :=
  let isMarked (part : String) : Bool := 1 < (part.splitOn OracleSettings.filePlaceholder).length
  if command.any isMarked then
    command.map fun part => candidate.intercalate (part.splitOn OracleSettings.filePlaceholder)
  else command ++ [candidate]

/-- Arguments as one line that a shell reads back. -/
def shown (arguments : List String) : String :=
  " ".intercalate (arguments.map fun a => String.ofList (Quoted.shellWord a.toList))

/-- The lines of an output. A carriage return ends a line as a newline does, and the two together
end one line. -/
def lines (output : Text) : List Text :=
  let rec joined : Text → Text
    | '\r' :: '\n' :: rest => '\n' :: joined rest
    | '\r' :: rest => '\n' :: joined rest
    | c :: rest => c :: joined rest
    | [] => []
  Shell.linesOf (joined output)

/-- The last lines of an output; at least one is kept. -/
def lastLines (count : Int) (output : Bytes) : List String :=
  let all := lines (Utf8.decodeLenient output)
  (all.drop (all.length - (max 1 count).toNat)).map String.ofList

/-- The variables that every process is given. -/
def usualVariables (cwd : List String) : List (String × String) :=
  [("PATH", "/usr/local/sbin:/usr/local/bin:/usr/sbin:/usr/bin:/sbin:/bin"), ("HOME", "/root"),
    ("PWD", (PathName.absolute cwd).toText)]

/-- The process that verifies a candidate. -/
def launch (o : Oracle) (tree : Node) (arguments : List String) : Shell.Launch :=
  let usual := (usualVariables o.cwd).filter fun v => (o.environment.lookup v.1).isNone
  { tree
    cwd := o.cwd
    environment := (usual ++ o.environment).map fun v => (Shell.octetsOf v.1, Shell.octetsOf v.2)
    arguments := arguments.map Shell.octetsOf
    limit := o.limit.nanoseconds }

/-- The outcome of a process and its exit status; a signal counts below zero. -/
def outcomeOf : Shell.Ending → Outcome × Int
  | .late => (.timeout, -9)
  | .killed signal => (.ofStatus (-signal), -signal)
  | .exited status => (.ofStatus status, status)

/-- A time in seconds with three places. -/
def secondsText (nanoseconds : Nat) : String :=
  let ms := Binary64.roundQuotient nanoseconds (Nat.pow 10 6)
  let places := Nat.toDigits 10 (ms % 1000)
  s!"{ms / 1000}." ++ String.ofList (List.replicate (3 - places.length) '0' ++ places)

/-- The largest number of lines that can be kept. -/
def lineLimit : Int := Nat.pow 2 63 - 1

/-- What is wrong with a command before it is started. -/
def commandFault? (o : Oracle) : Option CommandFault :=
  if lineLimit < o.tailLines then some .tooLarge
  else if o.environment.any fun v => v.1.contains '=' then some .variableName
  else none

/-- Verifies the candidate at a path. A command that cannot be started gives no verdict, nor does
one that is to be given more time than there can be. -/
def verify (o : Oracle) : Verifier Unit := fun candidate s =>
  let args := arguments o.command candidate.toText
  let invocation := shown args
  let w := s.1.remark ⟨.debug, .oracle, s!"oracle: {invocation}"⟩
  match o.commandFault? with
  | some fault => (.error (.command fault), (w, s.2))
  | none =>
    match (o.launch w.tree args).run with
    | .error fault =>
      let mark := String.ofList [Shell.backquote]
      let message := s!"cannot start oracle {mark}{invocation}{mark}: {fault.message}"
      (.error (.unavailable message), (w, s.2))
    | .ok finish =>
      let (outcome, status) := outcomeOf finish.ending
      let name := String.ofList (outcome.name.toList.map Char.toUpper)
      let seconds := secondsText finish.elapsed
      let w := { w with tree := finish.tree }
      let w := w.remark
        ⟨.info, .oracle, s!"oracle {name} rc={status} elapsed_seconds={seconds}"⟩
      if o.limit.isSettable then
        (.ok ⟨outcome, some status, .ofRatio false finish.elapsed (Nat.pow 10 9),
          invocation.toList, lastLines o.tailLines finish.output⟩, (w, s.2))
      else (.error (.command .tooLarge), (w, s.2))

end Oracle

end FactoryDowngrade
