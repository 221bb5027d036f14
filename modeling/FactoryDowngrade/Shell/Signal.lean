import FactoryDowngrade.Shell.Word

/-!
# Signals and traps

The signals that a shell may send itself, by name and number, and what becomes of the shell: it
dies, it stops for good, it takes no notice, or it does what a trap says.
-/

namespace FactoryDowngrade

namespace Shell

namespace Signal

/-- The names of the signals with their numbers. -/
def table : List (String × Nat) :=
  [("HUP", 1), ("INT", 2), ("QUIT", 3), ("ILL", 4), ("TRAP", 5), ("ABRT", 6), ("BUS", 7),
    ("FPE", 8), ("KILL", 9), ("USR1", 10), ("SEGV", 11), ("USR2", 12), ("PIPE", 13), ("ALRM", 14),
    ("TERM", 15), ("STKFLT", 16), ("CHLD", 17), ("CONT", 18), ("STOP", 19), ("TSTP", 20),
    ("TTIN", 21), ("TTOU", 22), ("URG", 23), ("XCPU", 24), ("XFSZ", 25), ("VTALRM", 26),
    ("PROF", 27), ("WINCH", 28), ("IO", 29), ("PWR", 30), ("SYS", 31)]

/-- The number of the signal with a name or number. -/
def number? (s : Octets) : Option Nat :=
  if !s.isEmpty && s.all Char.isDigit then
    some (s.foldl (fun n c => 10 * n + (c.toNat - '0'.toNat)) 0)
  else
    let name := String.ofList (s.map Char.toUpper)
    if name = "EXIT" then some 0 else (table.find? fun entry => entry.1 = name).map (·.2)

/-- Signals that are taken no notice of. -/
def isHarmless (n : Nat) : Bool :=
  [0, 17, 18, 23, 28].contains n

/-- Signals that stop a process. -/
def isStopping (n : Nat) : Bool :=
  [19, 20, 21, 22].contains n

/-- What the shell says about a program that a signal ended. -/
def epitaph? (n : Nat) : Option String :=
  match n with
  | 1 => some "Hangup"
  | 3 => some "Quit"
  | 4 => some "Illegal instruction"
  | 6 => some "Aborted"
  | 7 => some "Bus error"
  | 8 => some "Floating point exception"
  | 9 => some "Killed"
  | 11 => some "Segmentation fault"
  | 14 => some "Alarm clock"
  | 15 => some "Terminated"
  | _ => none

/-- Sends the shell a signal. A trap without an action keeps the signal off; none holds against
being killed or stopped. -/
def deliver (n : Nat) (act : Octets → Run Nat) : Run Nat := do
  let s ← Run.session
  if isHarmless n then return 0
  if n = 19 then throw .late
  match if n = 9 then none else s.traps.lookup (Expr.written n) with
  | some action => if action.isEmpty then return 0 else act action
  | none => if isStopping n then throw .late else throw (.killed n)

end Signal

end Shell

end FactoryDowngrade
