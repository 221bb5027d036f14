import FactoryDowngrade.Shell.Command

/-!
# Glob patterns

A glob is a list of characters of which those that were not quoted may have a meaning: a star
stands for any characters, a question mark for one, and brackets for one of a class.
-/

namespace FactoryDowngrade

namespace Shell

/-- Characters, each with whether it was quoted. -/
abbrev Marked := List (Char × Bool)

namespace Glob

/-- Whether a character has a meaning in a glob. -/
def isActive (m : Char × Bool) : Bool :=
  !m.2 && (m.1 == '*' || m.1 == '?' || m.1 == '[')

/-- Whether any character has a meaning. -/
def isGlob (p : Marked) : Bool :=
  p.any isActive

/-- Reads the members of a class as ranges, up to its closing bracket. -/
def members : Marked → Option (List (Char × Char) × Marked)
  | [] => none
  | (']', _) :: rest => some ([], rest)
  | (a, _) :: ('-', _) :: (b, q) :: rest =>
    if b == ']' then
      (members ((b, q) :: rest)).map fun (rs, rest) => ((a, a) :: ('-', '-') :: rs, rest)
    else (members rest).map fun (rs, rest) => ((a, b) :: rs, rest)
  | (a, _) :: rest => (members rest).map fun (rs, rest) => ((a, a) :: rs, rest)

/-- Reads a class behind its opening bracket: whether it is negated, its ranges, and the rest. -/
def charClass (p : Marked) : Option ((Bool × List (Char × Char)) × Marked) :=
  let (negated, p) :=
    match p with
    | ('!', false) :: rest => (true, rest)
    | ('^', false) :: rest => (true, rest)
    | p => (false, p)
  match p with
  | (']', _) :: rest =>
    (members rest).map fun (rs, rest) => ((negated, (']', ']') :: rs), rest)
  | p => (members p).map fun (rs, rest) => ((negated, rs), rest)

/-- Whether a glob matches some characters as a whole. -/
def fits : Nat → Marked → Octets → Bool
  | 0, _, _ => false
  | _ + 1, [], s => s.isEmpty
  | fuel + 1, (c, quoted) :: p, s =>
    if !quoted && c == '*' then
      fits fuel p s || (match s with
        | [] => false
        | _ :: rest => fits fuel ((c, quoted) :: p) rest)
    else
      match s with
      | [] => false
      | x :: rest =>
        if quoted then c == x && fits fuel p rest
        else if c == '?' then fits fuel p rest
        else if c == '[' then
          match charClass p with
          | some ((negated, rs), p) =>
            (rs.any fun r => r.1 ≤ x && x ≤ r.2) != negated && fits fuel p rest
          | none => c == x && fits fuel p rest
        else c == x && fits fuel p rest

/-- Whether a glob matches some characters as a whole. -/
def isMatch (p : Marked) (s : Octets) : Bool :=
  fits (p.length + s.length + 1) p s

end Glob

end Shell

end FactoryDowngrade
