import FactoryDowngrade.Decision

/-!
# Patches

A patch replaces a range of a text. The patches of a list all refer to the text as it is given, so
their order does not matter, and they conflict if one lies outside the text or two overlap.
Patches that take out nothing may share a place.
-/

namespace FactoryDowngrade

/-- A replacement for the range of offsets from `start` to `stop`. -/
structure Patch where
  start : Int
  stop : Int
  replacement : Text
deriving DecidableEq, Repr

/-- Why patches cannot be applied together. -/
inductive PatchConflict where
  | outside (start stop : Int)
  | overlap (start stop : Int) (previousStop : Nat)
deriving DecidableEq, Repr

namespace PatchConflict

/-- The wording of a conflict. -/
def message : PatchConflict → String
  | outside start stop => s!"patch [{start}, {stop}) is outside the text"
  | overlap start stop previousStop =>
    s!"patch [{start}, {stop}) overlaps a previous patch ending at {previousStop}"

end PatchConflict

namespace Patch

/-- Patches are ordered by start, then by stop, then by replacement. -/
def le (p q : Patch) : Bool :=
  p.start < q.start ||
    (p.start == q.start &&
      (p.stop < q.stop || (p.stop == q.stop && Text.le p.replacement q.replacement)))

/-- Applies patches in ascending order to the text from `cursor` on. -/
def splice (text : Text) (cursor : Nat) : List Patch → Except PatchConflict Text
  | [] => .ok (text.drop cursor)
  | p :: rest =>
    if ¬(0 ≤ p.start ∧ p.start ≤ p.stop ∧ p.stop ≤ text.length) then
      .error (.outside p.start p.stop)
    else if p.start < cursor then .error (.overlap p.start p.stop cursor)
    else
      match splice text p.stop.toNat rest with
      | .ok tail => .ok (text.slice cursor p.start.toNat ++ p.replacement ++ tail)
      | .error conflict => .error conflict

/-- Applies all patches to a text at once. -/
def applyAll (text : Text) (patches : List Patch) : Except PatchConflict Text :=
  splice text 0 (patches.mergeSort le)

/-- The patch that carries a decision out: only the method name changes. -/
def ofDecision (site : CallSite) (d : Decision) : Patch :=
  ⟨site.calleeSpan.start, site.calleeSpan.stop, d.target.method.toList⟩

/-- The site with the given id; of several the last. -/
def siteOf? (sites : List CallSite) (id : String) : Option CallSite :=
  sites.reverse.find? fun s => s.id = id

/-- The patches of the decisions that change something, or the id of a site that is missing. -/
def ofDecisions (sites : List CallSite) (decisions : List Decision) : Except String (List Patch) :=
  (decisions.filter (·.isProposal)).mapM fun d =>
    match siteOf? sites d.siteId with
    | some site => .ok (ofDecision site d)
    | none => .error d.siteId

end Patch

end FactoryDowngrade
