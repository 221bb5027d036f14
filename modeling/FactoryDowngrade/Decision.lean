import FactoryDowngrade.Evidence.Detector
import FactoryDowngrade.Granularity

/-!
# Decisions

For each call site one decision says which strategy the call should use and why. A call only ever
moves to a strictly cheaper strategy, and only in a unit spec without any sign of persistence. A
call that cannot be read keeps its strategy.
-/

namespace FactoryDowngrade

/-- What is to become of one call site, and why. -/
structure Decision where
  siteId : String
  source : Variant
  target : Variant
  rationale : String
  applied : Bool
  evidence : List Evidence
  fault : Option SiteFault
deriving DecidableEq, Repr

namespace Variant

/-- The strategy that a scope and the evidence call for. -/
def wanted (g : Granularity) (signal : PersistenceSignal) : Variant :=
  match g, signal with
  | .unit, .noEvidence => buildStubbed
  | _, _ => create

/-- The wanted strategy if it is cheaper, and the present one otherwise. -/
def choose (g : Granularity) (signal : PersistenceSignal) (present : Variant) : Variant :=
  let target := wanted g signal
  if target.cost < present.cost then target else present

/-- A choice is never costlier than what it replaces. -/
theorem cost_choose_le (g : Granularity) (signal : PersistenceSignal) (present : Variant) :
    (choose g signal present).cost ≤ present.cost := by
  unfold choose
  dsimp only
  split
  · omega
  · exact Nat.le_refl _

end Variant

namespace Decision

/-- Whether the decision leaves its call as it is. -/
def isNoop (d : Decision) : Bool :=
  d.target = d.source

/-- Whether the decision proposes a change. -/
def isProposal (d : Decision) : Bool :=
  !d.isNoop

/-- The reason for a decision about a call that could be read. -/
def reason (g : Granularity) (evidence : List Evidence) (source target : Variant) : String :=
  let hits := evidence.filter (·.isMatch)
  if !hits.isEmpty then
    let reasons := "; ".intercalate (hits.map fun e => s!"{e.signalName}: {e.detail}")
    s!"persistence required ({reasons})"
  else if g ≠ .unit then s!"{g.name} granularity keeps persisted records"
  else if target = source then s!"`{source.method}` is already the cheapest safe variant"
  else "no persistence evidence at unit granularity"

/-- The decision about a call site. -/
def decide (g : Granularity) (site : CallSite) (evidence : List Evidence) : Decision :=
  match site.fault with
  | some fault =>
    ⟨site.id, site.variant, site.variant, s!"parse_error: {fault.message}", false, evidence,
      some fault⟩
  | none =>
    let target := Variant.choose g (PersistenceSignal.ofEvidence evidence) site.variant
    ⟨site.id, site.variant, target, reason g evidence site.variant target, false, evidence, none⟩

/-- The decision after its change was committed; a decision without a change stays as it is. -/
def commit (d : Decision) : Decision :=
  if d.isNoop then d else { d with applied := true }

/-- The decision after its change was taken back. -/
def withdraw (d : Decision) : Decision :=
  { d with applied := false }

end Decision

end FactoryDowngrade
