import FactoryDowngrade.Config
import FactoryDowngrade.Patch

/-!
# Plans

An analysis resolves the granularity of a text, extracts its call sites and decides about each of
them. A plan adds the candidate text, which has every proposed change made; nothing has been
verified yet.
-/

namespace FactoryDowngrade

/-- What is known and decided about a text. -/
structure Analysis where
  resolution : Granularity.Resolution
  sites : List CallSite
  decisions : List Decision
  notes : List Note
deriving DecidableEq

namespace Analysis

/-- The warning about a call site whose arguments cannot be read. -/
def faultNote? (site : CallSite) : Option Note :=
  site.fault.map fun fault => ⟨.warning, "parse_error", s!"{site.id}: {fault.message}"⟩

/-- Analyses a text. -/
def ofText (text : Text) (granularity : Option Text) (config : Config) : Analysis :=
  let resolution := Granularity.resolve text granularity config.defaultGranularity
  let sites := CallSite.extract text
  let spec := SpecText.ofText text
  let evidence := Evidence.collect config.detectors config.suffixes spec
  { resolution
    sites
    decisions := sites.map fun site => Decision.decide resolution.granularity site (evidence site)
    notes := resolution.notes ++ sites.filterMap faultNote? }

/-- The decisions that change something. -/
def proposals (a : Analysis) : List Decision :=
  a.decisions.filter (·.isProposal)

end Analysis

/-- Why there is no candidate text. -/
inductive PlanFault where
  | conflict (c : PatchConflict)
  | unknownSite (id : String)
deriving DecidableEq, Repr

/-- The text with the given decisions carried out. -/
def candidateText (text : Text) (sites : List CallSite) (decisions : List Decision) :
    Except PlanFault Text :=
  match Patch.ofDecisions sites decisions with
  | .error id => .error (.unknownSite id)
  | .ok patches => (Patch.applyAll text patches).mapError .conflict

/-- An analysis with the candidate text that carries its decisions out. -/
structure Plan where
  analysis : Analysis
  candidate : Text
deriving DecidableEq

namespace Plan

/-- Plans the changes to a text. -/
def ofText (text : Text) (granularity : Option Text) (config : Config) : Except PlanFault Plan :=
  let analysis := Analysis.ofText text granularity config
  (candidateText text analysis.sites analysis.decisions).map fun candidate => ⟨analysis, candidate⟩

end Plan

end FactoryDowngrade
