import FactoryDowngrade.Proofs.PlanCandidate

/-!
# A plan is safe

A plan changes exactly the created records of a unit spec that no configured detector has
anything to say about, and it only ever stubs them. Nested construction has something to say about
every call inside the arguments of another one, so no such call is changed while that detector is
configured.
-/

namespace FactoryDowngrade

open Template

namespace CallSite

namespace Call

/-- The outer call that the search for the innermost one keeps. -/
def innermost (best : Option Call) (other : Call) : Option Call :=
  match best with
  | none => some other
  | some last => if last.argsStart ≤ other.argsStart then some other else some last

/-- The innermost outer call is found by keeping the best one. -/
theorem enclosing?_eq_foldl (all : List Call) (c : Call) :
    enclosing? all c =
      (all.filter fun other => other.start != c.start && other.holds c).foldl innermost none := rfl

/-- The search keeps an outer call once it has one. -/
theorem isSome_foldl_innermost (others : List Call) (last : Call) :
    (others.foldl innermost (some last)).isSome = true := by
  induction others generalizing last with
  | nil => rfl
  | cons other others ih =>
    rw [List.foldl_cons, innermost]
    split
    · exact ih other
    · exact ih last

/-- A call is enclosed just when it lies in the arguments of another call. -/
theorem isSome_enclosing?_iff (all : List Call) (c : Call) :
    (enclosing? all c).isSome = true ↔
      ∃ other ∈ all, other.start ≠ c.start ∧ other.holds c = true := by
  have hmem (other : Call) :
      other ∈ (all.filter fun other => other.start != c.start && other.holds c) ↔
        other ∈ all ∧ other.start ≠ c.start ∧ other.holds c = true := by
    rw [List.mem_filter, Bool.and_eq_true, bne_iff_ne]
  rw [enclosing?_eq_foldl]
  cases hothers : all.filter fun other => other.start != c.start && other.holds c with
  | nil =>
    simp only [hothers, List.not_mem_nil, false_iff] at hmem
    constructor
    · intro h
      cases h
    · rintro ⟨other, hother⟩
      exact absurd hother (hmem other)
  | cons other others =>
    refine ⟨fun _ => ⟨other, (hmem other).mp (hothers ▸ List.mem_cons_self)⟩, fun _ => ?_⟩
    exact isSome_foldl_innermost others other

end Call

/-- A site tells by its enclosing strategy whether its call lies in the arguments of another. -/
theorem isSome_enclosingVariant_iff (text : Text) (call : Call) :
    (siteOf text call).enclosingVariant.isSome = true ↔
      ∃ other ∈ calls text (mask text), other.start ≠ call.start ∧ other.holds call = true := by
  rw [← Call.isSome_enclosing?_iff]
  simp only [siteOf, ofCall, Option.isSome_map]

end CallSite

namespace Detector

/-- Nested construction matches the sites inside the arguments of another call. -/
theorem isMatch_nestedConstruction (suffixes : Suffixes) (t : SpecText) (site : CallSite) :
    (detect .nestedConstruction suffixes t site).isMatch = site.enclosingVariant.isSome := by
  unfold detect finding
  cases site.enclosingVariant <;> rfl

end Detector

namespace Analysis

variable {text : Text} {granularity : Option Text} {config : Config}

/-- The evidence about a site that could be read is silent just when no detector matches. -/
theorem forall_evidenceOn_iff {site : CallSite} (hfault : site.fault = none) :
    (∀ e ∈ evidenceOn text config site, e.isMatch = false) ↔
      ∀ d ∈ config.detectors,
        (d.detect config.suffixes (SpecText.ofText text) site).isMatch = false := by
  rw [evidenceOn, Evidence.collect, hfault]
  exact List.forall_mem_map

/-- What the analysis of a text decides to change. -/
theorem isProposal_decisionOn_iff (site : CallSite) :
    (decisionOn text granularity config site).isProposal = true ↔
      (ofText text granularity config).resolution.granularity = .unit ∧ site.fault = none ∧
        site.variant = .create ∧ ∀ d ∈ config.detectors,
          (d.detect config.suffixes (SpecText.ofText text) site).isMatch = false := by
  rw [decisionOn, Decision.isProposal_decide_iff]
  constructor
  · rintro ⟨hfault, hunit, hnone, hcreate⟩
    exact ⟨hunit, hfault, hcreate, (forall_evidenceOn_iff hfault).mp hnone⟩
  · rintro ⟨hunit, hfault, hcreate, hnone⟩
    exact ⟨hfault, hunit, (forall_evidenceOn_iff hfault).mpr hnone, hcreate⟩

/-- Without a proposal the candidate is the text. -/
theorem fill_template_of_proposedSites_eq_nil (word : Text)
    (hnone : proposedSites text granularity config = []) :
    fill word (template text granularity config) = text := by
  rw [template, proposedSpans, hnone]
  exact fill_map_some word text

/-- At any other granularity every filling is the text itself. -/
theorem fill_template_of_not_unit (word : Text)
    (hunit : (ofText text granularity config).resolution.granularity ≠ .unit) :
    fill word (template text granularity config) = text := by
  refine fill_template_of_proposedSites_eq_nil word ?_
  rw [proposedSites, List.filter_eq_nil_iff]
  intro s _ hproposal
  exact hunit ((isProposal_decisionOn_iff s).mp hproposal).1

end Analysis

/-- What a safe decision about a site of a text is. -/
structure Decision.IsSafe (g : Granularity) (config : Config) (text : Text) (site : CallSite)
    (d : Decision) : Prop where
  siteId : d.siteId = site.id
  source : d.source = site.variant
  changes : d.target ≠ d.source ↔ g = .unit ∧ site.fault = none ∧ site.variant = .create ∧
    ∀ detector ∈ config.detectors,
      (detector.detect config.suffixes (SpecText.ofText text) site).isMatch = false
  stubs : d.target ≠ d.source → d.target = .buildStubbed
  cost : d.target.cost ≤ d.source.cost

/-- Every decision of an analysis is safe. -/
theorem Analysis.isSafe_decisionOn (text : Text) (granularity : Option Text) (config : Config)
    (site : CallSite) :
    (decisionOn text granularity config site).IsSafe
      (ofText text granularity config).resolution.granularity config text site := by
  have hchanges : (decisionOn text granularity config site).target ≠
      (decisionOn text granularity config site).source ↔
      (decisionOn text granularity config site).isProposal = true := by
    simp [Decision.isProposal, Decision.isNoop]
  have hstubs (h : (decisionOn text granularity config site).isProposal = true) :
      (decisionOn text granularity config site).target = .buildStubbed :=
    Decision.target_of_isProposal h
  refine ⟨Decision.siteId_decide _ _ _, Decision.source_decide _ _ _,
    hchanges.trans (isProposal_decisionOn_iff site), fun h => hstubs (hchanges.mp h), ?_⟩
  by_cases hproposal : (decisionOn text granularity config site).isProposal = true
  · obtain ⟨-, -, hcreate, -⟩ := (isProposal_decisionOn_iff site).mp hproposal
    have hsource : (decisionOn text granularity config site).source = .create :=
      (Decision.source_decide _ _ _).trans hcreate
    rw [hstubs hproposal, hsource]
    decide
  · rw [Decision.target_of_not_isProposal (Bool.not_eq_true _ ▸ hproposal)]

/-- Every text has a plan whose decisions are safe, that leaves a text alone which is no unit spec,
and that leaves every call alone which lies in the arguments of another one while nested
construction is looked for. -/
theorem Plan.exists_isSafe (text : Text) (granularity : Option Text) (config : Config) :
    ∃ plan, Plan.ofText text granularity config = .ok plan ∧
      plan.analysis.sites = CallSite.extract text ∧
      List.Forall₂ (Decision.IsSafe plan.analysis.resolution.granularity config text)
        plan.analysis.sites plan.analysis.decisions ∧
      (plan.analysis.resolution.granularity ≠ .unit → plan.candidate = text) ∧
      (.nestedConstruction ∈ config.detectors →
        List.Forall₂ (fun call d =>
            (∃ outer ∈ CallSite.calls text (mask text),
              outer ≠ call ∧ outer.holds call = true) → d.target = d.source)
          (CallSite.calls text (mask text)) plan.analysis.decisions) := by
  refine ⟨_, Plan.ofText_eq text granularity config, rfl, ?_, ?_, ?_⟩
  · rw [Analysis.sites_ofText, Analysis.decisions_ofText, List.forall₂_map_right_iff,
      List.forall₂_same]
    exact fun site _ => Analysis.isSafe_decisionOn text granularity config site
  · exact fun hunit => Analysis.fill_template_of_not_unit _ hunit
  · intro hnested
    rw [Analysis.decisions_ofText, CallSite.extract_eq_map, List.map_map,
      List.forall₂_map_right_iff, List.forall₂_same]
    rintro call hcall ⟨outer, houter, hother, hholds⟩
    by_contra hchange
    have hsafe := Analysis.isSafe_decisionOn text granularity config (CallSite.siteOf text call)
    obtain ⟨-, -, -, hnone⟩ := hsafe.changes.mp hchange
    have hmatch := hnone .nestedConstruction hnested
    have hstart : outer.start ≠ call.start := fun h =>
      hother (CallSite.eq_of_start_eq houter hcall h)
    rw [Detector.isMatch_nestedConstruction,
      (CallSite.isSome_enclosingVariant_iff text call).mpr
        ⟨outer, houter, hstart, hholds⟩] at hmatch
    cases hmatch

end FactoryDowngrade
