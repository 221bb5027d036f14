import FactoryDowngrade.Plan
import FactoryDowngrade.Proofs.CallSiteSpans
import FactoryDowngrade.Proofs.Template.Basic

/-!
# The candidate of a plan

The analysis of a text comes to one decision on each of its sites. The method names of the sites
that it proposes to change are the slots of a template: the text is the template filled with
`create`, and the candidate is the same template filled with `build_stubbed`. So a plan always has
a candidate, whatever the text and the configuration are.
-/

namespace FactoryDowngrade

open Template

/-! ### One decision -/

namespace Decision

/-- A decision is on its site. -/
@[simp] theorem siteId_decide (g : Granularity) (site : CallSite) (evidence : List Evidence) :
    (decide g site evidence).siteId = site.id := by
  unfold decide
  split <;> rfl

/-- It starts from the variant of the site. -/
@[simp] theorem source_decide (g : Granularity) (site : CallSite) (evidence : List Evidence) :
    (decide g site evidence).source = site.variant := by
  unfold decide
  split <;> rfl

/-- No decision is applied when it is made. -/
@[simp] theorem applied_decide (g : Granularity) (site : CallSite) (evidence : List Evidence) :
    (decide g site evidence).applied = false := by
  unfold decide
  split <;> rfl

/-- A strategy is changed only at `create` in a unit spec without a sign of persistence. -/
theorem choose_ne_iff (g : Granularity) (signal : PersistenceSignal) (present : Variant) :
    Variant.choose g signal present ≠ present ↔
      g = .unit ∧ signal = .noEvidence ∧ present = .create := by
  cases g <;> cases signal <;> cases present <;> decide

/-- There is no evidence just when no detector has a match. -/
theorem ofEvidence_eq_noEvidence_iff (evidence : List Evidence) :
    PersistenceSignal.ofEvidence evidence = .noEvidence ↔
      ∀ e ∈ evidence, e.isMatch = false := by
  unfold PersistenceSignal.ofEvidence
  split <;> simp_all

/-- What it takes for a decision to propose a change. -/
theorem isProposal_decide_iff (g : Granularity) (site : CallSite) (evidence : List Evidence) :
    (decide g site evidence).isProposal = true ↔
      site.fault = none ∧ g = .unit ∧ (∀ e ∈ evidence, e.isMatch = false) ∧
        site.variant = .create := by
  unfold decide isProposal isNoop
  cases hfault : site.fault with
  | some fault => simp
  | none =>
    have hchoose := choose_ne_iff g (PersistenceSignal.ofEvidence evidence) site.variant
    simpa [ofEvidence_eq_noEvidence_iff] using hchoose

/-- Every proposal is to stub a created record. -/
theorem target_of_isProposal {g : Granularity} {site : CallSite} {evidence : List Evidence}
    (h : (decide g site evidence).isProposal = true) :
    (decide g site evidence).target = .buildStubbed := by
  obtain ⟨hfault, hunit, hnone, hcreate⟩ := (isProposal_decide_iff g site evidence).mp h
  have hsignal := (ofEvidence_eq_noEvidence_iff evidence).mpr hnone
  rw [decide, hfault]
  simp only [hunit, hsignal, hcreate]
  rfl

/-- A decision that proposes nothing keeps the strategy. -/
theorem target_of_not_isProposal {d : Decision} (h : d.isProposal = false) :
    d.target = d.source := by
  simpa [isProposal, isNoop] using h

end Decision

/-! ### The patches of a list of decisions -/

namespace Patch

/-- Among sites with different names a site is found by its name. -/
theorem siteOf?_id {sites : List CallSite} (hids : sites.Pairwise fun a b => a.id ≠ b.id)
    {site : CallSite} (hmem : site ∈ sites) : siteOf? sites site.id = some site := by
  have hreverse : sites.reverse.Pairwise fun a b => a.id ≠ b.id :=
    List.pairwise_reverse.mpr (hids.imp Ne.symm)
  exact find?_name_of_mem hreverse (List.mem_reverse.mpr hmem)

/-- Decisions that propose nothing make no patches. -/
theorem ofDecisions_filter (sites : List CallSite) (decisions : List Decision) :
    ofDecisions sites (decisions.filter (·.isProposal)) = ofDecisions sites decisions := by
  unfold ofDecisions
  rw [List.filter_filter]
  simp only [Bool.and_self]

/-- Patches are made for decisions one after the other, if one can be made for each of them. -/
theorem mapM_eq_ok_map {sites : List CallSite} {decide : CallSite → Decision}
    {make : Decision → Except String Patch}
    (hmake : ∀ s ∈ sites, make (decide s) = .ok (ofDecision s (decide s))) :
    (sites.map decide).mapM make = .ok (sites.map fun s => ofDecision s (decide s)) := by
  induction sites with
  | nil => rfl
  | cons s sites ih =>
    obtain ⟨hfirst, hrest⟩ := List.forall_mem_cons.mp hmake
    rw [List.map_cons, List.mapM_cons, hfirst, ih hrest]
    rfl

/-- One decision on each site makes a patch for every site that is to change. -/
theorem ofDecisions_map {sites : List CallSite} (hids : sites.Pairwise fun a b => a.id ≠ b.id)
    {decide : CallSite → Decision} (hnamed : ∀ site, (decide site).siteId = site.id) :
    ofDecisions sites (sites.map decide) =
      .ok ((sites.filter fun s => (decide s).isProposal).map fun s =>
        ofDecision s (decide s)) := by
  unfold ofDecisions
  rw [List.filter_map]
  refine mapM_eq_ok_map fun s hs => ?_
  rw [hnamed, siteOf?_id hids (List.mem_filter.mp hs).1]

end Patch

/-! ### The plan of a text -/

namespace Analysis

variable (text : Text) (granularity : Option Text) (config : Config)

/-- The evidence that the configured detectors leave about a site of a text. -/
def evidenceOn (site : CallSite) : List Evidence :=
  Evidence.collect config.detectors config.suffixes (SpecText.ofText text) site

/-- What the analysis of a text decides about a site. -/
def decisionOn (site : CallSite) : Decision :=
  Decision.decide (Granularity.resolve text granularity config.defaultGranularity).granularity site
    (evidenceOn text config site)

/-- The sites of a text that its analysis proposes to change. -/
def proposedSites : List CallSite :=
  (CallSite.extract text).filter fun s => (decisionOn text granularity config s).isProposal

/-- The ranges of the method names that are to change. -/
def proposedSpans : List (Nat × Nat) :=
  (proposedSites text granularity config).map fun s => (s.calleeSpan.start, s.calleeSpan.stop)

/-- The text with a slot for each method name that is to change. -/
def template : Template :=
  ofSpans text 0 (proposedSpans text granularity config)

/-- The sites are those that the extraction finds. -/
theorem sites_ofText : (ofText text granularity config).sites = CallSite.extract text := rfl

/-- There is one decision on each site. -/
theorem decisions_ofText : (ofText text granularity config).decisions =
    (CallSite.extract text).map (decisionOn text granularity config) := rfl

/-- Each decision names its site. -/
theorem forall₂_siteId_ofText : List.Forall₂ (fun (s : CallSite) d => d.siteId = s.id)
    (ofText text granularity config).sites (ofText text granularity config).decisions := by
  rw [sites_ofText, decisions_ofText, List.forall₂_map_right_iff, List.forall₂_same]
  exact fun s _ => Decision.siteId_decide _ s _

/-- There is one proposal for each site that is to change. -/
theorem proposals_ofText : (ofText text granularity config).proposals =
    (proposedSites text granularity config).map (decisionOn text granularity config) := by
  rw [proposals, decisions_ofText, List.filter_map]
  rfl

variable {text granularity config}

/-- A site that is to change belongs to a call of the text. -/
theorem exists_call_of_mem_proposedSites {s : CallSite}
    (h : s ∈ proposedSites text granularity config) :
    ∃ call ∈ CallSite.calls text (mask text), s = CallSite.siteOf text call ∧
      call.variant = .create := by
  obtain ⟨hmem, hproposal⟩ := List.mem_filter.mp h
  rw [CallSite.extract_eq_map] at hmem
  obtain ⟨call, hcall, rfl⟩ := List.mem_map.mp hmem
  obtain ⟨-, -, -, hcreate⟩ := (Decision.isProposal_decide_iff _ _ _).mp hproposal
  exact ⟨call, hcall, rfl, hcreate⟩

/-- A range that is to change holds the method name of such a call. -/
theorem exists_call_of_mem_proposedSpans {span : Nat × Nat}
    (h : span ∈ proposedSpans text granularity config) :
    ∃ call : CallSite.Call, call.IsSpelled text ∧ call.variant = .create ∧
      span = (call.calleeStart, call.calleeStop) := by
  obtain ⟨s, hs, rfl⟩ := List.mem_map.mp h
  obtain ⟨call, hcall, rfl, hcreate⟩ := exists_call_of_mem_proposedSites hs
  exact ⟨call, CallSite.isSpelled_of_mem_calls hcall, hcreate, rfl⟩

variable (text granularity config)

/-- The method names that are to change spell `create`. -/
theorem isSpelling_proposedSpans :
    IsSpelling Variant.create.method.toList text 0 (proposedSpans text granularity config) where
  ordered := by
    have hsites : (CallSite.extract text).Pairwise fun a b =>
        a.calleeSpan.stop ≤ b.calleeSpan.start := by
      rw [CallSite.extract_eq_map, List.pairwise_map]
      refine (CallSite.pairwise_calls text (mask text)).imp_of_mem fun {a b} _ hb hab => ?_
      exact Nat.le_trans hab (CallSite.isSpelled_of_mem_calls hb).start_le
    rw [proposedSpans, List.pairwise_map]
    exact hsites.sublist List.filter_sublist
  behind := fun _ _ => Nat.zero_le _
  long := by
    intro span hspan
    obtain ⟨call, hspelled, hcreate, rfl⟩ := exists_call_of_mem_proposedSpans hspan
    exact hcreate ▸ hspelled.stop_eq
  inside := by
    intro span hspan
    obtain ⟨call, hspelled, -, rfl⟩ := exists_call_of_mem_proposedSpans hspan
    exact hspelled.stop_le
  slice := by
    intro span hspan
    obtain ⟨call, hspelled, hcreate, rfl⟩ := exists_call_of_mem_proposedSpans hspan
    exact hcreate ▸ hspelled.slice

/-- The text is its template filled with `create`. -/
theorem fill_create_template :
    fill Variant.create.method.toList (template text granularity config) = text :=
  fill_ofSpans (isSpelling_proposedSpans text granularity config)

/-- The slots of the template are the method names that are to change. -/
theorem slots_create_template :
    slots Variant.create.method.toList 0 (template text granularity config) =
      proposedSpans text granularity config :=
  slots_ofSpans (isSpelling_proposedSpans text granularity config)

/-- The decisions make the patches that stub the slots of the template. -/
theorem ofDecisions_decisions :
    Patch.ofDecisions (CallSite.extract text) (ofText text granularity config).decisions =
      .ok ((proposedSpans text granularity config).map
        (patch Variant.buildStubbed.method.toList)) := by
  have hnamed (site : CallSite) : (decisionOn text granularity config site).siteId = site.id :=
    Decision.siteId_decide _ site _
  rw [decisions_ofText, Patch.ofDecisions_map (CallSite.pairwise_id_extract text) hnamed,
    proposedSpans, List.map_map]
  congr 1
  refine List.map_congr_left fun s hs => ?_
  have htarget := Decision.target_of_isProposal (List.mem_filter.mp hs).2
  rw [Patch.ofDecision, decisionOn, htarget]
  rfl

/-- Carrying the decisions out fills the template with `build_stubbed`. -/
theorem candidateText_decisions :
    candidateText text (CallSite.extract text) (ofText text granularity config).decisions =
      .ok (fill Variant.buildStubbed.method.toList (template text granularity config)) := by
  have happly := applyAll_slots Variant.buildStubbed.method.toList
    (CallSite.method_ne_nil .create) (template text granularity config)
  rw [fill_create_template, slots_create_template] at happly
  rw [candidateText, ofDecisions_decisions]
  dsimp only
  rw [happly]
  rfl

/-- The proposals alone give the same candidate. -/
theorem candidateText_proposals :
    candidateText text (CallSite.extract text) (ofText text granularity config).proposals =
      .ok (fill Variant.buildStubbed.method.toList (template text granularity config)) := by
  rw [← candidateText_decisions, candidateText, candidateText, proposals,
    Patch.ofDecisions_filter]

end Analysis

/-- Every text has a plan, and its candidate is the template filled with `build_stubbed`. -/
theorem Plan.ofText_eq (text : Text) (granularity : Option Text) (config : Config) :
    Plan.ofText text granularity config = .ok ⟨Analysis.ofText text granularity config,
      fill Variant.buildStubbed.method.toList (Analysis.template text granularity config)⟩ := by
  rw [Plan.ofText, Analysis.sites_ofText, Analysis.candidateText_decisions]
  rfl

end FactoryDowngrade
