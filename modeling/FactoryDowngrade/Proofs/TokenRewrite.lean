import FactoryDowngrade.Proofs.PlanCandidate

/-!
# A plan rewrites tokens only

The candidate of a plan is the text with `build_stubbed` for `create` at the method names of the
proposals. Every other character is kept, seven places further on for each of those names that
ends before it, and putting `create` back gives the text.
-/

namespace FactoryDowngrade

open Template

/-- The ranges of the method names whose calls a plan changes: each proposal names its site. -/
def Plan.proposedSpans (p : Plan) : List (Nat × Nat) :=
  p.analysis.proposals.filterMap fun d =>
    (Patch.siteOf? p.analysis.sites d.siteId).map fun s => (s.calleeSpan.start, s.calleeSpan.stop)

/-- What it means that a candidate is a text with `build_stubbed` for `create` in some ranges. -/
structure IsTokenRewrite (text candidate : Text) (spans : List (Nat × Nat)) : Prop where
  spelled : ∀ span ∈ spans, text.slice span.1 span.2 = "create".toList
  stubbed : ∀ span ∈ spans.map (shiftSpan 7 spans),
    candidate.slice span.1 span.2 = "build_stubbed".toList
  length : candidate.length = text.length + 7 * spans.length
  kept : ∀ index, (∀ span ∈ spans, ¬(span.1 ≤ index ∧ index < span.2)) →
    candidate[shift 7 spans index]? = text[index]?
  restored : Patch.applyAll candidate
    ((spans.map (shiftSpan 7 spans)).map (patch "create".toList)) = .ok text

/-- Filling a template with one word and the other makes a rewrite of its slots. -/
theorem isTokenRewrite_fill (t : Template) :
    IsTokenRewrite (fill "create".toList t) (fill "build_stubbed".toList t)
      (slots "create".toList 0 t) := by
  have hgain : "build_stubbed".toList.length = "create".toList.length + 7 := by decide
  have hcreate : "create".toList ≠ [] := by decide
  have hmoved : slots "build_stubbed".toList 0 t =
      (slots "create".toList 0 t).map (shiftSpan 7 (slots "create".toList 0 t)) := by
    have hslots := slots_eq_map_shiftSpan hgain hcreate 0 0 t
    simpa only [Nat.zero_add] using hslots
  constructor
  · intro span hspan
    exact slice_slots rfl hspan
  · intro span hspan
    rw [← hmoved] at hspan
    exact slice_slots rfl hspan
  · have hlengths (word : Text) := length_fill word t
    rw [hlengths, hlengths, length_slots, hgain, Nat.mul_add]
    omega
  · intro index houtside
    exact getElem?_fill_of_outside hgain hcreate (Nat.zero_le index) houtside
  · rw [← hmoved]
    exact applyAll_slots "create".toList (by decide) t

/-- The ranges that a plan changes are those of the analysis of its text. -/
theorem Plan.proposedSpans_eq (text : Text) (granularity : Option Text) (config : Config)
    (candidate : Text) :
    Plan.proposedSpans ⟨Analysis.ofText text granularity config, candidate⟩ =
      Analysis.proposedSpans text granularity config := by
  rw [Plan.proposedSpans, Analysis.sites_ofText, Analysis.proposals_ofText, List.filterMap_map,
    Analysis.proposedSpans, ← List.filterMap_eq_map]
  refine List.filterMap_congr fun s hs => ?_
  have hid : (Analysis.decisionOn text granularity config s).siteId = s.id :=
    Decision.siteId_decide _ s _
  have hsite : Patch.siteOf? (CallSite.extract text) s.id = some s :=
    Patch.siteOf?_id (CallSite.pairwise_id_extract text) (List.mem_filter.mp hs).1
  rw [Function.comp_apply, hid, hsite]
  rfl

/-- Every text has a plan, and its candidate only changes the method names of the proposals. -/
theorem Plan.exists_isTokenRewrite (text : Text) (granularity : Option Text) (config : Config) :
    ∃ plan, Plan.ofText text granularity config = .ok plan ∧
      plan.proposedSpans.length = plan.analysis.proposals.length ∧
      IsTokenRewrite text plan.candidate plan.proposedSpans := by
  refine ⟨_, Plan.ofText_eq text granularity config, ?_, ?_⟩
  · rw [Plan.proposedSpans_eq, Analysis.proposals_ofText, List.length_map,
      Analysis.proposedSpans, List.length_map]
  · rw [Plan.proposedSpans_eq]
    have hrewrite := isTokenRewrite_fill (Analysis.template text granularity config)
    have hslots := Analysis.slots_create_template text granularity config
    have htext := Analysis.fill_create_template text granularity config
    rw [show "create".toList = Variant.create.method.toList from rfl, hslots, htext] at hrewrite
    exact hrewrite

end FactoryDowngrade
