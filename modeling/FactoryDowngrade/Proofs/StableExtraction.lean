import FactoryDowngrade.Proofs.MaskedTemplate
import FactoryDowngrade.Proofs.Template.LazyBlocks
import FactoryDowngrade.Proofs.Template.Mask

/-!
# The candidate has the same call sites

A text and its candidate are two fillings of one template, and so are their masked forms, unless a
call to be changed stands where a heredoc has its tag: renaming a tag would take the end of the
heredoc away. Apart from that every call of the text is one of the candidate, at the same items of
the template, with the strategy that was decided for it, the same fault and the same name bound to
it, inside another call or not.
-/

namespace FactoryDowngrade

open Template

namespace CallSite

/-- What a site of a candidate has in common with the site that it was. -/
structure IsSameUse (s s' : CallSite) : Prop where
  fault : s'.fault = s.fault
  bindingName : s'.bindingName = s.bindingName
  enclosed : s'.enclosingVariant.isSome = s.enclosingVariant.isSome

/-- A call of a masked template makes sites with the same use in the fillings of the text. -/
theorem isSameUse_siteOf {t m : Template}
    (hmask : ∀ f : Filling, mask (fill f.word t) = fill f.word m) (horderly : IsOrderly m)
    {ks : List SpotCall} (hks : ∀ k ∈ ks, k.IsIn m)
    (hcalls : ∀ f : Filling, calls (fill f.word t) (fill f.word m) = ks.map (·.call m f))
    {k : SpotCall} (hk : k ∈ ks) (f g : Filling) :
    IsSameUse (siteOf (fill f.word t) (k.call m f)) (siteOf (fill g.word t) (k.call m g)) := by
  obtain ⟨enclosed, henclosed⟩ := SpotCall.exists_enclosing? hks (hks k hk)
  obtain ⟨bound, hbound⟩ := exists_boundName?_fill horderly k.start (hks k hk).stop
  have henclosing (f : Filling) :
      (siteOf (fill f.word t) (k.call m f)).enclosingVariant.isSome = enclosed := by
    rw [← henclosed f, siteOf, ofCall, hmask f, hcalls f, Option.isSome_map]
  have hbinding (f : Filling) : (siteOf (fill f.word t) (k.call m f)).bindingName =
      if !enclosed && k.fault.isNone then bound else none := by
    rw [← henclosed f, ← hbound f, Option.not_isSome, siteOf, ofCall, hmask f, hcalls f]
    rfl
  exact ⟨rfl, by rw [hbinding f, hbinding g], by rw [henclosing f, henclosing g]⟩

end CallSite

namespace Analysis

open CallSite

variable {text : Text} {granularity : Option Text} {config : Config}

/-- The masked form of either filling of the template is that filling of the masked template. -/
theorem mask_fill_template (htags : ∀ s ∈ proposedSites text granularity config, ¬s.IsTag text)
    (f : Filling) : mask (fill f.word (template text granularity config)) =
      fill f.word (maskedTemplate text granularity config) := by
  refine mask_fill (sameSlots_maskedTemplate text granularity config)
    (isOrderly_maskedTemplate text granularity config) (isUntagged_maskedTemplate htags)
    (f := .created) ?_ f
  rw [fill_created_maskedTemplate]
  exact congrArg mask (fill_create_template text granularity config)

/-- A call stands at a slot just when its site is to change. -/
theorem fixed_eq_none_iff {k : SpotCall}
    (hin : k.IsIn (maskedTemplate text granularity config))
    (hcall : k.call (maskedTemplate text granularity config) .created ∈ calls text (mask text)) :
    k.fixed = none ↔ (decisionOn text granularity config
      (siteOf text (k.call (maskedTemplate text granularity config) .created))).isProposal =
        true := by
  rw [hin.slot]
  constructor
  · intro hslot
    obtain ⟨s, hs, hstart⟩ := exists_mem_proposedSites_iff.mpr ⟨k.calleeStart, hslot, rfl⟩
    obtain ⟨call, hmem, rfl, -⟩ := exists_call_of_mem_proposedSites hs
    obtain rfl := eq_of_calleeStart_eq hmem hcall hstart
    exact (List.mem_filter.mp hs).2
  · intro hproposal
    have hmem : siteOf text (k.call _ .created) ∈ proposedSites text granularity config :=
      List.mem_filter.mpr ⟨List.mem_map_of_mem hcall, hproposal⟩
    obtain ⟨index, hindex, hstart⟩ := exists_mem_proposedSites_iff.mp ⟨_, hmem, rfl⟩
    have hle := (List.getElem?_eq_some_iff.mp hindex).1
    obtain rfl : k.calleeStart = index :=
      (offsetOf_inj Filling.created.isSlotWord_word hin.calleeStart hle.le).mp hstart
    exact hindex

/-- In the candidate a call has the strategy that was decided for it. -/
theorem variant_stubbed_eq_target {k : SpotCall}
    (hin : k.IsIn (maskedTemplate text granularity config))
    (hcall : k.call (maskedTemplate text granularity config) .created ∈ calls text (mask text)) :
    k.variant .stubbed = (decisionOn text granularity config
      (siteOf text (k.call (maskedTemplate text granularity config) .created))).target := by
  have hslot := fixed_eq_none_iff hin hcall
  cases hfixed : k.fixed with
  | none =>
    have htarget := Decision.target_of_isProposal (hslot.mp hfixed)
    rw [SpotCall.variant, hfixed]
    exact htarget.symm
  | some v =>
    have hkeeps : (decisionOn text granularity config (siteOf text
        (k.call (maskedTemplate text granularity config) .created))).isProposal = false := by
      rw [← Bool.not_eq_true, ← hslot, hfixed]
      exact Option.some_ne_none v
    rw [Decision.target_of_not_isProposal hkeeps, decisionOn, Decision.source_decide]
    change k.fixed.getD Variant.buildStubbed = k.fixed.getD Variant.create
    rw [hfixed]
    rfl

/-- The sites of both fillings are those of the same calls on the masked template. -/
theorem exists_extract_fill (htags : ∀ s ∈ proposedSites text granularity config, ¬s.IsTag text) :
    ∃ ks : List SpotCall, (∀ k ∈ ks, k.IsIn (maskedTemplate text granularity config)) ∧
      (∀ f : Filling, calls (fill f.word (template text granularity config))
        (fill f.word (maskedTemplate text granularity config)) =
          ks.map (·.call (maskedTemplate text granularity config) f)) ∧
      ∀ f : Filling, extract (fill f.word (template text granularity config)) = ks.map fun k =>
        siteOf (fill f.word (template text granularity config))
          (k.call (maskedTemplate text granularity config) f) := by
  obtain ⟨ks, hks, hcalls⟩ := exists_calls_fill (isOrderly_maskedTemplate text granularity config)
    (sameSlots_maskedTemplate text granularity config)
  refine ⟨ks, hks, hcalls, fun f => ?_⟩
  rw [extract_eq_map, mask_fill_template htags f, hcalls f, List.map_map]
  rfl

/-- The calls on the masked template are calls of the text. -/
theorem call_mem_calls {ks : List SpotCall} (hcalls : ∀ f : Filling,
      calls (fill f.word (template text granularity config))
        (fill f.word (maskedTemplate text granularity config)) =
          ks.map (·.call (maskedTemplate text granularity config) f))
    {k : SpotCall} (hk : k ∈ ks) :
    k.call (maskedTemplate text granularity config) .created ∈ calls text (mask text) := by
  have hcreated := hcalls .created
  have htext : fill Filling.created.word (template text granularity config) = text :=
    fill_create_template text granularity config
  rw [htext, fill_created_maskedTemplate] at hcreated
  exact hcreated ▸ List.mem_map_of_mem hk

end Analysis

/-- Unless a call to be changed stands where a heredoc has its tag, every text has a plan whose
candidate has the sites of the text: each with the strategy that was decided for it, the same fault
and the same name bound to it, and inside another call just when it was before. -/
theorem Plan.exists_isSameUse {text : Text} {granularity : Option Text} {config : Config}
    (htags : ∀ s ∈ Analysis.proposedSites text granularity config, ¬s.IsTag text) :
    ∃ plan, Plan.ofText text granularity config = .ok plan ∧
      List.Forall₂ (fun (d : Decision) (s : CallSite) => s.variant = d.target)
        plan.analysis.decisions (CallSite.extract plan.candidate) ∧
      List.Forall₂ CallSite.IsSameUse plan.analysis.sites (CallSite.extract plan.candidate) := by
  refine ⟨_, Plan.ofText_eq text granularity config, ?_⟩
  obtain ⟨ks, hks, hcalls, hextract⟩ := Analysis.exists_extract_fill htags
  have htext : fill Filling.created.word (Analysis.template text granularity config) = text :=
    Analysis.fill_create_template text granularity config
  have hsites := hextract .created
  rw [htext] at hsites
  have hcandidate := hextract .stubbed
  rw [Analysis.sites_ofText, Analysis.decisions_ofText, hsites]
  change List.Forall₂ _ _ (CallSite.extract (fill Filling.stubbed.word _)) ∧
    List.Forall₂ _ _ (CallSite.extract (fill Filling.stubbed.word _))
  rw [hcandidate, List.map_map, List.forall₂_map_left_iff, List.forall₂_map_right_iff,
    List.forall₂_map_left_iff, List.forall₂_map_right_iff, List.forall₂_same, List.forall₂_same]
  refine ⟨fun k hk => ?_, fun k hk => ?_⟩
  · exact Analysis.variant_stubbed_eq_target (hks k hk) (Analysis.call_mem_calls hcalls hk)
  · have huse := CallSite.isSameUse_siteOf (Analysis.mask_fill_template htags)
      (Analysis.isOrderly_maskedTemplate text granularity config) hks hcalls hk .created .stubbed
    rwa [htext] at huse

namespace Plan

/-- The one call of a line is the one call of the candidate. -/
theorem exists_isSameUse_lone :
    (∀ s ∈ Analysis.proposedSites "user = create(:user)".toList (some "unit".toList) .default,
      ¬s.IsTag "user = create(:user)".toList) ∧
    ∃ plan, Plan.ofText "user = create(:user)".toList (some "unit".toList) .default = .ok plan ∧
      List.Forall₂ (fun (d : Decision) (s : CallSite) => s.variant = d.target)
        plan.analysis.decisions (CallSite.extract plan.candidate) ∧
      List.Forall₂ CallSite.IsSameUse plan.analysis.sites (CallSite.extract plan.candidate) := by
  have htags : ∀ s ∈ Analysis.proposedSites "user = create(:user)".toList (some "unit".toList)
      .default, ¬s.IsTag "user = create(:user)".toList := by decide +kernel
  exact ⟨htags, exists_isSameUse htags⟩

/-- The tag of a heredoc, with a string beside it, is taken for a call. Once it is renamed the
heredoc has no end, and the call behind it is lost. -/
theorem exists_length_extract_candidate_ne :
    ∃ plan, Plan.ofText "x = <<~create 'post'\n  body\ncreate\nuser = create(:user)\n".toList
        (some "unit".toList) .default = .ok plan ∧
      plan.analysis.sites.length = 2 ∧ (CallSite.extract plan.candidate).length = 1 := by
  exact ⟨_, ofText_eq _ (some "unit".toList) .default, by decide +kernel, by decide +kernel⟩

end Plan

end FactoryDowngrade
