import FactoryDowngrade.Proofs.CommentedCalls
import FactoryDowngrade.Proofs.Sightings
import FactoryDowngrade.Proofs.StableExtraction

/-!
# Comments are inert

Texts that differ in what a comment in top-level code says have the same scope, and their call sites
stand at the same places, one inside another as before. The calls can be read alike, have the same
names bound to them and are decided on alike, unless what the comment says closes a quoted symbol
that a call left open in front of it.
-/

namespace FactoryDowngrade

namespace CallSite

/-! ### Sites around a comment -/

/-- Lists that look the same in a view agree in it element by element. -/
theorem forall₂_of_map_eq {α β : Type} {view : α → β} {l l' : List α}
    (h : l'.map view = l.map view) : List.Forall₂ (fun x x' => view x' = view x) l l' := by
  rw [← List.forall₂_eq_eq_eq, List.forall₂_map_left_iff, List.forall₂_map_right_iff] at h
  exact h.flip

/-- A call without what is read of its arguments. -/
def Call.bare (c : Call) : Call :=
  { c with schemaName := none, fault := none }

/-- Bare calls agree in all that a bare call shows. -/
theorem Call.eq_of_bare {α : Type} (view : Call → α) (hview : ∀ c, view c.bare = view c)
    {c c' : Call} (h : c'.bare = c.bare) : view c' = view c := by
  rw [← hview c', h, hview]

/-- Which of two calls is the inner one is told by places alone. -/
theorem Call.innermost_bare (best : Option Call) (other : Call) :
    innermost (best.map bare) other.bare = (innermost best other).map bare := by
  cases best with
  | none => rfl
  | some last =>
    change (if last.argsStart ≤ other.argsStart then some other.bare else some last.bare) =
      Option.map bare (if last.argsStart ≤ other.argsStart then some other else some last)
    split <;> rfl

/-- So is the innermost of many. -/
theorem Call.foldl_innermost_bare (others : List Call) (best : Option Call) :
    (others.map bare).foldl innermost (best.map bare) =
      (others.foldl innermost best).map bare := by
  induction others generalizing best with
  | nil => rfl
  | cons other others ih =>
    rw [List.map_cons, List.foldl_cons, List.foldl_cons, innermost_bare, ih]

/-- What encloses a call is told by places alone. -/
theorem Call.enclosing?_bare (all : List Call) (c : Call) :
    enclosing? (all.map bare) c.bare = (enclosing? all c).map bare := by
  rw [enclosing?_eq_foldl, enclosing?_eq_foldl, List.filter_map]
  exact foldl_innermost_bare _ none

/-- What sites have in common that stand at the same place in texts with the same mask. -/
structure IsSamePlace (s s' : CallSite) : Prop where
  variant : s'.variant = s.variant
  sourceSpan : s'.sourceSpan = s.sourceSpan
  calleeSpan : s'.calleeSpan = s.calleeSpan
  enclosingVariant : s'.enclosingVariant = s.enclosingVariant

section Sites

variable {text text' : Text} {call call' : Call}

/-- Calls that agree but for their faults are inside the same calls. -/
theorem enclosingVariant_siteOf
    (hcalls : (calls text' (mask text')).map Call.bare = (calls text (mask text)).map Call.bare)
    (h : call'.bare = call.bare) :
    (siteOf text' call').enclosingVariant = (siteOf text call).enclosingVariant := by
  have henclosing := Call.enclosing?_bare (calls text' (mask text')) call'
  rw [hcalls, h, Call.enclosing?_bare] at henclosing
  have hvariant := congrArg (Option.map Call.variant) henclosing
  rw [Option.map_map, Option.map_map] at hvariant
  exact hvariant.symm

/-- Their sites stand at the same places. -/
theorem isSamePlace_siteOf (hmask : mask text' = mask text)
    (hcalls : (calls text' (mask text')).map Call.bare = (calls text (mask text)).map Call.bare)
    (h : call'.bare = call.bare) : IsSamePlace (siteOf text call) (siteOf text' call') := by
  have hindex : LineIndex.ofText text' = LineIndex.ofText text := by
    rw [← LineIndex.ofText_mask, hmask, LineIndex.ofText_mask]
  refine ⟨Call.eq_of_bare Call.variant (fun _ => rfl) h, ?_, ?_, enclosingVariant_siteOf hcalls h⟩
  · change (LineIndex.ofText text').span call'.start call'.stop = _
    rw [hindex]
    exact Call.eq_of_bare (fun c => (LineIndex.ofText text).span c.start c.stop) (fun _ => rfl) h
  · change (LineIndex.ofText text').span call'.calleeStart call'.calleeStop = _
    rw [hindex]
    exact Call.eq_of_bare (fun c => (LineIndex.ofText text).span c.calleeStart c.calleeStop)
      (fun _ => rfl) h

/-- They are used alike if they have the same fault as well. -/
theorem isSameUse_siteOf_of_fault (hmask : mask text' = mask text)
    (hcalls : (calls text' (mask text')).map Call.bare = (calls text (mask text)).map Call.bare)
    (h : call'.bare = call.bare) (hfault : call'.fault = call.fault) :
    IsSameUse (siteOf text call) (siteOf text' call') := by
  have henclosing := enclosingVariant_siteOf hcalls h
  have hnone : (call'.enclosing? (calls text' (mask text'))).isNone =
      (call.enclosing? (calls text (mask text))).isNone := by
    rw [← Option.isNone_map (f := Call.variant), ← Option.isNone_map (f := Call.variant)]
    exact congrArg Option.isNone henclosing
  have hstart : call'.start = call.start := Call.eq_of_bare Call.start (fun _ => rfl) h
  have hstop : call'.stop = call.stop := Call.eq_of_bare Call.stop (fun _ => rfl) h
  refine ⟨hfault, ?_, congrArg Option.isSome henclosing⟩
  rw [siteOf, siteOf, ofCall, ofCall]
  dsimp only
  rw [hnone, hfault, hstart, hstop, hmask]

end Sites

section Commented

variable {front back comment comment' : Text}

/-- Both texts have the same calls but for their faults. -/
theorem map_bare_calls_commented (h : AreCommentsAt front back comment comment') :
    (calls (commented front comment' back) (mask (commented front comment' back))).map Call.bare =
      (calls (commented front comment back) (mask (commented front comment back))).map Call.bare :=
  map_calls_commented Call.bare h fun _ _ _ _ _ _ _ => rfl

/-- The sites of both texts stand at the same places. -/
theorem isSamePlace_extract_commented (h : AreCommentsAt front back comment comment') :
    List.Forall₂ IsSamePlace (extract (commented front comment back))
      (extract (commented front comment' back)) := by
  have hcalls := map_bare_calls_commented h
  rw [extract_eq_map, extract_eq_map, List.forall₂_map_left_iff, List.forall₂_map_right_iff]
  exact (forall₂_of_map_eq hcalls).imp fun _ _ hbare =>
    isSamePlace_siteOf h.mask_eq hcalls hbare

/-- If the comments have a double quote or none, or if no symbol is left open in front of them, the
sites of both texts have the same use as well. -/
theorem isSameUse_extract_commented (h : AreCommentsAt front back comment comment')
    (hquotes : ('"' ∈ comment ↔ '"' ∈ comment') ∨
      ∀ call ∈ calls (commented front comment back) (mask (commented front comment back)),
        ¬call.LeavesSymbolOpen (commented front comment back) front.length) :
    List.Forall₂ (fun s s' => IsSamePlace s s' ∧ IsSameUse s s')
      (extract (commented front comment back)) (extract (commented front comment' back)) := by
  have hcalls := map_bare_calls_commented h
  have hread : (calls (commented front comment' back) (mask (commented front comment' back))).map
        (fun c => (c.bare, c.fault)) =
      (calls (commented front comment back) (mask (commented front comment back))).map
        (fun c => (c.bare, c.fault)) := by
    refine map_calls_commented _ h fun head start stop last hstart hstop hmem => ?_
    have hslice : (commented front comment back).slice start front.length = front.drop start := by
      rw [Text.slice, commented, List.take_left]
    have hname : (factoryName? ((commented front comment' back).slice start stop)).isNone =
        (factoryName? ((commented front comment back).slice start stop)).isNone :=
      isNone_factoryName?_commented h.length hstart hstop fun hbehind hopen =>
        hquotes.resolve_right fun hnone => hnone _ hmem ⟨hbehind, hslice ▸ hopen⟩
    exact congrArg (fun unnamed => ((head.call [] start stop last).bare,
      if unnamed then some SiteFault.unnamedFactory else none)) hname
  rw [extract_eq_map, extract_eq_map, List.forall₂_map_left_iff, List.forall₂_map_right_iff]
  refine (forall₂_of_map_eq hread).imp fun call call' hsame => ?_
  obtain ⟨hbare, hfault⟩ := Prod.mk.inj hsame
  exact ⟨isSamePlace_siteOf h.mask_eq hcalls hbare,
    isSameUse_siteOf_of_fault h.mask_eq hcalls hbare hfault⟩

end Commented

end CallSite

/-! ### Plans -/

/-- What a detector sees does not depend on the text behind the mask. -/
theorem Detector.sees_iff_of_isSamePlace {d : Detector} {suffixes : Suffixes} {text text' : Text}
    {site site' : CallSite} (hmask : mask text' = mask text)
    (hplace : CallSite.IsSamePlace site site') (huse : CallSite.IsSameUse site site') :
    d.Sees suffixes (SpecText.ofText text') site' ↔
      d.Sees suffixes (SpecText.ofText text) site := by
  have hshows (p : Pattern) : Evidence.Shows (SpecText.ofText text') p ↔
      Evidence.Shows (SpecText.ofText text) p := by
    simp only [Evidence.Shows, SpecText.ofText, hmask]
  have hcontained (fits : Text → Bool) :
      Evidence.IsContained (SpecText.ofText text') site' fits ↔
        Evidence.IsContained (SpecText.ofText text) site fits := by
    simp only [Evidence.IsContained, SpecText.ofText, hmask, hplace.sourceSpan]
  have hreceived (name : Text) (fits : Text → Bool) :
      Evidence.IsReceived (SpecText.ofText text') name fits ↔
        Evidence.IsReceived (SpecText.ofText text) name fits := by
    simp only [Evidence.IsReceived, SpecText.ofText, hmask]
  unfold Sees
  simp only [hshows, hcontained, hreceived, huse.bindingName, huse.enclosed]

namespace Analysis

variable {text text' : Text} {granularity : Option Text} {config : Config}

/-- Texts with the same mask have the same scope. -/
theorem resolution_eq (hmask : mask text' = mask text) :
    (ofText text' granularity config).resolution = (ofText text granularity config).resolution := by
  simp only [ofText, Granularity.resolve, Granularity.infer?, hmask]

/-- Calls at the same place that are read alike are decided on alike. -/
theorem target_decisionOn_eq {site site' : CallSite} (hmask : mask text' = mask text)
    (hplace : CallSite.IsSamePlace site site') (huse : CallSite.IsSameUse site site') :
    (decisionOn text' granularity config site').target =
      (decisionOn text granularity config site).target := by
  have hmatch (d : Detector) :
      (d.detect config.suffixes (SpecText.ofText text') site').isMatch =
        (d.detect config.suffixes (SpecText.ofText text) site).isMatch := by
    rw [Bool.eq_iff_iff, Detector.isMatch_detect_iff, Detector.isMatch_detect_iff,
      Detector.sees_iff_of_isSamePlace hmask hplace huse]
  have hproposal : (decisionOn text' granularity config site').isProposal = true ↔
      (decisionOn text granularity config site).isProposal = true := by
    simp only [isProposal_decisionOn_iff, resolution_eq hmask, huse.fault, hplace.variant, hmatch]
  by_cases h : (decisionOn text granularity config site).isProposal = true
  · exact (Decision.target_of_isProposal (hproposal.mpr h)).trans
      (Decision.target_of_isProposal h).symm
  · have h' := mt hproposal.mp h
    rw [Bool.not_eq_true] at h h'
    rw [Decision.target_of_not_isProposal h, Decision.target_of_not_isProposal h']
    simp only [decisionOn, Decision.source_decide, hplace.variant]

end Analysis

/-- Whatever a comment in top-level code says, a text of its length has the same mask, the same
scope and calls of the same strategies at the same places, one inside another as before. If both
comments have a double quote or none, or if no call leaves a quoted symbol open in front of the
comment, then each call can be read as before, has the same name bound to it and is given the same
strategy. -/
theorem Plan.exists_isSamePlace_commented {front back comment comment' : Text}
    (h : AreCommentsAt front back comment comment') (granularity : Option Text)
    (config : Config) :
    mask (commented front comment' back) = mask (commented front comment back) ∧
      ∃ plan plan', Plan.ofText (commented front comment back) granularity config = .ok plan ∧
        Plan.ofText (commented front comment' back) granularity config = .ok plan' ∧
        plan'.analysis.resolution = plan.analysis.resolution ∧
        List.Forall₂ CallSite.IsSamePlace plan.analysis.sites plan'.analysis.sites ∧
        (('"' ∈ comment ↔ '"' ∈ comment') ∨
            (∀ call ∈ CallSite.calls (commented front comment back)
                (mask (commented front comment back)),
              ¬call.LeavesSymbolOpen (commented front comment back) front.length) →
          List.Forall₂ CallSite.IsSameUse plan.analysis.sites plan'.analysis.sites ∧
          List.Forall₂ (fun d d' => d'.target = d.target)
            plan.analysis.decisions plan'.analysis.decisions) := by
  refine ⟨h.mask_eq, _, _, Plan.ofText_eq _ granularity config, Plan.ofText_eq _ granularity config,
    Analysis.resolution_eq h.mask_eq, ?_, fun hquotes => ?_⟩
  · exact CallSite.isSamePlace_extract_commented h
  · have hsites := CallSite.isSameUse_extract_commented h hquotes
    refine ⟨hsites.imp fun _ _ hsame => hsame.2, ?_⟩
    rw [Analysis.decisions_ofText, Analysis.decisions_ofText, List.forall₂_map_left_iff,
      List.forall₂_map_right_iff]
    exact hsites.imp fun _ _ ⟨hplace, huse⟩ =>
      Analysis.target_decisionOn_eq h.mask_eq hplace huse

namespace Plan

/-- A comment on the line of an opener, with a call before it and the body of the heredoc behind
it. -/
theorem exists_isSamePlace_commented_opener :
    AreCommentsAt "save(<<~TEXT, create(:user)) ".toList "  text\nTEXT\n".toList " keep".toList
      " drop".toList ∧
    ∃ plan plan',
      Plan.ofText (commented "save(<<~TEXT, create(:user)) ".toList " keep".toList
        "  text\nTEXT\n".toList) (some "unit".toList) .default = .ok plan ∧
      Plan.ofText (commented "save(<<~TEXT, create(:user)) ".toList " drop".toList
        "  text\nTEXT\n".toList) (some "unit".toList) .default = .ok plan' ∧
      List.Forall₂ CallSite.IsSamePlace plan.analysis.sites plan'.analysis.sites ∧
      List.Forall₂ CallSite.IsSameUse plan.analysis.sites plan'.analysis.sites ∧
      List.Forall₂ (fun d d' => d'.target = d.target)
        plan.analysis.decisions plan'.analysis.decisions := by
  have hcomments : AreCommentsAt "save(<<~TEXT, create(:user)) ".toList "  text\nTEXT\n".toList
      " keep".toList " drop".toList :=
    { topLevel := ⟨Scan.steps 23 (Scan.start _), ⟨23, rfl⟩, by decide, by decide⟩
      unbroken := by decide
      unbroken' := by decide
      length := by decide }
  obtain ⟨-, plan, plan', hplan, hplan', -, hplaces, huses⟩ :=
    exists_isSamePlace_commented hcomments (some "unit".toList) .default
  exact ⟨hcomments, plan, plan', hplan, hplan', hplaces, huses (.inl (by decide))⟩

/-- A quoted symbol that opens in the body of a heredoc runs on through the comment. With double
quotes in the comment it has an end, the call has a factory, and the record is stubbed. -/
theorem exists_target_ne_commented :
    AreCommentsAt "save(<<~TEXT, create(\n  :\"user\nTEXT\n  ".toList "))\n".toList
      " the 'author'".toList " the \"author\"".toList ∧
    ∃ plan plan',
      Plan.ofText (commented "save(<<~TEXT, create(\n  :\"user\nTEXT\n  ".toList
        " the 'author'".toList "))\n".toList) (some "unit".toList) .default = .ok plan ∧
      Plan.ofText (commented "save(<<~TEXT, create(\n  :\"user\nTEXT\n  ".toList
        " the \"author\"".toList "))\n".toList) (some "unit".toList) .default = .ok plan' ∧
      plan.analysis.decisions.map (·.target) = [.create] ∧
      plan'.analysis.decisions.map (·.target) = [.buildStubbed] := by
  refine ⟨⟨?_, by decide, by decide, by decide⟩, _, _,
    ofText_eq _ (some "unit".toList) .default, ofText_eq _ (some "unit".toList) .default,
    by decide +kernel, by decide +kernel⟩
  exact ⟨Scan.steps 18 (Scan.start _), ⟨18, rfl⟩, by decide +kernel, by decide +kernel⟩

end Plan

end FactoryDowngrade
