import FactoryDowngrade.Proofs.Convergence
import FactoryDowngrade.Proofs.PlainCalls
import FactoryDowngrade.Proofs.Sightings
import FactoryDowngrade.Proofs.StableExtraction
import FactoryDowngrade.Proofs.Template.Invocations

/-!
# Planning twice changes nothing more

Whatever a detector sees about a call of a text it also sees about the call in the candidate, if the
calls that were changed are plain: the method names that were replaced belong to no sign. So a call
that was kept is kept again, and the candidate is its own candidate.
-/

namespace FactoryDowngrade

open Template Pattern

/-! ### Signs in both fillings -/

/-- A template whose masked form is a template, in which a slot is nothing but a call. -/
structure IsPlain (t m : Template) : Prop where
  masked : ∀ f : Filling, mask (fill f.word t) = fill f.word m
  orderly : IsOrderly m
  unglued : IsUnglued m
  detached : Usage.IsDetached m

/-- The text that a filling makes, as detectors read it. -/
def specOf (t : Template) (f : Filling) : SpecText :=
  SpecText.ofText (fill f.word t)

/-- A callee that fits with the one word in its slots also does with the other. -/
def FitsOn (fits : Text → Bool) : Prop :=
  ∀ callee : Template, IsLinked (outlineItems 0 callee) →
    fits (fill Filling.created.word callee) = true → fits (fill Filling.stubbed.word callee) = true

/-- The sites of one call in both fillings. -/
structure IsSitePair (m : Template) (site site' : CallSite) : Prop where
  use : CallSite.IsSameUse site site'
  place : ∃ start stop, stop ≤ m.length ∧
    site.sourceSpan.start = offsetOf Filling.created.word m start ∧
    site.sourceSpan.stop = offsetOf Filling.created.word m stop ∧
    site'.sourceSpan.start = offsetOf Filling.stubbed.word m start ∧
    site'.sourceSpan.stop = offsetOf Filling.stubbed.word m stop

namespace IsPlain

variable {t m : Template} {name : Text} {fits : Text → Bool} {site site' : CallSite}

/-- The text of a filling is masked to the filling of the masked form. -/
theorem specOf_eq (h : IsPlain t m) (f : Filling) : specOf t f =
    ⟨fill f.word t, fill f.word m, Invocation.all (fill f.word m)⟩ := by
  rw [specOf, SpecText.ofText, h.masked f]

/-- Patterns that occur in both fillings or in none. -/
theorem shows_iff (h : IsPlain t m) {p : Pattern} {pre post : Spot → Prop} (hp : Tracks pre p post)
    (hpre : ∀ s : Spot, s.whole = m → pre s) (hskips : SkipsSlots p.match? m) :
    Evidence.Shows (specOf t .created) p ↔ Evidence.Shows (specOf t .stubbed) p := by
  obtain ⟨b, hb⟩ := hp.exists_occurs (s := Spot.start m) h.orderly hpre hskips
  have hshows (f : Filling) : Evidence.Shows (specOf t f) p ↔ b = true := by
    rw [Evidence.Shows, h.specOf_eq, ← Spot.cursor_start, hb f]
  rw [hshows, hshows]

/-- A call in the arguments of an invocation is in those of its successor. -/
theorem isContained_stubbed (h : IsPlain t m) (hfits : FitsOn fits)
    (hsites : IsSitePair m site site')
    (hcontained : Evidence.IsContained (specOf t .created) site fits) :
    Evidence.IsContained (specOf t .stubbed) site' fits := by
  obtain ⟨start, stop, hstop, hstart, hend, hstart', hend'⟩ := hsites.place
  obtain ⟨found, hfound, hall⟩ := Invocation.exists_all_fill h.orderly h.unglued
  rw [Evidence.IsContained, h.specOf_eq] at hcontained ⊢
  dsimp only at hcontained ⊢
  rw [hall] at hcontained ⊢
  obtain ⟨_, hmem, hholds, hcallee⟩ := hcontained
  obtain ⟨i, hi, rfl⟩ := List.mem_map.mp hmem
  refine ⟨_, List.mem_map_of_mem hi, ?_, hfits i.callee (hfound i hi).linked hcallee⟩
  rw [hstart, hend, Invocation.holds_invocation (hfound i hi) start hstop] at hholds
  rwa [hstart', hend', Invocation.holds_invocation (hfound i hi) start hstop]

/-- A name that an invocation refers to is one that its successor refers to. -/
theorem isReceived_stubbed (h : IsPlain t m) (hfits : FitsOn fits) (hname : IsName name)
    (hother : name ≠ Filling.created.word)
    (hreceived : Evidence.IsReceived (specOf t .created) name fits) :
    Evidence.IsReceived (specOf t .stubbed) name fits := by
  obtain ⟨found, hfound, hall⟩ := Invocation.exists_all_fill h.orderly h.unglued
  rw [Evidence.IsReceived, h.specOf_eq] at hreceived ⊢
  dsimp only at hreceived ⊢
  rw [hall] at hreceived ⊢
  obtain ⟨_, hmem, hsome, hcallee, hrefers⟩ := hreceived
  obtain ⟨i, hi, rfl⟩ := List.mem_map.mp hmem
  have hin := hfound i hi
  have hargs (f : Filling) : (i.invocation m f).argsStart = (i.invocation m f).argsStop ↔
      i.argsStart = i.argsStop :=
    offsetOf_inj f.isSlotWord_word hin.argsStart hin.argsStop
  refine ⟨_, List.mem_map_of_mem hi, ?_, hfits i.callee hin.linked hcallee, ?_⟩
  · rw [ne_eq, hargs] at hsome ⊢
    exact hsome
  · have hrefers' :=
      (Invocation.refersWithin_fill m name i.argsStart i.argsStop .created).symm.trans hrefers
    have hpart := h.orderly.of_isInfix (Invocation.whole_argumentsSpot m i.argsStart i.argsStop)
    exact (Invocation.refersWithin_fill m name i.argsStart i.argsStop .stubbed).trans
      (Reference.occurs_standalone_stubbed hname hother hpart hrefers')

/-- Detectors see in the candidate what they saw in the text. -/
theorem sees_stubbed (h : IsPlain t m) {suffixes : Suffixes}
    (hsuffixes : Callee.SuffixesHideName suffixes) (hsites : IsSitePair m site site')
    (hname : ∀ name, site.bindingName = some name → IsName name)
    (hother : site.bindingName ≠ some Filling.created.word) (d : Detector)
    (hsees : d.Sees suffixes (specOf t .created) site) :
    d.Sees suffixes (specOf t .stubbed) site' := by
  have hanywhere : ∀ s : Spot, s.whole = m → anywhere s := fun _ _ => trivial
  have hlookup : FitsOn Callee.isStorageLookup := fun _ hlinked =>
    Callee.isStorageLookup_stubbed hlinked
  have hboundary : FitsOn (Callee.isBoundary suffixes) := fun _ hlinked =>
    Callee.isBoundary_stubbed hsuffixes hlinked
  -- what is seen by a name is seen by the same name
  have hnamed {seen seen' : Text → Prop} (hbound : ∃ name, site.bindingName = some name ∧ seen name)
      (hcarry : ∀ name, IsName name → name ≠ Filling.created.word → seen name → seen' name) :
      ∃ name, site'.bindingName = some name ∧ seen' name := by
    obtain ⟨name, hbinding, hseen⟩ := hbound
    refine ⟨name, hsites.use.bindingName.trans hbinding, hcarry name (hname name hbinding) ?_ hseen⟩
    rintro rfl
    exact hother hbinding
  cases d with
  | persistenceAccessor =>
    refine hnamed hsees fun name hname _ hseen => hseen.imp ?_ ?_
    · exact (h.shows_iff (Usage.tracks_accessorCall hname) hanywhere
        (((Evidence.skipsWords_methodOn name).seq _).skipsSlots m)).mp
    · exact (h.shows_iff (Usage.tracks_storedStateMatcher hname) hanywhere
        (Usage.skipsSlots_storedStateMatcher h.orderly name)).mp
  | associationMutation =>
    refine hnamed hsees fun name hname _ hseen => hseen.imp ?_ ?_
    · exact (h.shows_iff (Usage.tracks_associationCreation hname h.detached) (fun _ hs => hs)
        (((Evidence.skipsWords_associationOf name).seq _).skipsSlots m)).mp
    · exact (h.shows_iff (Usage.tracks_associationAppend hname) hanywhere
        (((Evidence.skipsWords_associationOf name).seq _).skipsSlots m)).mp
  | queryDependency =>
    refine hsees.imp (h.isContained_stubbed hlookup hsites) fun hbound =>
      hnamed hbound fun name hname hother hseen => hseen.imp ?_ ?_
    · exact h.isReceived_stubbed hlookup hname hother
    · exact (h.shows_iff (Usage.tracks_associationQuery hname) hanywhere
        (((Evidence.skipsWords_associationOf name).seq _).skipsSlots m)).mp
  | externalConsumption =>
    exact hsees.imp (h.isContained_stubbed hboundary hsites) fun hbound =>
      hnamed hbound fun name hname hother => h.isReceived_stubbed hboundary hname hother
  | nestedConstruction => exact (congrArg (· = true) hsites.use.enclosed).mpr hsees

end IsPlain

/-! ### The candidate of the candidate -/

namespace Analysis

open CallSite

variable {text : Text} {granularity : Option Text} {config : Config}

/-- Plain calls make a plain template. -/
theorem HasPlainCalls.isPlain (h : HasPlainCalls text granularity config) :
    IsPlain (template text granularity config) (maskedTemplate text granularity config) where
  masked := mask_fill_template h.untagged
  orderly := isOrderly_maskedTemplate text granularity config
  unglued := isUnglued_maskedTemplate h.unglued
  detached := isDetached_maskedTemplate h.unowned

/-- What is proposed for a created record in the candidate was proposed for it in the text. -/
theorem HasPlainCalls.isProposal_of_stubbed (h : HasPlainCalls text granularity config)
    {s s' : CallSite} (hs : s ∈ extract text)
    (hsites : IsSitePair (maskedTemplate text granularity config) s s')
    (hcreate : s.variant = .create)
    (hproposal : (decisionOn (fill Filling.stubbed.word (template text granularity config))
      granularity config s').isProposal = true) :
    (decisionOn text granularity config s).isProposal = true := by
  have htext : fill Filling.created.word (template text granularity config) = text :=
    fill_create_template text granularity config
  obtain ⟨hunit, hfault, -, hsilent⟩ := (isProposal_decisionOn_iff _).mp hproposal
  refine (isProposal_decisionOn_iff _).mpr ⟨?_, hsites.use.fault ▸ hfault, hcreate, fun d hd => ?_⟩
  · -- without a proposal the candidate is the text
    by_contra hother
    rw [fill_template_of_not_unit _ hother] at hunit
    exact hother hunit
  · rw [Bool.eq_false_iff, ne_eq, Detector.isMatch_detect_iff]
    intro hsees
    have hagain := h.isPlain.sees_stubbed h.unconfigured hsites
      (fun name => isName_of_mem_extract hs) (h.unbound s hs) d (by rwa [specOf, htext])
    have hsilence := hsilent d hd
    rw [Bool.eq_false_iff, ne_eq, Detector.isMatch_detect_iff] at hsilence
    exact hsilence hagain

/-- A site without a proposal has none in the candidate either. -/
theorem HasPlainCalls.isProposal_candidate (h : HasPlainCalls text granularity config)
    {s : CallSite}
    (hs : s ∈ extract (fill Filling.stubbed.word (template text granularity config))) :
    (decisionOn (fill Filling.stubbed.word (template text granularity config)) granularity config
      s).isProposal = false := by
  have htext : fill Filling.created.word (template text granularity config) = text :=
    fill_create_template text granularity config
  obtain ⟨ks, hks, hcalls, hextract⟩ := exists_extract_fill h.untagged
  rw [hextract .stubbed] at hs
  obtain ⟨k, hk, rfl⟩ := List.mem_map.mp hs
  have hin := hks k hk
  have hcall := call_mem_calls hcalls hk
  have huse := isSameUse_siteOf h.isPlain.masked h.isPlain.orderly hks hcalls hk .created .stubbed
  rw [htext] at huse
  have hsites : IsSitePair (maskedTemplate text granularity config)
      (siteOf text (k.call (maskedTemplate text granularity config) .created))
      (siteOf (fill Filling.stubbed.word (template text granularity config))
        (k.call (maskedTemplate text granularity config) .stubbed)) :=
    ⟨huse, k.start, k.stop, hin.stop, rfl, rfl, rfl, rfl⟩
  have hmem : siteOf text (k.call (maskedTemplate text granularity config) .created) ∈
      extract text := by
    rw [extract_eq_map]
    exact List.mem_map_of_mem hcall
  rw [Bool.eq_false_iff]
  intro hproposal
  -- what is created in the candidate was created before, at no slot
  have hvariant : k.fixed.getD Variant.buildStubbed = .create :=
    ((isProposal_decisionOn_iff _).mp hproposal).2.2.1
  have hfixed : k.fixed = some .create := by
    cases hfixed : k.fixed with
    | none =>
      rw [hfixed] at hvariant
      cases hvariant
    | some v =>
      rw [hfixed] at hvariant
      exact congrArg some hvariant
  have hcreated : (siteOf text (k.call (maskedTemplate text granularity config) .created)).variant =
      .create := by
    change k.fixed.getD Variant.create = .create
    rw [hfixed]
    rfl
  have hkept := (fixed_eq_none_iff hin hcall).not.mp (by simp [hfixed])
  exact hkept (h.isProposal_of_stubbed hmem hsites hcreated hproposal)

/-- Nothing is proposed for the candidate. -/
theorem HasPlainCalls.proposedSites_candidate (h : HasPlainCalls text granularity config) :
    proposedSites (fill Filling.stubbed.word (template text granularity config)) granularity
      config = [] :=
  List.filter_eq_nil_iff.mpr fun _ hs => Bool.not_eq_true _ ▸ h.isProposal_candidate hs

end Analysis

namespace Optimize

variable {σ σ' : Type}

/-- A run on a text without proposals returns it with a clean report. -/
theorem run_of_proposals_eq_nil (bench : Bench σ) {text : Text} {granularity : Option Text}
    {config : Config} (hnone : (Analysis.ofText text granularity config).proposals = [])
    (file : String) (s : σ) : (run bench text granularity config file s).1 =
      .ok (keptReport text granularity config ⟨.clean, false, none⟩ []) := by
  unfold run
  simp only [Analysis.sites_ofText]
  rw [trial_run_untried _ _ _ _ hnone]
  simp only [reportOf, Trial.untried, complete_ofAnalysis _ _ _ rfl]
  rfl

/-- If a run changes a text in which the calls to be changed are plain, every further run with the
same settings returns the text as it is now, with a clean report that proposes nothing. -/
theorem exists_clean_rerun (bench : Bench σ) {text : Text} {granularity : Option Text}
    {config : Config} (h : Analysis.HasPlainCalls text granularity config) {file : String} {s : σ}
    {result : OptimizeResult} (hresult : (run bench text granularity config file s).1 = .ok result)
    (hchanged : result.report.outcome.status = .optimized) (bench' : Bench σ') (file' : String)
    (s' : σ') :
    ∃ again, (run bench' result.text granularity config file' s').1 = .ok again ∧
      again.text = result.text ∧ again.report.outcome.status = .clean ∧
      again.report.proposedCount = 0 := by
  rcases run_cases bench text granularity config file s with ⟨fault, -, hfault⟩ |
    ⟨same, hsame, hkept | hrewritten⟩
  · rw [hresult] at hfault
    cases hfault
  · obtain rfl := Except.ok.inj (hresult.symm.trans hsame)
    exact absurd hchanged hkept.status
  · obtain rfl := Except.ok.inj (hresult.symm.trans hsame)
    have hnone : (Analysis.ofText result.text granularity config).proposals = [] := by
      rw [hrewritten.returned, Analysis.proposals_ofText]
      exact congrArg (List.map _) h.proposedSites_candidate
    exact ⟨_, run_of_proposals_eq_nil bench' hnone file' s', rfl, rfl,
      congrArg List.length hnone⟩

/-- A record that nothing needs is stubbed by the first run and left alone by the next. -/
theorem exists_clean_rerun_passingBench :
    Analysis.HasPlainCalls "user = create(:user)".toList (some "unit".toList) .default ∧
    ∃ result, (run passingBench "user = create(:user)".toList (some "unit".toList) .default
        "user_spec.rb" ()).1 = .ok result ∧
      result.report.outcome.status = .optimized ∧
      ∃ again, (run passingBench result.text (some "unit".toList) .default
          "user_spec.rb" ()).1 = .ok again ∧
        again.text = result.text ∧ again.report.outcome.status = .clean ∧
        again.report.proposedCount = 0 := by
  have hplain : Analysis.HasPlainCalls "user = create(:user)".toList (some "unit".toList)
      .default := by decide +kernel
  obtain ⟨result, hresult, hchanged⟩ := exists_ok_of_any (by decide +kernel :
    (run passingBench "user = create(:user)".toList (some "unit".toList) .default "user_spec.rb"
      ()).1.toOption.any (·.report.outcome.status = .optimized) = true)
  have hchanged := of_decide_eq_true hchanged
  exact ⟨hplain, result, hresult, hchanged,
    exists_clean_rerun passingBench hplain hresult hchanged passingBench "user_spec.rb" ()⟩

/-- A call on an association, behind a dot and a line break, is taken for a call of its own. The
first run stubs it, and with it goes what kept the record, which the second run stubs. -/
theorem exists_optimized_rerun :
    ∃ result again : OptimizeResult,
      (run passingBench "post = create(:post)\npost.comments.\n  create(:comment)\n".toList
        (some "unit".toList) .default "post_spec.rb" ()).1 = .ok result ∧
      (run passingBench result.text (some "unit".toList) .default "post_spec.rb" ()).1 =
        .ok again ∧
      again.report.outcome.status = .optimized := by
  obtain ⟨result, hresult, hagain⟩ := exists_ok_of_any (by decide +kernel :
    (run passingBench "post = create(:post)\npost.comments.\n  create(:comment)\n".toList
      (some "unit".toList) .default "post_spec.rb" ()).1.toOption.any (fun result =>
        (run passingBench result.text (some "unit".toList) .default
          "post_spec.rb" ()).1.toOption.any (·.report.outcome.status = .optimized)) = true)
  obtain ⟨again, hrerun, hchanged⟩ := exists_ok_of_any hagain
  exact ⟨result, again, hresult, hrerun, of_decide_eq_true hchanged⟩

end Optimize

end FactoryDowngrade
