import FactoryDowngrade.Proofs.PlanSafety
import FactoryDowngrade.Proofs.Sightings
import FactoryDowngrade.Proofs.Text.PatternEnds

/-!
# Looking for more never stubs more

A configuration that names more detectors and more class name endings sees every sign that the
narrower one sees: a pattern with more branches still ends wherever it did before. So each call of
a text gets a strategy that is at least as costly, and the order in which detectors and endings are
listed makes no difference.
-/

namespace FactoryDowngrade

namespace Pattern

/-- Wherever the first pattern may end, the second may. -/
def Includes (p q : Pattern) : Prop :=
  ∀ c, p.ends c ⊆ q.ends c

variable {p p' q q' : Pattern}

/-- A pattern matches where it matches. -/
theorem includes_refl (p : Pattern) : Includes p p := fun _ => List.Subset.refl _

/-- A sequence matches at more places if its parts do. -/
theorem Includes.seq (hp : Includes p p') (hq : Includes q q') :
    Includes (.seq p q) (.seq p' q') := by
  intro c d hd
  obtain ⟨e, he, hd⟩ := mem_ends_seq.mp hd
  exact mem_ends_seq.mpr ⟨e, hp c he, hq e hd⟩

/-- A chain may end wherever it did before one of its parts was widened. -/
theorem includes_chain {parts parts' : List Pattern} (h : List.Forall₂ Includes parts parts') :
    Includes (chain parts) (chain parts') := by
  induction h with
  | nil => exact includes_refl empty
  | cons hfirst _ ih => exact hfirst.seq ih

/-- A choice ends where one of its branches does. -/
theorem mem_ends_choice {first : Pattern} {rest : List Pattern} {c d : Cursor} :
    d ∈ (choice first rest).ends c ↔ ∃ p ∈ first :: rest, d ∈ p.ends c := by
  induction rest generalizing first with
  | nil => simp [choice]
  | cons second rest ih =>
    rw [choice, ends_either, List.mem_append, ih]
    simp only [List.mem_cons, exists_eq_or_imp]

/-- A wider pattern occurs wherever the narrower one does. -/
theorem Includes.occurs (h : Includes p q) {c : Cursor} (hp : p.occurs c = true) :
    q.occurs c = true := by
  obtain ⟨stretch, d, hpass, hends⟩ := occurs_iff.mp hp
  obtain ⟨e, he⟩ := List.exists_mem_of_ne_nil _ hends
  exact occurs_iff.mpr ⟨stretch, d, hpass, List.ne_nil_of_mem (h d he)⟩

end Pattern

open Pattern

/-! ### Boundaries -/

/-- Every ending of the first list of each kind is one of the second. -/
structure Suffixes.Within (narrow wide : Suffixes) : Prop where
  jobs : narrow.jobs ⊆ wide.jobs
  services : narrow.services ⊆ wide.services

namespace Callee

/-- A name of a list is passed by being spelled out. -/
theorem mem_ends_nameIn {names : List Text} {c d : Cursor} :
    d ∈ (nameIn names).ends c ↔ ∃ name ∈ names, c.Passes name d := by
  cases names with
  | nil => simp [nameIn, ends_notAhead, ends_empty]
  | cons first rest =>
    rw [nameIn, mem_ends_choice, ← List.map_cons]
    simp only [List.mem_map, exists_exists_and_eq_and, mem_ends_literal]

/-- More names match at more places. -/
theorem includes_nameIn {names names' : List Text} (h : names ⊆ names') :
    Includes (nameIn names) (nameIn names') := by
  intro c d hd
  obtain ⟨name, hname, hpass⟩ := mem_ends_nameIn.mp hd
  exact mem_ends_nameIn.mpr ⟨name, h hname, hpass⟩

/-- A class whose name has one of the endings has one of more endings. -/
theorem includes_classEnding {endings endings' : List Text} (h : endings ⊆ endings') :
    Includes (classEnding endings) (classEnding endings') := by
  refine includes_chain (.cons (includes_refl _) (.cons (includes_refl _) (.cons (includes_refl _)
    (.cons (includes_nameIn h) .nil))))

variable {narrow wide : Suffixes}

/-- More job suffixes have boundaries at more places. -/
theorem includes_jobBoundary (h : narrow.Within wide) :
    Includes (jobBoundary narrow) (jobBoundary wide) :=
  Includes.seq
    (includes_classEnding (List.append_subset.mpr
      ⟨List.subset_append_left _ _, List.Subset.trans h.jobs (List.subset_append_right _ _)⟩))
    (includes_refl _)

/-- So do more service suffixes. -/
theorem includes_serviceBoundary (h : narrow.Within wide) :
    Includes (serviceBoundary narrow) (serviceBoundary wide) :=
  Includes.seq
    (includes_classEnding (List.append_subset.mpr
      ⟨List.subset_append_left _ _, List.Subset.trans h.services (List.subset_append_right _ _)⟩))
    (includes_refl _)

/-- A boundary stays one when more endings count. -/
theorem isBoundary_of_within (h : narrow.Within wide) {callee : Text}
    (hcallee : isBoundary narrow callee = true) : isBoundary wide callee = true := by
  simp only [isBoundary, List.any_cons, List.any_nil, Bool.or_false, Bool.or_eq_true]
    at hcallee ⊢
  exact hcallee.imp (includes_jobBoundary h).occurs
    (Or.imp_left (includes_serviceBoundary h).occurs)

end Callee

/-! ### Evidence -/

namespace Evidence

variable {t : SpecText} {site : CallSite} {name : Text} {fits fits' : Text → Bool}

/-- A call that stands in fitting arguments stands in those that fit more widely. -/
theorem IsContained.mono (hfits : ∀ callee, fits callee = true → fits' callee = true)
    (h : IsContained t site fits) : IsContained t site fits' := by
  obtain ⟨i, hi, hholds, hcallee⟩ := h
  exact ⟨i, hi, hholds, hfits _ hcallee⟩

/-- A name that is received there is received there too. -/
theorem IsReceived.mono (hfits : ∀ callee, fits callee = true → fits' callee = true)
    (h : IsReceived t name fits) : IsReceived t name fits' := by
  obtain ⟨i, hi, hargs, hcallee, hrefers⟩ := h
  exact ⟨i, hi, hargs, hfits _ hcallee, hrefers⟩

end Evidence

/-- With more endings a detector sees what it saw before. -/
theorem Detector.Sees.mono {d : Detector} {narrow wide : Suffixes} (h : narrow.Within wide)
    {t : SpecText} {site : CallSite} (hsees : d.Sees narrow t site) : d.Sees wide t site := by
  cases d with
  | externalConsumption =>
    have hfits (callee : Text) (hcallee : Callee.isBoundary narrow callee = true) :
        Callee.isBoundary wide callee = true := Callee.isBoundary_of_within h hcallee
    exact hsees.imp (·.mono hfits) fun ⟨name, hname, hreceived⟩ =>
      ⟨name, hname, hreceived.mono hfits⟩
  | persistenceAccessor => exact hsees
  | associationMutation => exact hsees
  | queryDependency => exact hsees
  | nestedConstruction => exact hsees

/-! ### Plans -/

/-- The second configuration looks for all that the first one looks for, and perhaps for more. -/
structure Config.IsWidenedBy (first second : Config) : Prop where
  defaultGranularity : first.defaultGranularity = second.defaultGranularity
  detectors : first.detectors ⊆ second.detectors
  jobSuffixes : first.jobSuffixes ⊆ second.jobSuffixes
  serviceSuffixes : first.serviceSuffixes ⊆ second.serviceSuffixes

namespace Analysis

variable {text : Text} {granularity : Option Text} {first second : Config}

/-- What the wider configuration proposes, the narrower one proposes as well. -/
theorem isProposal_of_isWidenedBy (h : first.IsWidenedBy second) {site : CallSite}
    (hproposal : (decisionOn text granularity second site).isProposal = true) :
    (decisionOn text granularity first site).isProposal = true := by
  obtain ⟨hunit, hfault, hcreate, hnone⟩ := (isProposal_decisionOn_iff site).mp hproposal
  have hwithin : first.suffixes.Within second.suffixes :=
    ⟨List.map_subset _ h.jobSuffixes, List.map_subset _ h.serviceSuffixes⟩
  refine (isProposal_decisionOn_iff site).mpr ⟨?_, hfault, hcreate, fun d hd => ?_⟩
  · rw [ofText, h.defaultGranularity]
    exact hunit
  · rw [Bool.eq_false_iff]
    intro hmatch
    have hsees := ((Detector.isMatch_detect_iff _ _ _ _).mp hmatch).mono hwithin
    have hwide := (Detector.isMatch_detect_iff _ _ _ _).mpr hsees
    rw [hnone d (h.detectors hd)] at hwide
    cases hwide

/-- The wider configuration decides on a strategy that is at least as costly. -/
theorem cost_target_le_of_isWidenedBy (h : first.IsWidenedBy second) (site : CallSite) :
    (decisionOn text granularity first site).target.cost ≤
      (decisionOn text granularity second site).target.cost := by
  by_cases hproposal : (decisionOn text granularity second site).isProposal = true
  · have hboth := isProposal_of_isWidenedBy h hproposal
    have hfirst : (decisionOn text granularity first site).target = .buildStubbed :=
      Decision.target_of_isProposal hboth
    have hsecond : (decisionOn text granularity second site).target = .buildStubbed :=
      Decision.target_of_isProposal hproposal
    rw [hfirst, hsecond]
  · have hsource : (decisionOn text granularity second site).target =
        (decisionOn text granularity first site).source := by
      rw [Decision.target_of_not_isProposal (Bool.not_eq_true _ ▸ hproposal)]
      simp only [decisionOn, Decision.source_decide]
    rw [hsource]
    exact (isSafe_decisionOn text granularity first site).cost

end Analysis

/-- Variants of equal cost are equal. -/
theorem Variant.eq_of_cost_eq {v w : Variant} (h : v.cost = w.cost) : v = w := by
  cases v <;> cases w <;> first | rfl | cases h

/-- Two configurations of which the second looks for more plan for the same calls, with one decision
on each of them, and the second gives each a strategy that is at least as costly. If the first looks
for as much, as after listing the same things in another order, it gives each the same strategy. -/
theorem Plan.exists_cost_le (text : Text) (granularity : Option Text) {first second : Config}
    (h : first.IsWidenedBy second) :
    ∃ plan plan', Plan.ofText text granularity first = .ok plan ∧
      Plan.ofText text granularity second = .ok plan' ∧
      plan.analysis.sites = CallSite.extract text ∧
      plan'.analysis.sites = CallSite.extract text ∧
      List.Forall₂ (fun (s : CallSite) d => d.siteId = s.id) plan.analysis.sites
        plan.analysis.decisions ∧
      List.Forall₂ (fun d d' => d.siteId = d'.siteId ∧ d.target.cost ≤ d'.target.cost)
        plan.analysis.decisions plan'.analysis.decisions ∧
      (second.IsWidenedBy first → List.Forall₂ (fun d d' => d.target = d'.target)
        plan.analysis.decisions plan'.analysis.decisions) := by
  refine ⟨_, _, Plan.ofText_eq text granularity first, Plan.ofText_eq text granularity second,
    rfl, rfl, Analysis.forall₂_siteId_ofText text granularity first, ?_, fun hback => ?_⟩
  · rw [Analysis.decisions_ofText, Analysis.decisions_ofText, List.forall₂_map_left_iff,
      List.forall₂_map_right_iff, List.forall₂_same]
    intro site _
    refine ⟨?_, Analysis.cost_target_le_of_isWidenedBy h site⟩
    simp only [Analysis.decisionOn, Decision.siteId_decide]
  · rw [Analysis.decisions_ofText, Analysis.decisions_ofText, List.forall₂_map_left_iff,
      List.forall₂_map_right_iff, List.forall₂_same]
    intro site _
    exact Variant.eq_of_cost_eq (Nat.le_antisymm
      (Analysis.cost_target_le_of_isWidenedBy h site)
      (Analysis.cost_target_le_of_isWidenedBy hback site))

/-- The settings with some class name endings for services. -/
abbrev Config.withServices (suffixes : List String) (detectors : List Detector) : Config :=
  { Config.default with serviceSuffixes := suffixes, detectors }

/-- With migrators among the services, and the detectors listed backwards, a record handed to a
migrator is at least as costly. -/
theorem Plan.exists_cost_le_migrator :
    Config.default.IsWidenedBy (.withServices ["Migrator"] Detector.all.reverse) ∧
    ∃ plan plan',
      Plan.ofText "user = create(:user)\nUserMigrator.run(user)".toList (some "unit".toList)
        .default = .ok plan ∧
      Plan.ofText "user = create(:user)\nUserMigrator.run(user)".toList (some "unit".toList)
        (.withServices ["Migrator"] Detector.all.reverse) = .ok plan' ∧
      plan.analysis.sites =
        CallSite.extract "user = create(:user)\nUserMigrator.run(user)".toList ∧
      plan'.analysis.sites =
        CallSite.extract "user = create(:user)\nUserMigrator.run(user)".toList ∧
      List.Forall₂ (fun (s : CallSite) d => d.siteId = s.id) plan.analysis.sites
        plan.analysis.decisions ∧
      List.Forall₂ (fun d d' => d.siteId = d'.siteId ∧ d.target.cost ≤ d'.target.cost)
        plan.analysis.decisions plan'.analysis.decisions ∧
      (Config.IsWidenedBy (.withServices ["Migrator"] Detector.all.reverse) .default →
        List.Forall₂ (fun d d' => d.target = d'.target)
          plan.analysis.decisions plan'.analysis.decisions) := by
  have hwidened : Config.default.IsWidenedBy (.withServices ["Migrator"] Detector.all.reverse) :=
    ⟨rfl, by decide, by decide, by decide⟩
  exact ⟨hwidened, exists_cost_le _ _ hwidened⟩

end FactoryDowngrade
