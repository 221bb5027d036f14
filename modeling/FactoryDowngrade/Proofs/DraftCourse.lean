import FactoryDowngrade.Proofs.DraftCompletion
import Mathlib.Data.List.Induction
import Mathlib.Data.List.Perm.Subperm
import Mathlib.Data.String.Basic

/-!
# The course of a draft

A draft is written in steps, in any order: decisions that replace earlier ones or are refused
midway, notes, outcomes, and requests for the report, which may come too early and come again.
Whatever the steps were, the draft has one decision for each site that got any, which is the last
one, and none for anything else. So counting the decisions tells whether one is missing, and the
report lists what was entered last for each site.
-/

namespace FactoryDowngrade

/-! ### Steps -/

/-- A step in the making of a report. -/
inductive DraftStep where
  | addDecisions (decisions : List Decision)
  | addNotes (notes : List Note)
  | addNote (level : NoteLevel) (code message : String)
  | setOutcome (outcome : ReportOutcome)
  | build

/-- What a step answers. -/
inductive DraftAnswer where
  | done
  | refused (fault : DraftFault)
  | built (report : Report)

namespace Draft

/-- The draft after a step, and what the step answers. -/
def perform (d : Draft) : DraftStep → Draft × DraftAnswer
  | .addDecisions decisions =>
    match d.addDecisions decisions with
    | (d, none) => (d, .done)
    | (d, some fault) => (d, .refused fault)
  | .addNotes notes => (d.addNotes notes, .done)
  | .addNote level code message => (d.addNotes [⟨level, code, message⟩], .done)
  | .setOutcome outcome => (d.setOutcome outcome, .done)
  | .build =>
    match d.build with
    | .ok report => (d, .built report)
    | .error fault => (d, .refused fault)

/-- The draft after some steps. -/
def after (d : Draft) (steps : List DraftStep) : Draft :=
  steps.foldl (fun d step => (d.perform step).1) d

end Draft

namespace DraftStep

/-- The decisions that a step enters on some sites: those before the first one on another site. -/
def entered (ids : List String) : DraftStep → List Decision
  | addDecisions decisions => decisions.takeWhile fun x => ids.contains x.siteId
  | addNotes _ | addNote _ _ _ | setOutcome _ | build => []

/-- All decisions that some steps enter, in order. -/
def allEntered (ids : List String) (steps : List DraftStep) : List Decision :=
  steps.flatMap (entered ids)

/-- The notes that a step enters. -/
def notes : DraftStep → List Note
  | addNotes notes => notes
  | addNote level code message => [⟨level, code, message⟩]
  | addDecisions _ | setOutcome _ | build => []

/-- The outcome that a step sets. -/
def outcome? : DraftStep → Option ReportOutcome
  | setOutcome outcome => some outcome
  | addDecisions _ | addNotes _ | addNote _ _ _ | build => none

/-- The last outcome that some steps set; without one nothing was tried. -/
def lastOutcome (steps : List DraftStep) : ReportOutcome :=
  (steps.filterMap outcome?).getLast?.getD ⟨.clean, false, none⟩

end DraftStep

/-- A last step enters its decisions after all others. -/
theorem DraftStep.allEntered_concat (ids : List String) (steps : List DraftStep)
    (step : DraftStep) :
    allEntered ids (steps ++ [step]) = allEntered ids steps ++ step.entered ids := by
  rw [allEntered, List.flatMap_append, List.flatMap_singleton]
  rfl

/-- The outcome that the last step gives, if it gives one, is the last one. -/
theorem DraftStep.lastOutcome_concat (steps : List DraftStep) (step : DraftStep) :
    lastOutcome (steps ++ [step]) = step.outcome?.getD (lastOutcome steps) := by
  rw [lastOutcome, List.filterMap_append]
  cases h : step.outcome? <;> simp [h, lastOutcome]

/-- A decision is the last one on its site among some. -/
def IsLastOn (id : String) (entered : List Decision) (x : Decision) : Prop :=
  ∃ before behind, entered = before ++ x :: behind ∧ x.siteId = id ∧
    ∀ y ∈ behind, y.siteId ≠ id

/-! ### One decision for each site -/

namespace Draft

variable {d : Draft} {entered : List Decision}

/-- The draft keeps the last of the entered decisions on each site, and nothing else. -/
structure Keeps (d : Draft) (entered : List Decision) : Prop where
  distinct : d.decisions.Pairwise fun x y => x.siteId ≠ y.siteId
  known : d.decisions.map (·.siteId) ⊆ d.siteIds
  last : ∀ id, d.decisionFor? id = entered.reverse.find? fun x => x.siteId = id

/-- A new decision keeps the sites of a draft. -/
theorem siteIds_put (d : Draft) (x : Decision) : (d.put x).siteIds = d.siteIds := rfl

/-- A new decision is found for its site, and the earlier ones are found for theirs. -/
theorem decisionFor?_put (d : Draft) (x : Decision) (id : String) :
    (d.put x).decisionFor? id = if x.siteId = id then some x else d.decisionFor? id := by
  rw [decisionFor?, put, List.find?_cons]
  by_cases hid : x.siteId = id
  · simp [hid]
  · have hkept : (d.decisions.filter fun y => y.siteId ≠ x.siteId).find? (fun y => y.siteId = id) =
        d.decisions.find? fun y => y.siteId = id := by
      rw [List.find?_filter]
      congr 1
      funext y
      by_cases hy : y.siteId = id
      · simp [hy, Ne.symm hid]
      · simp [hy]
    rw [hkept]
    simp [hid, decisionFor?]

/-- A decision on a known site replaces what was kept for it. -/
theorem Keeps.put (h : d.Keeps entered) {x : Decision} (hx : x.siteId ∈ d.siteIds) :
    (d.put x).Keeps (entered ++ [x]) where
  distinct := by
    refine List.pairwise_cons.mpr ⟨fun y hy => ?_, h.distinct.filter _⟩
    simpa using Ne.symm (by simpa using (List.mem_filter.mp hy).2)
  known := by
    refine List.cons_subset.mpr ⟨hx, fun id hid => ?_⟩
    obtain ⟨y, hy, rfl⟩ := List.mem_map.mp hid
    exact h.known (List.mem_map_of_mem (List.mem_filter.mp hy).1)
  last := fun id => by
    rw [decisionFor?_put, List.reverse_concat, List.find?_cons, h.last]
    by_cases hid : x.siteId = id <;> simp [hid]

/-- Decisions are entered up to the first one on an unknown site, which is refused. -/
theorem addDecisions_eq_foldl (d : Draft) (decisions : List Decision) :
    d.addDecisions decisions =
      ((decisions.takeWhile fun x => d.siteIds.contains x.siteId).foldl Draft.put d,
        (decisions.dropWhile fun x => d.siteIds.contains x.siteId).head?.map fun x =>
          .unknownSite x.siteId) := by
  induction decisions generalizing d with
  | nil => rfl
  | cons x decisions ih =>
    rw [addDecisions, List.takeWhile_cons, List.dropWhile_cons]
    split
    · rw [ih, siteIds_put, List.foldl_cons]
    · rfl

/-- Decisions on known sites are all kept, unless a later one replaces them. -/
theorem Keeps.foldl_put (h : d.Keeps entered) {decisions : List Decision}
    (hknown : ∀ x ∈ decisions, x.siteId ∈ d.siteIds) :
    (decisions.foldl Draft.put d).Keeps (entered ++ decisions) := by
  induction decisions generalizing d entered with
  | nil => simpa using h
  | cons x decisions ih =>
    obtain ⟨hx, hrest⟩ := List.forall_mem_cons.mp hknown
    simpa using ih (h.put hx) hrest

/-- A site has a decision just when one was entered on it. -/
theorem Keeps.mem_map_siteId_iff (h : d.Keeps entered) {id : String} :
    id ∈ d.decisions.map (·.siteId) ↔ ∃ x ∈ entered, x.siteId = id := by
  have hsome := congrArg Option.isSome (h.last id)
  rw [decisionFor?, Bool.eq_iff_iff, List.find?_isSome, List.find?_isSome] at hsome
  simpa using hsome

/-- The kept decisions are on some of the sites, and on each of those once. -/
theorem Keeps.subperm (h : d.Keeps entered) : (d.decisions.map (·.siteId)).Subperm d.siteIds :=
  List.subperm_of_subset (List.pairwise_map.mpr h.distinct) h.known

/-- As many decisions as there are sites are one for each site. -/
theorem Keeps.perm_of_length_eq (h : d.Keeps entered)
    (hlength : d.decisions.length = d.siteIds.length) :
    (d.decisions.map (·.siteId)).Perm d.siteIds :=
  h.subperm.perm_of_length_le (by rw [List.length_map, hlength])

/-- There are as many decisions as sites just when a decision was entered on each. -/
theorem Keeps.length_eq_iff (h : d.Keeps entered) (hdistinct : d.siteIds.Nodup) :
    d.decisions.length = d.siteIds.length ↔ ∀ id ∈ d.siteIds, ∃ x ∈ entered, x.siteId = id := by
  constructor
  · intro hlength id hid
    exact h.mem_map_siteId_iff.mp ((h.perm_of_length_eq hlength).symm.subset hid)
  · intro hall
    have hback : d.siteIds.Subperm (d.decisions.map (·.siteId)) :=
      List.subperm_of_subset hdistinct fun id hid => h.mem_map_siteId_iff.mpr (hall id hid)
    have hlength := (h.subperm.antisymm hback).length_eq
    rwa [List.length_map] at hlength

end Draft

/-! ### What the steps leave -/

namespace Draft

/-- What a draft about some sites holds once some steps were taken. -/
structure Records (d : Draft) (sites : List CallSite) (granularity : Granularity)
    (source : GranularitySource) (steps : List DraftStep) : Prop where
  siteIds : d.siteIds = sites.map (·.id)
  granularity : d.granularity = granularity
  source : d.source = source
  decisions : d.Keeps (DraftStep.allEntered (sites.map (·.id)) steps)
  notes : d.notes = steps.flatMap DraftStep.notes
  outcome : d.outcome = DraftStep.lastOutcome steps

variable {d : Draft} {sites : List CallSite} {granularity : Granularity}
  {source : GranularitySource} {steps : List DraftStep}

/-- A new draft records no steps. -/
theorem records_start (sites : List CallSite) (granularity : Granularity)
    (source : GranularitySource) : (start sites granularity source).Records sites granularity
      source [] where
  siteIds := rfl
  granularity := rfl
  source := rfl
  decisions := ⟨.nil, List.nil_subset _, fun _ => rfl⟩
  notes := rfl
  outcome := rfl

/-- Decisions are entered up to the first one on an unknown site, which the step refuses. -/
theorem perform_addDecisions (d : Draft) (decisions : List Decision) :
    d.perform (.addDecisions decisions) =
      ((decisions.takeWhile fun x => d.siteIds.contains x.siteId).foldl Draft.put d,
        match decisions.dropWhile fun x => d.siteIds.contains x.siteId with
        | [] => .done
        | x :: _ => .refused (.unknownSite x.siteId)) := by
  rw [perform, addDecisions_eq_foldl]
  cases decisions.dropWhile fun x => d.siteIds.contains x.siteId <;> rfl

/-- A request for the report leaves the draft as it is. -/
theorem perform_build (d : Draft) : d.perform .build =
    (d, match d.build with
      | .ok report => .built report
      | .error fault => .refused fault) := by
  rw [perform]
  cases d.build <;> rfl

/-- Entering decisions changes nothing but the decisions. -/
theorem foldl_put_eq (d : Draft) (decisions : List Decision) :
    decisions.foldl Draft.put d =
      { d with decisions := (decisions.foldl Draft.put d).decisions } := by
  induction decisions generalizing d with
  | nil => rfl
  | cons x decisions ih =>
    rw [List.foldl_cons, ih]
    rfl

/-- A step enters its decisions one by one, adds its notes, and replaces the outcome if it sets
one. -/
theorem perform_fst (d : Draft) (step : DraftStep) :
    (d.perform step).1 =
      { d with
        decisions := ((step.entered d.siteIds).foldl Draft.put d).decisions
        notes := d.notes ++ step.notes
        outcome := step.outcome?.getD d.outcome } := by
  cases step with
  | addDecisions decisions =>
    rw [perform_addDecisions, foldl_put_eq, DraftStep.notes, List.append_nil]
    rfl
  | addNotes notes => rfl
  | addNote level code message => rfl
  | setOutcome outcome =>
    rw [DraftStep.notes, List.append_nil]
    rfl
  | build =>
    rw [perform_build, DraftStep.notes, List.append_nil]
    rfl

/-- A step adds what it enters, and only that. -/
theorem Records.perform (h : d.Records sites granularity source steps) (step : DraftStep) :
    (d.perform step).1.Records sites granularity source (steps ++ [step]) := by
  have hknown : ∀ x ∈ step.entered d.siteIds, x.siteId ∈ d.siteIds := by
    cases step with
    | addDecisions decisions => exact fun x hx => by simpa using List.mem_takeWhile_imp hx
    | addNotes | addNote | setOutcome | build => exact fun x hx => absurd hx List.not_mem_nil
  have hkeeps := h.decisions.foldl_put hknown
  rw [foldl_put_eq] at hkeeps
  rw [perform_fst]
  constructor
  case siteIds => exact h.siteIds
  case granularity => exact h.granularity
  case source => exact h.source
  case decisions =>
    rw [DraftStep.allEntered_concat, ← h.siteIds]
    rw [← h.siteIds] at hkeeps
    exact ⟨hkeeps.distinct, hkeeps.known, hkeeps.last⟩
  case notes => rw [List.flatMap_append, List.flatMap_singleton, ← h.notes]
  case outcome => rw [DraftStep.lastOutcome_concat, ← h.outcome]

/-- A draft holds what its steps entered. -/
theorem records_after (sites : List CallSite) (granularity : Granularity)
    (source : GranularitySource) (steps : List DraftStep) :
    ((start sites granularity source).after steps).Records sites granularity source steps := by
  induction steps using List.reverseRecOn with
  | nil => exact records_start sites granularity source
  | append_singleton steps step ih =>
    rw [after, List.foldl_concat]
    exact ih.perform step

/-! ### What the steps answer -/

/-- The sites that miss a decision are told of in the order of their ids. -/
theorem pairwise_missing (hdistinct : d.siteIds.Nodup) : d.missing.Pairwise (· < ·) := by
  have hsorted : d.missing.Pairwise fun a b => decide (a ≤ b) = true := by
    refine List.pairwise_mergeSort (fun a b c hab hbc => ?_) (fun a b => ?_) _
    · simp only [decide_eq_true_eq] at hab hbc ⊢
      exact hab.trans hbc
    · simpa using le_total a b
  have hnodup : d.missing.Nodup :=
    (List.mergeSort_perm _ _).nodup_iff.mpr (hdistinct.filter _)
  refine (hsorted.and hnodup).imp fun h => ?_
  exact lt_of_le_of_ne (of_decide_eq_true h.1) h.2

/-- A site misses a decision if none was entered on it. -/
theorem Keeps.mem_missing_iff {entered : List Decision} (h : d.Keeps entered) {id : String} :
    id ∈ d.missing ↔ id ∈ d.siteIds ∧ ∀ x ∈ entered, x.siteId ≠ id := by
  rw [missing, List.mem_mergeSort, List.mem_filter, h.last]
  simp

/-- The last decision that is found is the last one on its site. -/
theorem isLastOn_of_find? {entered : List Decision} {id : String} {x : Decision}
    (h : entered.reverse.find? (fun x => x.siteId = id) = some x) : IsLastOn id entered x := by
  obtain ⟨hid, behind, before, hreverse, hbehind⟩ := List.find?_eq_some_iff_append.mp h
  refine ⟨before.reverse, behind.reverse, ?_, by simpa using hid, fun y hy => ?_⟩
  · rw [← entered.reverse_reverse, hreverse]
    simp
  · simpa using hbehind y (List.mem_reverse.mp hy)

/-- What a draft about some sites answers to a step that comes behind others. -/
structure IsFaithful (d : Draft) (sites : List CallSite) (granularity : Granularity)
    (source : GranularitySource) (steps : List DraftStep) : Prop where
  /-- If a decision was entered on each site, the report lists the last one on each. -/
  complete : (∀ site ∈ sites, ∃ x ∈ DraftStep.allEntered (sites.map (·.id)) steps,
      x.siteId = site.id) →
    ∃ decisions, d.perform .build = (d, .built ⟨decisions, DraftStep.lastOutcome steps,
        granularity, source, steps.flatMap DraftStep.notes⟩) ∧
      List.Forall₂ (fun site x => IsLastOn site.id
        (DraftStep.allEntered (sites.map (·.id)) steps) x) sites decisions
  /-- If not, the sites without a decision are told of in the order of their ids. -/
  incomplete : (∃ site ∈ sites, ∀ x ∈ DraftStep.allEntered (sites.map (·.id)) steps,
      x.siteId ≠ site.id) →
    ∃ missing, d.perform .build = (d, .refused (.incomplete missing)) ∧
      missing.Pairwise (· < ·) ∧ ∀ id, id ∈ missing ↔ id ∈ sites.map (·.id) ∧
        ∀ x ∈ DraftStep.allEntered (sites.map (·.id)) steps, x.siteId ≠ id
  /-- Decisions on known sites are accepted. -/
  accepted : ∀ decisions : List Decision, (∀ x ∈ decisions, x.siteId ∈ sites.map (·.id)) →
    (d.perform (.addDecisions decisions)).2 = .done
  /-- A decision on another site is refused, with all that was before it kept and no more. -/
  refused : ∀ (before behind : List Decision) (x : Decision),
    (∀ y ∈ before, y.siteId ∈ sites.map (·.id)) → x.siteId ∉ sites.map (·.id) →
    d.perform (.addDecisions (before ++ x :: behind)) =
      ((d.perform (.addDecisions before)).1, .refused (.unknownSite x.siteId))

/-- A draft with a decision on each site is built into the report about the last ones. -/
theorem Records.exists_built (h : d.Records sites granularity source steps)
    (hlength : d.decisions.length = d.siteIds.length) (hdistinct : (sites.map (·.id)).Nodup) :
    ∃ decisions, d.perform .build = (d, .built ⟨decisions, DraftStep.lastOutcome steps,
        granularity, source, steps.flatMap DraftStep.notes⟩) ∧
      List.Forall₂ (fun site x => IsLastOn site.id
        (DraftStep.allEntered (sites.map (·.id)) steps) x) sites decisions := by
  refine ⟨d.listed, ?_, ?_⟩
  · rw [perform_build, build, if_pos hlength, h.outcome, h.granularity, h.source, h.notes]
  · have hsome : List.Forall₂ Eq (sites.map fun site => d.decisionFor? site.id)
        (d.listed.map some) := by
      rw [List.forall₂_eq_eq_eq,
        map_some_listed (h.siteIds ▸ hdistinct) (h.decisions.perm_of_length_eq hlength), h.siteIds,
        List.map_map]
      rfl
    refine (List.forall₂_map_left_iff.mp (List.forall₂_map_right_iff.mp hsome)).imp ?_
    intro site x hx
    exact isLastOn_of_find? ((h.decisions.last site.id).symm.trans hx)

/-- A draft without a decision on each site is not built, and tells which sites miss one. -/
theorem Records.refused_build (h : d.Records sites granularity source steps)
    (hlength : d.decisions.length ≠ d.siteIds.length) (hdistinct : (sites.map (·.id)).Nodup) :
    ∃ missing, d.perform .build = (d, .refused (.incomplete missing)) ∧
      missing.Pairwise (· < ·) ∧ ∀ id, id ∈ missing ↔ id ∈ sites.map (·.id) ∧
        ∀ x ∈ DraftStep.allEntered (sites.map (·.id)) steps, x.siteId ≠ id := by
  refine ⟨d.missing, ?_, pairwise_missing (h.siteIds ▸ hdistinct), fun id => ?_⟩
  · rw [perform_build, build, if_neg hlength]
  · rw [h.decisions.mem_missing_iff, h.siteIds]

/-- Decisions on known sites are all entered. -/
theorem perform_addDecisions_of_known {decisions : List Decision}
    (hknown : ∀ x ∈ decisions, x.siteId ∈ d.siteIds) :
    d.perform (.addDecisions decisions) = (decisions.foldl Draft.put d, .done) := by
  have hall : ∀ x ∈ decisions, d.siteIds.contains x.siteId = true :=
    fun x hx => List.contains_iff_mem.mpr (hknown x hx)
  rw [perform_addDecisions, List.takeWhile_eq_self_iff.mpr hall,
    List.dropWhile_eq_nil_iff.mpr hall]

/-- The first decision on an unknown site is refused, and what is behind it is not looked at. -/
theorem perform_addDecisions_of_unknown {before : List Decision} {x : Decision}
    (hknown : ∀ y ∈ before, y.siteId ∈ d.siteIds) (hx : x.siteId ∉ d.siteIds)
    (behind : List Decision) :
    d.perform (.addDecisions (before ++ x :: behind)) =
      (before.foldl Draft.put d, .refused (.unknownSite x.siteId)) := by
  have hall : ∀ y ∈ before, d.siteIds.contains y.siteId = true :=
    fun y hy => List.contains_iff_mem.mpr (hknown y hy)
  have hstop : ¬d.siteIds.contains x.siteId = true := fun h => hx (List.contains_iff_mem.mp h)
  rw [perform_addDecisions, List.takeWhile_append_of_pos hall, List.dropWhile_append_of_pos hall,
    List.takeWhile_cons, List.dropWhile_cons, if_neg hstop, if_neg hstop, List.append_nil]

/-- Whatever steps were taken, a draft about different sites answers the next one by all that was
entered. -/
theorem isFaithful_after {sites : List CallSite} (hdistinct : (sites.map (·.id)).Nodup)
    (granularity : Granularity) (source : GranularitySource) (steps : List DraftStep) :
    ((start sites granularity source).after steps).IsFaithful sites granularity source steps := by
  have h := records_after sites granularity source steps
  have hlength := h.decisions.length_eq_iff (h.siteIds ▸ hdistinct)
  rw [h.siteIds, List.forall_mem_map] at hlength
  constructor
  case complete =>
    intro hall
    exact h.exists_built (h.siteIds ▸ hlength.mpr hall) hdistinct
  case incomplete =>
    rintro ⟨site, hsite, hnone⟩
    refine h.refused_build (fun heq => ?_) hdistinct
    obtain ⟨x, hx, hid⟩ := hlength.mp (h.siteIds ▸ heq) site hsite
    exact hnone x hx hid
  case accepted =>
    intro decisions hknown
    rw [perform_addDecisions_of_known (h.siteIds ▸ hknown)]
  case refused =>
    intro before behind x hbefore hx
    rw [← h.siteIds] at hbefore hx
    rw [perform_addDecisions_of_unknown hbefore hx, perform_addDecisions_of_known hbefore]

/-- Two calls whose report is asked for too early, with a stray decision in between. -/
theorem isFaithful_after_stray :
    ((CallSite.extract "create(:user)\ncreate(:post)".toList).map (·.id)).Nodup ∧
    ((start (CallSite.extract "create(:user)\ncreate(:post)".toList) .unit .default).after
      [.build, .addDecisions [⟨"stray", .create, .create, "", false, [], none⟩], .build]).IsFaithful
      (CallSite.extract "create(:user)\ncreate(:post)".toList) .unit .default
      [.build, .addDecisions [⟨"stray", .create, .create, "", false, [], none⟩], .build] := by
  have hdistinct :
      ((CallSite.extract "create(:user)\ncreate(:post)".toList).map (·.id)).Nodup :=
    List.pairwise_map.mpr (CallSite.pairwise_id_extract _)
  exact ⟨hdistinct, isFaithful_after hdistinct .unit .default _⟩

end Draft

end FactoryDowngrade
