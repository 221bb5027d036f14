import FactoryDowngrade.Optimize
import FactoryDowngrade.Proofs.PlanCandidate

/-!
# Drafts can be completed

A draft that gets one decision on each of its sites is complete, and the report lists these
decisions in the order of the sites. The decisions of an analysis are such decisions, also after
they were committed.
-/

namespace FactoryDowngrade

namespace Draft

/-- A decision on a site that has none yet comes in front of the others. -/
theorem put_of_new {d : Draft} {x : Decision} (hnew : ∀ y ∈ d.decisions, y.siteId ≠ x.siteId) :
    d.put x = { d with decisions := x :: d.decisions } := by
  have hkept : (d.decisions.filter fun y => y.siteId ≠ x.siteId) = d.decisions := by
    rw [List.filter_eq_self]
    intro y hy
    simpa using hnew y hy
  rw [put, hkept]

/-- Decisions on different known sites are all entered. -/
theorem addDecisions_eq {d : Draft} {entered : List Decision}
    (hknown : ∀ x ∈ entered, x.siteId ∈ d.siteIds)
    (hdistinct : entered.Pairwise fun x y => x.siteId ≠ y.siteId)
    (hnew : ∀ x ∈ entered, ∀ y ∈ d.decisions, y.siteId ≠ x.siteId) :
    d.addDecisions entered = ({ d with decisions := entered.reverse ++ d.decisions }, none) := by
  induction entered generalizing d with
  | nil => rfl
  | cons x entered ih =>
    have hx : d.siteIds.contains x.siteId = true :=
      List.contains_iff_mem.mpr (hknown x List.mem_cons_self)
    rw [addDecisions, if_pos hx, put_of_new (hnew x List.mem_cons_self), ih]
    · simp
    · exact fun y hy => hknown y (List.mem_cons_of_mem _ hy)
    · exact hdistinct.of_cons
    · intro y hy z hz
      rcases List.mem_cons.mp hz with rfl | hz
      · exact List.rel_of_pairwise_cons hdistinct hy
      · exact hnew y (List.mem_cons_of_mem _ hy) z hz

/-- The ids of different sites stand in the order of their places. -/
theorem pairwise_idxOf {ids : List String} (hdistinct : ids.Nodup) :
    ids.Pairwise fun a b => ids.idxOf a ≤ ids.idxOf b := by
  rw [List.pairwise_iff_getElem]
  intro i j hi hj hij
  rw [hdistinct.idxOf_getElem i hi, hdistinct.idxOf_getElem j hj]
  exact hij.le

/-- Decisions that belong to the sites one by one are listed in the order of the sites. -/
theorem map_siteId_listed {d : Draft} (hdistinct : d.siteIds.Nodup)
    (hperm : (d.decisions.map (·.siteId)).Perm d.siteIds) :
    d.listed.map (·.siteId) = d.siteIds := by
  have hlisted : (d.listed.map (·.siteId)).Perm d.siteIds :=
    ((List.mergeSort_perm _ _).map _).trans hperm
  have hsorted : (d.listed.map (·.siteId)).Pairwise fun a b =>
      d.siteIds.idxOf a ≤ d.siteIds.idxOf b := by
    have hmerged : d.listed.Pairwise fun x y =>
        decide (d.siteIds.idxOf x.siteId ≤ d.siteIds.idxOf y.siteId) = true := by
      refine List.pairwise_mergeSort (fun x y z hxy hyz => ?_) (fun x y => ?_) d.decisions
      · simp only [decide_eq_true_eq] at hxy hyz ⊢
        exact hxy.trans hyz
      · simpa using Nat.le_total _ _
    exact List.pairwise_map.mpr (hmerged.imp fun h => by simpa using h)
  refine List.Perm.eq_of_pairwise ?_ hsorted (pairwise_idxOf hdistinct) hlisted
  intro a b ha hb hab hba
  exact (List.idxOf_inj (hlisted.subset ha)).mp (Nat.le_antisymm hab hba)

/-- What is listed for the sites is what was entered for them. -/
theorem map_some_listed {d : Draft} (hdistinct : d.siteIds.Nodup)
    (hperm : (d.decisions.map (·.siteId)).Perm d.siteIds) :
    d.listed.map some = d.siteIds.map d.decisionFor? := by
  have hnames : d.decisions.Pairwise fun x y => x.siteId ≠ y.siteId :=
    List.pairwise_map.mp (hperm.nodup_iff.mpr hdistinct)
  calc
    d.listed.map some
      = d.listed.map fun x => d.decisionFor? x.siteId :=
        List.map_congr_left fun x hx =>
          (find?_name_of_mem hnames ((List.mergeSort_perm _ _).subset hx)).symm
    _ = (d.listed.map (·.siteId)).map d.decisionFor? := by
      rw [List.map_map]
      rfl
    _ = d.siteIds.map d.decisionFor? := by rw [map_siteId_listed hdistinct hperm]

/-- A draft with one decision on each site is complete. -/
theorem build_eq {d : Draft} {decisions : List Decision}
    (hids : d.siteIds = decisions.map (·.siteId))
    (hdistinct : decisions.Pairwise fun x y => x.siteId ≠ y.siteId)
    (hentered : d.decisions = decisions.reverse) :
    d.build = .ok ⟨decisions, d.outcome, d.granularity, d.source, d.notes⟩ := by
  have hnodup : d.siteIds.Nodup := hids ▸ List.pairwise_map.mpr hdistinct
  have hperm : (d.decisions.map (·.siteId)).Perm d.siteIds := by
    rw [hentered, hids]
    exact (List.reverse_perm decisions).map _
  have hreverse : decisions.reverse.Pairwise fun x y => x.siteId ≠ y.siteId :=
    List.pairwise_reverse.mpr (hdistinct.imp Ne.symm)
  have hlisted : d.listed.map some = decisions.map some := by
    rw [map_some_listed hnodup hperm, hids, List.map_map]
    refine List.map_congr_left fun x hx => ?_
    rw [Function.comp_apply, decisionFor?, hentered]
    exact find?_name_of_mem hreverse (List.mem_reverse.mpr hx)
  have hlength : d.decisions.length = d.siteIds.length := by
    rw [hentered, hids, List.length_reverse, List.length_map]
  rw [build, if_pos hlength, (List.map_inj_right fun _ _ => Option.some.inj).mp hlisted]

end Draft

namespace Optimize

/-- Completing a draft with one decision on each of its sites gives the report. -/
theorem complete_eq {draft : Draft} {decisions : List Decision} (notes : List Note)
    (outcome : ReportOutcome) (hempty : draft.decisions = [])
    (hids : draft.siteIds = decisions.map (·.siteId))
    (hdistinct : decisions.Pairwise fun x y => x.siteId ≠ y.siteId) :
    complete draft decisions notes outcome =
      .ok ⟨decisions, outcome, draft.granularity, draft.source, draft.notes ++ notes⟩ := by
  have hknown (x : Decision) (hx : x ∈ decisions) : x.siteId ∈ draft.siteIds := by
    rw [hids]
    exact List.mem_map_of_mem hx
  have hnew (x : Decision) (_ : x ∈ decisions) : ∀ y ∈ draft.decisions, y.siteId ≠ x.siteId := by
    rw [hempty]
    exact fun _ hy => absurd hy List.not_mem_nil
  rw [complete, Draft.addDecisions_eq hknown hdistinct hnew, hempty, List.append_nil]
  dsimp only
  rw [Draft.build_eq ?_ hdistinct ?_]
  · rfl
  · exact hids
  · rfl

/-- Decisions with the same sites as those of an analysis complete its draft. -/
theorem complete_ofAnalysis {text : Text} {granularity : Option Text} {config : Config}
    {decisions : List Decision} (notes added : List Note) (outcome : ReportOutcome)
    (hids : decisions.map (·.siteId) =
      (Analysis.ofText text granularity config).decisions.map (·.siteId)) :
    complete ((Draft.ofAnalysis (Analysis.ofText text granularity config)).addNotes notes)
        decisions added outcome =
      .ok ⟨decisions, outcome, (Analysis.ofText text granularity config).resolution.granularity,
        (Analysis.ofText text granularity config).resolution.source, notes ++ added⟩ := by
  have hsites : (Analysis.ofText text granularity config).decisions.map (·.siteId) =
      (CallSite.extract text).map (·.id) := by
    rw [Analysis.decisions_ofText, List.map_map]
    exact List.map_congr_left fun site _ => Decision.siteId_decide _ _ _
  rw [hsites] at hids
  have hdistinct : (decisions.map (·.siteId)).Pairwise (· ≠ ·) := by
    rw [hids, List.pairwise_map]
    exact CallSite.pairwise_id_extract text
  exact complete_eq added outcome rfl hids.symm (List.pairwise_map.mp hdistinct)

end Optimize

end FactoryDowngrade
