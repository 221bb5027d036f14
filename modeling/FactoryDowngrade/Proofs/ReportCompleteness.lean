import FactoryDowngrade.Proofs.RunResults

/-!
# Reports are complete

However a run ends, its report has one decision on each call site of the text, in the order of the
sites. It says first what there is to say about the granularity, then which sites could not be read,
and then what became of the trial. As many changes are counted as applied as were proposed if the
text was optimized, and none otherwise.
-/

namespace FactoryDowngrade

variable {σ : Type}

/-- The code of a warning about a call site that could not be read. -/
def Analysis.faultCode : String := "parse_error"

/-- What the report of a run has to tell about its text. -/
structure IsComplete (text : Text) (granularity : Option Text) (config : Config)
    (report : Report) : Prop where
  sites : report.decisions.map (·.siteId) = (CallSite.extract text).map (·.id)
  distinct : (report.decisions.map (·.siteId)).Nodup
  notes : (Granularity.resolve text granularity config.defaultGranularity).notes ++
    (CallSite.extract text).filterMap Analysis.faultNote? <+: report.notes
  warnings : report.notes.filter (·.code = Analysis.faultCode) =
    (CallSite.extract text).filterMap Analysis.faultNote?
  applied : report.appliedCount =
    if report.outcome.status = .optimized then report.proposedCount else 0

/-! ### Notes -/

namespace Granularity

/-- No note about a granularity warns of a call site. -/
theorem code_of_mem_notes_resolve {text : Text} {explicit : Option Text} {fallback : Granularity}
    {note : Note} (h : note ∈ (resolve text explicit fallback).notes) :
    note.code ≠ Analysis.faultCode := by
  have hunknown : ∀ note ∈ (explicit.map unknownNote).toList, note.code ≠ Analysis.faultCode := by
    intro note hnote
    obtain ⟨given, -, rfl⟩ := Option.map_eq_some_iff.mp (Option.mem_toList.mp hnote)
    simp [unknownNote, Analysis.faultCode]
  unfold resolve at h
  split at h
  · cases h
  · dsimp only at h
    split at h
    · exact hunknown note h
    · rcases List.mem_append.mp h with h | h
      · exact hunknown note h
      · obtain rfl := List.mem_singleton.mp h
        simp [defaultNote, Analysis.faultCode]

end Granularity

namespace Analysis

variable {text : Text} {granularity : Option Text} {config : Config}

/-- The notes of an analysis are those about the granularity and the warnings about its sites. -/
theorem notes_ofText : (ofText text granularity config).notes =
    (Granularity.resolve text granularity config.defaultGranularity).notes ++
      (CallSite.extract text).filterMap faultNote? := rfl

/-- The warnings of an analysis are those about the sites that could not be read. -/
theorem filter_notes_ofText :
    (ofText text granularity config).notes.filter (·.code = faultCode) =
      (CallSite.extract text).filterMap faultNote? := by
  have hnone : (Granularity.resolve text granularity config.defaultGranularity).notes.filter
      (·.code = faultCode) = [] := by
    rw [List.filter_eq_nil_iff]
    intro note hnote
    simpa using Granularity.code_of_mem_notes_resolve hnote
  have hall : ((CallSite.extract text).filterMap faultNote?).filter (·.code = faultCode) =
      (CallSite.extract text).filterMap faultNote? := by
    rw [List.filter_eq_self]
    intro note hnote
    obtain ⟨site, -, hsite⟩ := List.mem_filterMap.mp hnote
    obtain ⟨fault, -, rfl⟩ := Option.map_eq_some_iff.mp hsite
    simp [faultCode]
  rw [notes_ofText, List.filter_append, hnone, hall, List.nil_append]

/-- Each site of a text has one decision. -/
theorem siteIds_decisions :
    (ofText text granularity config).decisions.map (·.siteId) =
      (CallSite.extract text).map (·.id) := by
  rw [decisions_ofText, List.map_map]
  exact List.map_congr_left fun site _ => Decision.siteId_decide _ _ _

end Analysis

/-- The notes that a trial adds do not warn of call sites. -/
theorem Trial.code_of_refusalNote {v : Verdict} {note : Note}
    (hnote : note = baselineNote v.outcome ∨ note = candidateNote v.outcome) :
    note.code ≠ Analysis.faultCode := by
  rcases hnote with rfl | rfl
  · simp [baselineNote, Analysis.faultCode]
  · cases v.outcome <;> decide

namespace Optimize

variable {text : Text} {granularity : Option Text} {config : Config}

/-- Nor do the accounts of faults. -/
theorem code_of_account {file : String} {fault : TrialFault} {told : FaultAccount}
    (h : account file (.trial fault) = .ok told) : told.code ≠ Analysis.faultCode := by
  cases fault with
  | command cause => cases h
  | scratch cause =>
    cases h
    simp [Analysis.faultCode]
  | unavailable message =>
    cases h
    simp [Analysis.faultCode]

/-- A report that keeps the text is complete, if its last note does not warn of a site. -/
theorem isComplete_keptReport {outcome : ReportOutcome} (hstatus : outcome.status ≠ .optimized)
    {added : List Note} (hadded : ∀ note ∈ added, note.code ≠ Analysis.faultCode) :
    IsComplete text granularity config
      (keptReport text granularity config outcome added).report where
  sites := Analysis.siteIds_decisions
  distinct := by
    rw [Analysis.siteIds_decisions]
    exact List.pairwise_map.mpr (CallSite.pairwise_id_extract text)
  notes := List.prefix_append _ _
  warnings := by
    have hnone : added.filter (·.code = Analysis.faultCode) = [] := by
      rw [List.filter_eq_nil_iff]
      exact fun note hnote => by simpa using hadded note hnote
    rw [List.filter_append, Analysis.filter_notes_ofText, hnone, List.append_nil]
  applied := by
    rw [if_neg hstatus, Report.appliedCount, List.length_eq_zero_iff, List.filter_eq_nil_iff]
    exact fun d hd => by simp [Analysis.applied_of_mem_decisions hd]

/-- A report about committed proposals is complete. -/
theorem isComplete_committedReport (v : Verdict) :
    IsComplete text granularity config
      (committedReport text granularity config v).report := by
  have hsites : ((Analysis.ofText text granularity config).decisions.map Decision.commit).map
      (·.siteId) = (CallSite.extract text).map (·.id) := by
    rw [List.map_map, ← Analysis.siteIds_decisions]
    exact List.map_congr_left fun d _ => Decision.siteId_commit d
  constructor
  case sites => exact hsites
  case distinct =>
    rw [hsites]
    exact List.pairwise_map.mpr (CallSite.pairwise_id_extract text)
  case notes => exact List.prefix_append _ _
  case warnings =>
    have hnotes : (committedReport text granularity config v).report.notes =
        (Analysis.ofText text granularity config).notes := List.append_nil _
    rw [hnotes, Analysis.filter_notes_ofText]
  case applied =>
    rw [if_pos rfl, Report.appliedCount, Report.proposedCount]
    congr 1
    refine List.filter_congr fun d hd => ?_
    obtain ⟨before, hbefore, rfl⟩ := List.mem_map.mp hd
    rw [Bool.eq_iff_iff, Decision.applied_commit (Analysis.applied_of_mem_decisions hbefore)]
    simp [Decision.isProposal, Decision.isNoop]

/-- Whatever a run returns has a complete report. -/
theorem Returns.isComplete {result : OptimizeResult}
    (h : Returns text granularity config result) :
    IsComplete text granularity config result.report := by
  cases h with
  | untried => exact isComplete_keptReport (by simp) (by simp)
  | committed v => exact isComplete_committedReport v
  | takenBack v hnote =>
    exact isComplete_keptReport (by simp) (by simpa using Trial.code_of_refusalNote hnote)
  | failed haccount =>
    exact isComplete_keptReport (by simp) (by simpa using code_of_account haccount)

/-- Whatever the surroundings answer, a run on a text returns a complete report. -/
theorem exists_isComplete (bench : Bench σ) (text : Text) (granularity : Option Text)
    (config : Config) (file : String) (s : σ)
    (hanswers : ∀ dir name candidate s fault,
      (bench.judge dir name candidate s).1 ≠ .error (.command fault)) :
    ∃ result, (run bench text granularity config file s).1 = .ok result ∧
      IsComplete text granularity config result.report := by
  rcases run_returns bench text granularity config file s with
    ⟨fault, ⟨dir, name, candidate, s', hjudge⟩, -⟩ | ⟨result, hresult, hreturns⟩
  · exact absurd hjudge (hanswers dir name candidate s' fault)
  · exact ⟨result, hresult, hreturns.isComplete⟩

/-- A bench without room for a scratch directory. -/
def crowdedBench : Bench Unit where
  enter _ s := (.error (.on "/tmp" .noEntry), s)
  judge _ _ _ s := (.error (.unavailable "no command"), s)
  leave _ s := (.ok (), s)
  remark _ s := s

/-- A run that cannot make its scratch directory reports on both calls of its text, of which one
cannot be read. -/
theorem exists_isComplete_crowdedBench :
    (∀ dir name candidate s fault,
      (crowdedBench.judge dir name candidate s).1 ≠ .error (.command fault)) ∧
    ∃ result, (run crowdedBench "user = create(:user)\ncreate(name)".toList
        (some "unit".toList) .default "user_spec.rb" ()).1 = .ok result ∧
      IsComplete "user = create(:user)\ncreate(name)".toList (some "unit".toList) .default
        result.report := by
  have hanswers : ∀ dir name candidate s fault,
      (crowdedBench.judge dir name candidate s).1 ≠ .error (.command fault) := by
    intro dir name candidate s fault h
    cases h
  exact ⟨hanswers, exists_isComplete crowdedBench _ _ _ _ () hanswers⟩

end Optimize

end FactoryDowngrade
