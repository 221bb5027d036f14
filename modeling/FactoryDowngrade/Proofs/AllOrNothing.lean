import FactoryDowngrade.Proofs.DraftCompletion
import FactoryDowngrade.Proofs.TrialCourse
import Mathlib.Logic.Basic

/-!
# All changes or none

Whatever the surroundings answer, optimizing a text ends in a report, and either all proposals of
the plan are made and the last text that was judged is the candidate, which passed, or the text
comes back as it was. The record of the run tells which of the two it is.
-/

namespace FactoryDowngrade

open Template

/-- A test that a result passes finds a value in it. -/
theorem exists_ok_of_any {ε α : Type} {x : Except ε α} {p : α → Bool}
    (h : x.toOption.any p = true) : ∃ a, x = .ok a ∧ p a = true := by
  cases x with
  | error fault => cases h
  | ok a => exact ⟨a, rfl, h⟩

variable {σ : Type}

/-- The candidate was the last text to be judged and passed; before it only the text as it is was
judged, if asked for, and passed as well. -/
def ArePassing (baseline : Bool) (text candidate : Text)
    (calls : List (Text × Except TrialFault Verdict)) : Prop :=
  ∃ v : Verdict, v.isPass = true ∧
    if baseline then
      ∃ before : Verdict, before.isPass = true ∧ calls = [(text, .ok before), (candidate, .ok v)]
    else calls = [(candidate, .ok v)]

namespace Trial

variable {bench : Bench σ} {baseline : Bool} {text candidate : Text} {decisions : List Decision}
  {events : List TrialEvent}

/-- How a trial ends that is carried through: all proposals are committed, or none is. -/
inductive Ending (baseline : Bool) (text candidate : Text) (decisions : List Decision)
    (events : List TrialEvent) : TrialResult → Prop where
  | committed (v : Verdict) (hcalls : ArePassing baseline text candidate
      (events.filterMap TrialEvent.judgement?)) (hpassed : ∀ e ∈ events, e.isRefusal = false) :
    Ending baseline text candidate decisions events (commit candidate decisions v)
  | takenBack (v : Verdict) (note : Note) (hrefused : ∃ e ∈ events, e.isRefusal = true) :
    Ending baseline text candidate decisions events (rollback text decisions v note)

/-- Judging fails only if an answer is a failure. -/
theorem Judging.exists_isFailure {fault : TrialFault}
    (h : Judging bench text candidate decisions baseline events (.error fault)) :
    bench.CanFail fault ∧ ∃ e ∈ events, e.isFailure = true := by
  generalize hresult : (Except.error fault : Except TrialFault TrialResult) = result at h
  induction h with
  | candidateFailed hfail =>
    cases hresult
    exact ⟨hfail, _, List.mem_cons_self, rfl⟩
  | baselineFailed hfail =>
    cases hresult
    exact ⟨hfail, _, List.mem_cons_self, rfl⟩
  | candidateRefused => cases hresult
  | candidatePassed => cases hresult
  | baselineRefused => cases hresult
  | baselinePassed _ _ ih =>
    obtain ⟨hfail, e, he, hfailure⟩ := ih hresult
    exact ⟨hfail, e, List.mem_cons_of_mem _ he, hfailure⟩

/-- Judging that comes to a result has no failure in it, and ends one way or the other. -/
theorem Judging.ending {result : TrialResult}
    (h : Judging bench text candidate decisions baseline events (.ok result)) :
    (∀ e ∈ events, e.isFailure = false) ∧
      Ending baseline text candidate decisions events result := by
  cases h with
  | candidateRefused hrefused =>
    refine ⟨by simp [TrialEvent.isFailure], .takenBack _ _ ?_⟩
    exact ⟨_, List.mem_cons_self, by simp [TrialEvent.isRefusal, hrefused]⟩
  | candidatePassed hpass =>
    refine ⟨by simp [TrialEvent.isFailure], .committed _ ⟨_, hpass, rfl⟩ ?_⟩
    simp [TrialEvent.isRefusal, hpass]
  | baselineRefused hrefused =>
    refine ⟨by simp [TrialEvent.isFailure], .takenBack _ _ ?_⟩
    exact ⟨_, List.mem_cons_self, by simp [TrialEvent.isRefusal, hrefused]⟩
  | baselinePassed hbefore hrest =>
    cases hrest with
    | candidateRefused hrefused =>
      refine ⟨by simp [TrialEvent.isFailure], .takenBack _ _ ?_⟩
      refine ⟨_, List.mem_cons_of_mem _ List.mem_cons_self, ?_⟩
      simp [TrialEvent.isRefusal, hrefused]
    | candidatePassed hpass =>
      refine ⟨by simp [TrialEvent.isFailure], .committed _ ⟨_, hpass, _, hbefore, rfl⟩ ?_⟩
      simp [TrialEvent.isRefusal, hbefore, hpass]

/-- The events of the scratch directory are neither calls nor refusals. -/
theorem Ending.inScratch {result : TrialResult} (dir : PathName)
    (h : Ending baseline text candidate decisions events result) :
    Ending baseline text candidate decisions (TrialEvent.around dir events (.ok ())) result := by
  cases h with
  | committed v hcalls hpassed =>
    rw [← TrialEvent.judgement?_around dir events (.ok ())] at hcalls
    refine .committed v hcalls fun e he => ?_
    rcases TrialEvent.mem_around.mp he with rfl | he | rfl
    · rfl
    · exact hpassed e he
    · rfl
  | takenBack v note hrefused =>
    obtain ⟨e, he, hrefusal⟩ := hrefused
    exact .takenBack v note ⟨e, TrialEvent.mem_around.mpr (.inr (.inl he)), hrefusal⟩

/-- A trial fails only if something in it does. -/
theorem Course.exists_isFailure {fault : TrialFault}
    (h : Course bench baseline text candidate decisions events (.error fault)) :
    (bench.CanFail fault ∨ ∃ cause, fault = .scratch cause) ∧
      ∃ e ∈ events, e.isFailure = true := by
  cases h with
  | shut cause => exact ⟨.inr ⟨cause, rfl⟩, _, List.mem_cons_self, rfl⟩
  | stuck dir cause inner =>
    exact ⟨.inr ⟨cause, rfl⟩, _, TrialEvent.mem_around.mpr (.inr (.inr rfl)), rfl⟩
  | through dir inner =>
    obtain ⟨hfail, e, he, hfailure⟩ := inner.exists_isFailure
    exact ⟨.inl hfail, e, TrialEvent.mem_around.mpr (.inr (.inl he)), hfailure⟩

/-- A trial that comes to a result has no failure in it, and ends one way or the other. -/
theorem Course.ending {result : TrialResult}
    (h : Course bench baseline text candidate decisions events (.ok result)) :
    (∀ e ∈ events, e.isFailure = false) ∧
      Ending baseline text candidate decisions events result := by
  cases h with
  | through dir inner =>
    obtain ⟨hnone, hending⟩ := inner.ending
    refine ⟨fun e he => ?_, hending.inScratch dir⟩
    rcases TrialEvent.mem_around.mp he with rfl | he | rfl
    · rfl
    · exact hnone e he
    · rfl

end Trial

/-! ### The decisions of an analysis -/

namespace Analysis

variable {text : Text} {granularity : Option Text} {config : Config}

/-- Nothing is applied before it is tried. -/
theorem applied_of_mem_decisions {d : Decision}
    (h : d ∈ (ofText text granularity config).decisions) : d.applied = false := by
  rw [decisions_ofText] at h
  obtain ⟨site, -, rfl⟩ := List.mem_map.mp h
  exact Decision.applied_decide _ site _

/-- Taking back what was not applied changes nothing. -/
theorem map_withdraw_decisions :
    (ofText text granularity config).decisions.map Decision.withdraw =
      (ofText text granularity config).decisions := by
  calc
    (ofText text granularity config).decisions.map Decision.withdraw
      = (ofText text granularity config).decisions.map id := by
        refine List.map_congr_left fun d hd => ?_
        have happlied := applied_of_mem_decisions hd
        rw [Decision.withdraw, ← happlied]
        rfl
    _ = _ := List.map_id _

end Analysis

/-- Committing applies a decision just when it changes something. -/
theorem Decision.applied_commit {d : Decision} (h : d.applied = false) :
    (commit d).applied = true ↔ (commit d).target ≠ (commit d).source := by
  unfold commit
  cases hnoop : d.isNoop with
  | false => simpa [isNoop] using hnoop
  | true =>
    have hsame : d.target = d.source := by simpa [isNoop] using hnoop
    simp [h, hsame]

/-- Taking a commitment back gives the decision that was not applied. -/
theorem Decision.withdraw_commit (d : Decision) : (commit d).withdraw = d.withdraw := by
  unfold commit
  split <;> rfl

/-- Committing keeps the site. -/
theorem Decision.siteId_commit (d : Decision) : (commit d).siteId = d.siteId := by
  unfold commit
  split <;> rfl

/-! ### What a run comes to -/

/-- All proposals were made: the candidate of the plan comes back, and it was judged. -/
structure IsCommitted (baseline : Bool) (text : Text) (plan : Plan) (events : List TrialEvent)
    (result : OptimizeResult) : Prop where
  status : result.report.outcome.status = .optimized
  returned : result.text = plan.candidate
  applied : ∀ d ∈ result.report.decisions, d.applied = true ↔ d.target ≠ d.source
  passing : ArePassing baseline text plan.candidate (events.filterMap TrialEvent.judgement?)

/-- No proposal was made: the text comes back as it was. -/
structure IsKept (text : Text) (result : OptimizeResult) : Prop where
  status : result.report.outcome.status ≠ .optimized
  returned : result.text = text
  applied : ∀ d ∈ result.report.decisions, d.applied = false

/-- What the result of a run has to do with the plan for its text and with what happened. -/
structure IsAllOrNothing (baseline : Bool) (text : Text) (plan : Plan) (events : List TrialEvent)
    (result : OptimizeResult) : Prop where
  shape : Xor (IsCommitted baseline text plan events result) (IsKept text result)
  decisions : result.report.decisions.map Decision.withdraw = plan.analysis.decisions
  clean : result.report.outcome.status = .clean ↔ plan.analysis.proposals = []
  untouched : result.report.outcome.status = .clean → events = []
  reverted : result.report.outcome.status = .reverted ↔
    (∀ e ∈ events, e.isFailure = false) ∧ ∃ e ∈ events, e.isRefusal = true
  error : result.report.outcome.status = .error ↔ ∃ e ∈ events, e.isFailure = true

namespace Optimize

variable {text : Text} {granularity : Option Text} {config : Config} {events : List TrialEvent}

/-- A report with the decisions of the analysis, and the text as it was. -/
theorem isKept_of_decisions {result : OptimizeResult} (htext : result.text = text)
    (hstatus : result.report.outcome.status ≠ .optimized)
    (hdecisions : result.report.decisions = (Analysis.ofText text granularity config).decisions) :
    IsKept text result :=
  ⟨hstatus, htext, fun _ hd => Analysis.applied_of_mem_decisions (hdecisions ▸ hd)⟩

/-- Both shapes at once are impossible, as they disagree about the status. -/
theorem xor_of_isKept {baseline : Bool} {plan : Plan} {result : OptimizeResult}
    (h : IsKept text result) :
    Xor (IsCommitted baseline text plan events result) (IsKept text result) :=
  .inr ⟨h, fun hcommitted => h.status hcommitted.status⟩

/-- The plan of a text. -/
abbrev planOf (text : Text) (granularity : Option Text) (config : Config) : Plan :=
  ⟨Analysis.ofText text granularity config,
    fill Variant.buildStubbed.method.toList (Analysis.template text granularity config)⟩

/-- The report about the text as it was, with the decisions of its analysis. -/
abbrev keptReport (text : Text) (granularity : Option Text) (config : Config)
    (outcome : ReportOutcome) (added : List Note) : OptimizeResult :=
  let a := Analysis.ofText text granularity config
  ⟨text, a.decisions, outcome, a.resolution.granularity, a.resolution.source, a.notes ++ added⟩

/-- Without proposals the report is clean, and nothing happens. -/
theorem isAllOrNothing_clean (baseline : Bool) (added : List Note)
    (hnone : (Analysis.ofText text granularity config).proposals = []) :
    IsAllOrNothing baseline text (planOf text granularity config) []
      (keptReport text granularity config ⟨.clean, false, none⟩ added) where
  shape := xor_of_isKept (isKept_of_decisions rfl (by simp) rfl)
  decisions := Analysis.map_withdraw_decisions
  clean := by simp [hnone]
  untouched := fun _ => rfl
  reverted := by simp
  error := by simp

/-- After a failure the report is an error. -/
theorem isAllOrNothing_error (baseline attempted : Bool) (added : List Note)
    (hsome : (Analysis.ofText text granularity config).proposals ≠ [])
    (hfailed : ∃ e ∈ events, e.isFailure = true) :
    IsAllOrNothing baseline text (planOf text granularity config) events
      (keptReport text granularity config ⟨.error, attempted, none⟩ added) where
  shape := xor_of_isKept (isKept_of_decisions rfl (by simp) rfl)
  decisions := Analysis.map_withdraw_decisions
  clean := by simp [hsome]
  untouched := fun h => nomatch h
  reverted := by
    obtain ⟨e, he, hfailure⟩ := hfailed
    refine ⟨fun h => (nomatch h), fun ⟨hnone, _⟩ => ?_⟩
    rw [hnone e he] at hfailure
    cases hfailure
  error := by simp [hfailed]

/-- A trial that was carried through ends in a report of one shape or the other. -/
theorem isAllOrNothing_of_ending {baseline : Bool} {r : TrialResult}
    (hsome : (Analysis.ofText text granularity config).proposals ≠ [])
    (hnone : ∀ e ∈ events, e.isFailure = false)
    (hending : Trial.Ending baseline text (planOf text granularity config).candidate
      (Analysis.ofText text granularity config).decisions events r) :
    ∃ report, reportOf ((Draft.ofAnalysis (Analysis.ofText text granularity config)).addNotes
        (Analysis.ofText text granularity config).notes) r = .ok report ∧
      IsAllOrNothing baseline text (planOf text granularity config) events ⟨r.text, report⟩ := by
  have hfailed : ¬∃ e ∈ events, e.isFailure = true := by
    rintro ⟨e, he, hfailure⟩
    rw [hnone e he] at hfailure
    cases hfailure
  cases hending with
  | committed v hcalls hpassed =>
    have hids : ((Analysis.ofText text granularity config).decisions.map Decision.commit).map
        (·.siteId) = (Analysis.ofText text granularity config).decisions.map (·.siteId) := by
      rw [List.map_map]
      exact List.map_congr_left fun d _ => Decision.siteId_commit d
    have hwithdraw :
        ((Analysis.ofText text granularity config).decisions.map Decision.commit).map
          Decision.withdraw = (Analysis.ofText text granularity config).decisions := by
      refine Eq.trans ?_ Analysis.map_withdraw_decisions
      rw [List.map_map]
      exact List.map_congr_left fun d _ => Decision.withdraw_commit d
    have happlied : ∀ d ∈ (Analysis.ofText text granularity config).decisions.map Decision.commit,
        d.applied = true ↔ d.target ≠ d.source := by
      intro d hd
      obtain ⟨before, hbefore, rfl⟩ := List.mem_map.mp hd
      exact Decision.applied_commit (Analysis.applied_of_mem_decisions hbefore)
    refine ⟨_, complete_ofAnalysis _ _ _ hids, ⟨.inl ⟨⟨rfl, rfl, happlied, hcalls⟩, ?_⟩, hwithdraw,
      by simp [Trial.commit, hsome], by simp [Trial.commit], ?_, by simp [Trial.commit, hfailed]⟩⟩
    · exact fun hkept => hkept.status rfl
    · simp only [Trial.commit, reduceCtorEq, false_iff, not_and, not_exists]
      intro _ e he
      simp [hpassed e he]
  | takenBack v note hrefused =>
    refine ⟨_, complete_ofAnalysis _ _ _ rfl, ⟨xor_of_isKept (isKept_of_decisions rfl ?_ rfl),
      Analysis.map_withdraw_decisions, by simp [Trial.rollback, hsome], by simp [Trial.rollback],
      ?_, by simp [Trial.rollback, hfailed]⟩⟩
    · simp [Trial.rollback]
    · simp only [Trial.rollback, true_iff]
      exact ⟨hnone, hrefused⟩

/-- Log records go to the bench and are no events. -/
theorem remarkAll_recorded (bench : Bench σ) (records : List LogRecord) (s : σ)
    (log : List TrialEvent) :
    remarkAll bench.recorded records (s, log) = (remarkAll bench records s, log) := by
  induction records generalizing s with
  | nil => rfl
  | cons record records ih =>
    rw [remarkAll, List.foldl_cons, Bench.recorded_remark]
    exact ih (bench.remark record s)

/-- A trial without proposals leaves everything alone. -/
theorem trial_run_untried (bench : Bench σ) (baseline : Bool) (file : String) (s : σ)
    (hnone : (Analysis.ofText text granularity config).proposals = []) :
    Trial.run bench baseline file text (CallSite.extract text)
        (Analysis.ofText text granularity config).decisions s =
      (.ok (Trial.untried text (Analysis.ofText text granularity config).decisions), s) := by
  unfold Trial.run
  change (Analysis.ofText text granularity config).decisions.filter (·.isProposal) = [] at hnone
  rw [hnone]
  rfl

/-- A trial of some proposals is a trial of the candidate of the plan. -/
theorem trial_run_tried (bench : Bench σ) (baseline : Bool) (file : String) (s : σ)
    (hsome : (Analysis.ofText text granularity config).proposals ≠ []) :
    Trial.run bench baseline file text (CallSite.extract text)
        (Analysis.ofText text granularity config).decisions s =
      let tried := Trial.inScratch bench baseline file text
        (planOf text granularity config).candidate
        (Analysis.ofText text granularity config).decisions s
      (tried.1.mapError .trial, tried.2) := by
  have hcandidate := Analysis.candidateText_proposals text granularity config
  unfold Trial.run
  simp only [Analysis.proposals] at hsome hcandidate
  dsimp only
  rw [hcandidate, if_neg (by simpa using hsome)]

/-- Whatever the surroundings answer, a run on a text ends in a result of one of the two shapes. The
record is that of the same run on the recording bench. -/
theorem exists_isAllOrNothing (bench : Bench σ) (text : Text) (granularity : Option Text)
    (config : Config) (file : String) (s : σ)
    (hanswers : ∀ dir name candidate s fault,
      (bench.judge dir name candidate s).1 ≠ .error (.command fault)) :
    ∃ plan result events, Plan.ofText text granularity config = .ok plan ∧
      (run bench text granularity config file s).1 = .ok result ∧
      run bench.recorded text granularity config file (s, []) =
        (.ok result, (run bench text granularity config file s).2, events) ∧
      IsAllOrNothing config.verifyBaseline text plan events result := by
  refine ⟨planOf text granularity config, ?_⟩
  unfold run
  simp only [remarkAll_recorded, Analysis.sites_ofText]
  by_cases hproposals : (Analysis.ofText text granularity config).proposals = []
  · refine ⟨keptReport text granularity config ⟨.clean, false, none⟩ [], [],
      Plan.ofText_eq text granularity config, ?_⟩
    rw [trial_run_untried _ _ _ _ hproposals, trial_run_untried _ _ _ _ hproposals]
    simp only [reportOf, Trial.untried, complete_ofAnalysis _ _ _ rfl]
    exact ⟨rfl, rfl, isAllOrNothing_clean _ _ hproposals⟩
  · rw [trial_run_tried _ _ _ _ hproposals, trial_run_tried _ _ _ _ hproposals]
    obtain ⟨events, hrecording, hcourse⟩ := Trial.course_inScratch bench config.verifyBaseline file
      text (planOf text granularity config).candidate
      (Analysis.ofText text granularity config).decisions
      (remarkAll bench (Analysis.ofText text granularity config).records s) []
    rw [hrecording]
    -- of the trial only its answer, its state and its course matter from here on
    revert hcourse
    generalize Trial.inScratch bench config.verifyBaseline file text
      (planOf text granularity config).candidate
      (Analysis.ofText text granularity config).decisions
      (remarkAll bench (Analysis.ofText text granularity config).records s) = tried
    intro hcourse
    obtain ⟨answer, s'⟩ := tried
    cases answer with
    | ok r =>
      obtain ⟨hnone, hending⟩ := hcourse.ending
      obtain ⟨report, hreport, hall⟩ := isAllOrNothing_of_ending hproposals hnone hending
      refine ⟨⟨r.text, report⟩, events, Plan.ofText_eq text granularity config, ?_, ?_, hall⟩
      · simp [Except.mapError, hreport, Except.map]
      · simp [Except.mapError, hreport, Except.map]
    | error fault =>
      obtain ⟨hfault, hfailed⟩ := hcourse.exists_isFailure
      have haccount : ∃ told, account file (.trial fault) = .ok told := by
        cases fault with
        | scratch cause => exact ⟨_, rfl⟩
        | unavailable message => exact ⟨_, rfl⟩
        | command cause =>
          rcases hfault with ⟨dir, name, candidate, s, hjudge⟩ | ⟨cause, hcause⟩
          · exact absurd hjudge (hanswers dir name candidate s cause)
          · cases hcause
      obtain ⟨told, htold⟩ := haccount
      refine ⟨keptReport text granularity config ⟨.error, told.isAttempt, none⟩
          [⟨.error, told.code, told.message⟩], events,
        Plan.ofText_eq text granularity config, ?_, ?_,
        isAllOrNothing_error _ told.isAttempt _ hproposals hfailed⟩
      · simp only [Except.mapError, htold, faultReport, complete_ofAnalysis _ _ _ rfl]
        rfl
      · simp only [Except.mapError, htold, faultReport, complete_ofAnalysis _ _ _ rfl]
        rfl

/-- A bench on which everything works and every text passes. -/
def passingBench : Bench Unit where
  enter _ s := (.ok (PathName.ofString "/tmp/scratch"), s)
  judge _ _ _ s := (.ok ⟨.passed, some 0, .ofInt 0, [], []⟩, s)
  leave _ s := (.ok (), s)
  remark _ s := s

/-- A run on the bench where every text passes has a result of one of the two shapes. -/
theorem exists_isAllOrNothing_passingBench :
    (∀ dir name candidate s fault,
      (passingBench.judge dir name candidate s).1 ≠ .error (.command fault)) ∧
    ∃ plan result events,
      Plan.ofText "user = create(:user)".toList (some "unit".toList) .default = .ok plan ∧
      (run passingBench "user = create(:user)".toList (some "unit".toList) .default
        "user_spec.rb" ()).1 = .ok result ∧
      run passingBench.recorded "user = create(:user)".toList (some "unit".toList) .default
        "user_spec.rb" ((), []) = (.ok result, (), events) ∧
      IsAllOrNothing Config.default.verifyBaseline "user = create(:user)".toList plan events
        result := by
  have hanswers : ∀ dir name candidate s fault,
      (passingBench.judge dir name candidate s).1 ≠ .error (.command fault) := by
    intro dir name candidate s fault h
    cases h
  exact ⟨hanswers, exists_isAllOrNothing passingBench _ _ _ _ () hanswers⟩

end Optimize

end FactoryDowngrade
