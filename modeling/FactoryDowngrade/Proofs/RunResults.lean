import FactoryDowngrade.Proofs.AllOrNothing

/-!
# What runs return

A run that returns something returns one of four results: nothing was proposed, every proposal was
committed, every proposal was taken back because a text did not pass, or the surroundings failed.
The report is drawn up from the analysis of the text in every case, and only a committed run changes
its decisions. A run returns nothing only if its command is faulty.
-/

namespace FactoryDowngrade

variable {σ : Type}

namespace Trial

variable {bench : Bench σ} {baseline : Bool} {text candidate : Text} {decisions : List Decision}
  {events : List TrialEvent} {r : TrialResult}

/-- The result of a trial that was carried through. -/
inductive Result (text candidate : Text) (decisions : List Decision) : TrialResult → Prop where
  | committed (v : Verdict) : Result text candidate decisions (commit candidate decisions v)
  | takenBack (v : Verdict) {note : Note}
      (hnote : note = baselineNote v.outcome ∨ note = candidateNote v.outcome) :
    Result text candidate decisions (rollback text decisions v note)

/-- Judging comes to one of the results. -/
theorem Judging.result
    (h : Judging bench text candidate decisions baseline events (.ok r)) :
    Result text candidate decisions r := by
  cases h with
  | candidateRefused => exact .takenBack _ (.inr rfl)
  | candidatePassed => exact .committed _
  | baselineRefused => exact .takenBack _ (.inl rfl)
  | baselinePassed _ hrest =>
    cases hrest with
    | candidateRefused => exact .takenBack _ (.inr rfl)
    | candidatePassed => exact .committed _

/-- A trial that is carried through comes to one of the results. -/
theorem Course.result (h : Course bench baseline text candidate decisions events (.ok r)) :
    Result text candidate decisions r := by
  cases h with
  | through _ inner => exact inner.result

end Trial

namespace Optimize

variable {text : Text} {granularity : Option Text} {config : Config}

/-- What is returned when every proposal of the plan is committed. -/
abbrev committedReport (text : Text) (granularity : Option Text) (config : Config) (v : Verdict) :
    OptimizeResult :=
  let a := Analysis.ofText text granularity config
  ⟨(planOf text granularity config).candidate, a.decisions.map Decision.commit,
    ⟨.optimized, true, some v.summary⟩, a.resolution.granularity, a.resolution.source,
    a.notes ++ []⟩

/-- What a run on a text may return. -/
inductive Returns (text : Text) (granularity : Option Text) (config : Config) :
    OptimizeResult → Prop where
  | untried (hnone : (Analysis.ofText text granularity config).proposals = []) :
    Returns text granularity config
      (keptReport text granularity config ⟨.clean, false, none⟩ [])
  | committed (v : Verdict) (hsome : (Analysis.ofText text granularity config).proposals ≠ []) :
    Returns text granularity config (committedReport text granularity config v)
  | takenBack (v : Verdict) {note : Note}
      (hnote : note = Trial.baselineNote v.outcome ∨ note = Trial.candidateNote v.outcome) :
    Returns text granularity config
      (keptReport text granularity config ⟨.reverted, true, some v.summary⟩ [note])
  | failed {file : String} {fault : TrialFault} {told : FaultAccount}
      (haccount : account file (.trial fault) = .ok told) :
    Returns text granularity config (keptReport text granularity config
      ⟨.error, told.isAttempt, none⟩ [⟨.error, told.code, told.message⟩])

/-- A fault has an account unless the command itself is faulty. -/
theorem account_trial_cases (file : String) (fault : TrialFault) :
    (∃ cause, fault = .command cause) ∨ ∃ told, account file (.trial fault) = .ok told := by
  cases fault with
  | command cause => exact .inl ⟨cause, rfl⟩
  | scratch cause => exact .inr ⟨_, rfl⟩
  | unavailable message => exact .inr ⟨_, rfl⟩

/-- The report about a trial that was carried through. -/
theorem exists_returns_of_result {r : TrialResult}
    (hsome : (Analysis.ofText text granularity config).proposals ≠ [])
    (hresult : Trial.Result text (planOf text granularity config).candidate
      (Analysis.ofText text granularity config).decisions r) :
    ∃ report, reportOf ((Draft.ofAnalysis (Analysis.ofText text granularity config)).addNotes
        (Analysis.ofText text granularity config).notes) r = .ok report ∧
      Returns text granularity config ⟨r.text, report⟩ := by
  cases hresult with
  | committed v =>
    have hids : ((Analysis.ofText text granularity config).decisions.map Decision.commit).map
        (·.siteId) = (Analysis.ofText text granularity config).decisions.map (·.siteId) := by
      rw [List.map_map]
      exact List.map_congr_left fun d _ => Decision.siteId_commit d
    exact ⟨_, complete_ofAnalysis _ _ _ hids, .committed v hsome⟩
  | takenBack v hnote => exact ⟨_, complete_ofAnalysis _ _ _ rfl, .takenBack v hnote⟩

/-- A report tells the status of its trial. -/
theorem status_of_reportOf {draft : Draft} {r : TrialResult} {report : Report}
    (h : reportOf draft r = .ok report) : report.outcome.status = r.status := by
  unfold reportOf complete Draft.build at h
  split at h
  · cases h
  · split at h
    · cases h
      rfl
    · cases h

/-- The trial of the candidate of the plan, as a run starts it. -/
abbrev trialOf (bench : Bench σ) (text : Text) (granularity : Option Text) (config : Config)
    (file : String) (s : σ) : Except TrialFault TrialResult × σ :=
  let a := Analysis.ofText text granularity config
  Trial.inScratch bench config.verifyBaseline file text (planOf text granularity config).candidate
    a.decisions (remarkAll bench a.records s)

/-- How a run ends: with the analysis if nothing is proposed, and otherwise with its trial, which is
carried through, or fails and is accounted for, or fails because the command is faulty. -/
inductive Ends (bench : Bench σ) (text : Text) (granularity : Option Text) (config : Config)
    (file : String) (s : σ) : Except OptimizeFault OptimizeResult × σ → Prop where
  | untried (hnone : (Analysis.ofText text granularity config).proposals = []) :
    Ends bench text granularity config file s
      (.ok (keptReport text granularity config ⟨.clean, false, none⟩ []),
        remarkAll bench (Analysis.ofText text granularity config).records s)
  | through {r : TrialResult} {report : Report} {after : σ}
      (hsome : (Analysis.ofText text granularity config).proposals ≠ [])
      (htried : trialOf bench text granularity config file s = (.ok r, after))
      (hreport : report.outcome.status = r.status)
      (hresult : Trial.Result text (planOf text granularity config).candidate
        (Analysis.ofText text granularity config).decisions r)
      (hreturns : Returns text granularity config ⟨r.text, report⟩) :
    Ends bench text granularity config file s (.ok ⟨r.text, report⟩, after)
  | failed {fault : TrialFault} {told : FaultAccount} {after : σ}
      (hsome : (Analysis.ofText text granularity config).proposals ≠ [])
      (htried : trialOf bench text granularity config file s = (.error fault, after))
      (htold : account file (.trial fault) = .ok told) :
    Ends bench text granularity config file s
      (.ok (keptReport text granularity config ⟨.error, told.isAttempt, none⟩
          [⟨.error, told.code, told.message⟩]),
        bench.remark ⟨.error, .pipeline, s!"{file}: {told.message}"⟩ after)
  | faulty {cause : CommandFault} {after : σ} (hfail : bench.CanFail (.command cause)) :
    Ends bench text granularity config file s (.error (.command cause), after)

/-- Every run ends in one of these ways. -/
theorem ends_run (bench : Bench σ) (text : Text) (granularity : Option Text) (config : Config)
    (file : String) (s : σ) : Ends bench text granularity config file s
      (run bench text granularity config file s) := by
  unfold run
  simp only [Analysis.sites_ofText]
  by_cases hproposals : (Analysis.ofText text granularity config).proposals = []
  · rw [trial_run_untried _ _ _ _ hproposals]
    simp only [reportOf, Trial.untried, complete_ofAnalysis _ _ _ rfl]
    exact .untried hproposals
  · rw [trial_run_tried _ _ _ _ hproposals]
    obtain ⟨events, -, hcourse⟩ := Trial.course_inScratch bench config.verifyBaseline file text
      (planOf text granularity config).candidate
      (Analysis.ofText text granularity config).decisions
      (remarkAll bench (Analysis.ofText text granularity config).records s) []
    rcases htried : Trial.inScratch bench config.verifyBaseline file text
      (planOf text granularity config).candidate
      (Analysis.ofText text granularity config).decisions
      (remarkAll bench (Analysis.ofText text granularity config).records s) with ⟨answer, after⟩
    rw [htried] at hcourse
    dsimp only
    cases answer with
    | ok r =>
      obtain ⟨report, hreport, hreturns⟩ := exists_returns_of_result hproposals hcourse.result
      simp only [Except.mapError, hreport, Except.map]
      exact .through hproposals htried (status_of_reportOf hreport) hcourse.result hreturns
    | error fault =>
      obtain ⟨hfault, -⟩ := hcourse.exists_isFailure
      rcases account_trial_cases file fault with ⟨cause, rfl⟩ | ⟨told, htold⟩
      · rcases hfault with hfail | ⟨cause, hcause⟩
        · exact .faulty hfail
        · cases hcause
      · simp only [Except.mapError, htold, faultReport, complete_ofAnalysis _ _ _ rfl]
        exact .failed hproposals htried htold

/-- A run returns one of the results, unless its command is faulty. -/
theorem run_returns (bench : Bench σ) (text : Text) (granularity : Option Text) (config : Config)
    (file : String) (s : σ) :
    (∃ fault, bench.CanFail (.command fault) ∧
      (run bench text granularity config file s).1 = .error (.command fault)) ∨
    ∃ result, (run bench text granularity config file s).1 = .ok result ∧
      Returns text granularity config result := by
  have hends := ends_run bench text granularity config file s
  generalize run bench text granularity config file s = ending at hends ⊢
  cases hends with
  | untried hnone => exact .inr ⟨_, rfl, .untried hnone⟩
  | through _ _ _ _ hreturns => exact .inr ⟨_, rfl, hreturns⟩
  | failed _ _ htold => exact .inr ⟨_, rfl, .failed htold⟩
  | faulty hfail => exact .inl ⟨_, hfail, rfl⟩

end Optimize

end FactoryDowngrade
