import FactoryDowngrade.Proofs.RunResults

/-!
# The status of a run tells the rest

Beside what the command said, a run returns nothing that its text, its settings and its status do
not tell: the text and the decisions are those of the candidate if it was optimized, and those of
the analysis if not. The status itself is told by the trial.
-/

namespace FactoryDowngrade

/-- A result without what was said about its trial. -/
def OptimizeResult.plain (r : OptimizeResult) : OptimizeResult :=
  ⟨r.text, { r.report with outcome := ⟨r.report.outcome.status, false, none⟩, notes := [] }⟩

/-- Whether every proposal was committed. -/
def TrialResult.isCommitted (r : TrialResult) : Bool :=
  r.status = .optimized

/-- The status of a run whose trial was carried through, with every proposal committed or none, or
was not. -/
def ReportStatus.ofTrial : Option Bool → ReportStatus
  | some true => optimized
  | some false => reverted
  | none => error

/-- The status of a trial is told by whether it committed its proposals. -/
theorem Trial.Result.status_eq {text candidate : Text} {decisions : List Decision} {r : TrialResult}
    (h : Trial.Result text candidate decisions r) : r.status = .ofTrial (some r.isCommitted) := by
  cases h <;> rfl

namespace Optimize

/-- What a run with some status returns, without what is said about its trial. -/
def settled (text : Text) (granularity : Option Text) (config : Config) (status : ReportStatus) :
    OptimizeResult :=
  let a := Analysis.ofText text granularity config
  let outcome : ReportOutcome := ⟨status, false, none⟩
  if status = .optimized then
    ⟨(planOf text granularity config).candidate, a.decisions.map Decision.commit, outcome,
      a.resolution.granularity, a.resolution.source, []⟩
  else ⟨text, a.decisions, outcome, a.resolution.granularity, a.resolution.source, []⟩

section Settled

variable {text : Text} {granularity : Option Text} {config : Config} {result : OptimizeResult}

/-- Without what was said about its trial, a result is settled by its status. -/
theorem Returns.plain_eq (h : Returns text granularity config result) :
    result.plain = settled text granularity config result.report.outcome.status := by
  cases h <;> rfl

/-- A result that is withdrawn is that of a run that failed. -/
theorem Returns.plain_withdraw (h : Returns text granularity config result) (note : Note) :
    OptimizeResult.plain ⟨text, result.report.withdraw note⟩ =
      settled text granularity config .error := by
  have hdecisions : result.report.decisions.map Decision.withdraw =
      (Analysis.ofText text granularity config).decisions := by
    cases h with
    | committed =>
      rw [← Analysis.map_withdraw_decisions, List.map_map]
      exact List.map_congr_left fun d _ => Decision.withdraw_commit d
    | untried => exact Analysis.map_withdraw_decisions
    | takenBack => exact Analysis.map_withdraw_decisions
    | failed => exact Analysis.map_withdraw_decisions
  have hrest : result.report.granularity =
        (Analysis.ofText text granularity config).resolution.granularity ∧
      result.report.source = (Analysis.ofText text granularity config).resolution.source := by
    cases h <;> exact ⟨rfl, rfl⟩
  simp [OptimizeResult.plain, Report.withdraw, settled, hdecisions, hrest]

end Settled

/-! ### The status and the trial -/

variable {σ : Type}

/-- A run with a sound command returns something. Its status is told by its trial if anything is
proposed, and the trial, but for a log record, by all that happens after the analysis. -/
theorem exists_run {bench : Bench σ} (hsound : ∀ fault, ¬bench.CanFail (.command fault))
    (text : Text) (granularity : Option Text) (config : Config) (file : String) (s : σ) :
    let a := Analysis.ofText text granularity config
    let start := remarkAll bench a.records s
    let tried := trialOf bench text granularity config file s
    ∃ result after, run bench text granularity config file s = (.ok result, after) ∧
      Returns text granularity config result ∧
      (a.proposals = [] → result.report.outcome.status = .clean ∧ after = start) ∧
      (a.proposals ≠ [] →
        result.report.outcome.status = .ofTrial (tried.1.toOption.map TrialResult.isCommitted) ∧
        (after = tried.2 ∨ ∃ record, after = bench.remark record tried.2)) := by
  have hends := ends_run bench text granularity config file s
  generalize run bench text granularity config file s = ending at hends ⊢
  cases hends with
  | untried hnone =>
    exact ⟨_, _, rfl, .untried hnone, fun _ => ⟨rfl, rfl⟩, fun hsome => absurd hnone hsome⟩
  | through hsome htried hreport hresult hreturns =>
    refine ⟨_, _, rfl, hreturns, fun hnone => absurd hnone hsome, fun _ => ?_⟩
    rw [htried]
    exact ⟨hreport.trans hresult.status_eq, .inl rfl⟩
  | failed hsome htried htold =>
    refine ⟨_, _, rfl, .failed htold, fun hnone => absurd hnone hsome, fun _ => ?_⟩
    rw [htried]
    exact ⟨rfl, .inr ⟨_, rfl⟩⟩
  | faulty hfail => exact absurd hfail (hsound _)

end Optimize

end FactoryDowngrade
