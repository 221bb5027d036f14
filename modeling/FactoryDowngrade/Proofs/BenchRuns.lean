import FactoryDowngrade.Proofs.RunResults

/-!
# Runs and their benches

Whatever a bench keeps from one call to the next, a run keeps from its start to its end.
-/

namespace FactoryDowngrade

/-! ### What runs keep -/

section Keeps

variable {σ : Type}

/-- A bench keeps something about the states outside of scratch directories, if nothing that happens
in them breaks what holds inside. -/
structure Bench.Keeps (bench : Bench σ) (Outside : σ → Prop) (Inside : PathName → σ → Prop) :
    Prop where
  remark {s : σ} (record : LogRecord) (h : Outside s) : Outside (bench.remark record s)
  remarkInside {dir : PathName} {s : σ} (record : LogRecord) (h : Inside dir s) :
    Inside dir (bench.remark record s)
  refused {file : String} {s t : σ} {fault : OsFault} (h : Outside s)
    (henter : bench.enter file s = (.error fault, t)) : Outside t
  entered {file : String} {s t : σ} {dir : PathName} (h : Outside s)
    (henter : bench.enter file s = (.ok dir, t)) : Inside dir t
  judged {dir : PathName} (file : String) (text : Text) {s : σ} (h : Inside dir s) :
    Inside dir (bench.judge dir file text s).2
  left {dir : PathName} {s : σ} (h : Inside dir s) : Outside (bench.leave dir s).2

namespace Bench.Keeps

variable {bench : Bench σ} {Outside : σ → Prop} {Inside : PathName → σ → Prop}

/-- The check of the text as it is keeps what holds inside. -/
theorem checkBaseline (hkeeps : bench.Keeps Outside Inside) {dir : PathName} {s : σ}
    (h : Inside dir s) (file : String) (text : Text) (decisions : List Decision) :
    Inside dir (Trial.checkBaseline bench dir file text decisions s).2 := by
  have hjudged := hkeeps.judged file text h
  unfold Trial.checkBaseline
  cases hjudge : bench.judge dir file text s with
  | mk answer t =>
    rw [hjudge] at hjudged
    cases answer with
    | error fault => exact hjudged
    | ok v =>
      dsimp only
      split
      · exact hjudged
      · exact hkeeps.remarkInside _ hjudged

/-- So does the check of the candidate. -/
theorem checkCandidate (hkeeps : bench.Keeps Outside Inside) {dir : PathName} {s : σ}
    (h : Inside dir s) (file : String) (text candidate : Text) (decisions : List Decision) :
    Inside dir (Trial.checkCandidate bench dir file text candidate decisions s).2 := by
  have hjudged := hkeeps.judged file candidate h
  unfold Trial.checkCandidate
  cases hjudge : bench.judge dir file candidate s with
  | mk answer t =>
    rw [hjudge] at hjudged
    cases answer with
    | error fault => exact hjudged
    | ok v =>
      dsimp only
      split
      · exact hkeeps.remarkInside _ hjudged
      · exact hkeeps.remarkInside _ hjudged

/-- So do both of them together. -/
theorem verify (hkeeps : bench.Keeps Outside Inside) {dir : PathName} {s : σ}
    (h : Inside dir s) (baseline : Bool) (file : String) (text candidate : Text)
    (decisions : List Decision) :
    Inside dir (Trial.verify bench baseline dir file text candidate decisions s).2 := by
  cases baseline with
  | false => exact hkeeps.checkCandidate h file text candidate decisions
  | true =>
    have hchecked := hkeeps.checkBaseline h file text decisions
    rw [Trial.verify, if_pos rfl]
    cases hcheck : Trial.checkBaseline bench dir file text decisions s with
    | mk answer t =>
      rw [hcheck] at hchecked
      rcases answer with fault | (_ | result)
      · exact hchecked
      · exact hkeeps.checkCandidate hchecked file text candidate decisions
      · exact hchecked

/-- A trial keeps what its bench keeps. -/
theorem inScratch (hkeeps : bench.Keeps Outside Inside) {s : σ} (h : Outside s) (baseline : Bool)
    (file : String) (text candidate : Text) (decisions : List Decision) :
    Outside (Trial.inScratch bench baseline file text candidate decisions s).2 := by
  unfold Trial.inScratch
  cases henter : bench.enter file s with
  | mk answer t =>
    cases answer with
    | error fault => exact hkeeps.refused h henter
    | ok dir =>
      have hverified := hkeeps.verify (hkeeps.entered h henter) baseline
        (PathName.ofString file).name text candidate decisions
      dsimp only
      cases hverify : Trial.verify bench baseline dir (PathName.ofString file).name text candidate
          decisions t with
      | mk result u =>
        rw [hverify] at hverified
        have hleft := hkeeps.left hverified
        dsimp only
        cases hleave : bench.leave dir u with
        | mk answer v =>
          rw [hleave] at hleft
          cases answer <;> exact hleft

/-- So do remarks, however many they are. -/
theorem remarkAll (hkeeps : bench.Keeps Outside Inside) (records : List LogRecord) {s : σ}
    (h : Outside s) : Outside (Optimize.remarkAll bench records s) := by
  induction records generalizing s with
  | nil => exact h
  | cons record records ih => exact ih (hkeeps.remark record h)

/-- So does a run on a text. -/
theorem run (hkeeps : bench.Keeps Outside Inside) {s : σ} (h : Outside s) (text : Text)
    (granularity : Option Text) (config : Config) (file : String) :
    Outside (Optimize.run bench text granularity config file s).2 := by
  have hstart := hkeeps.remarkAll (Analysis.ofText text granularity config).records h
  unfold Optimize.run
  simp only [Analysis.sites_ofText]
  by_cases hproposals : (Analysis.ofText text granularity config).proposals = []
  · rw [Optimize.trial_run_untried _ _ _ _ hproposals]
    exact hstart
  · rw [Optimize.trial_run_tried _ _ _ _ hproposals]
    have htried := hkeeps.inScratch hstart config.verifyBaseline file text
      (Optimize.planOf text granularity config).candidate
      (Analysis.ofText text granularity config).decisions
    revert htried
    generalize Trial.inScratch bench config.verifyBaseline file text
      (Optimize.planOf text granularity config).candidate
      (Analysis.ofText text granularity config).decisions
      (Optimize.remarkAll bench (Analysis.ofText text granularity config).records s) = tried
    intro htried
    obtain ⟨answer, t⟩ := tried
    cases answer with
    | ok result => exact htried
    | error fault =>
      dsimp only [Except.mapError]
      cases Optimize.account file (.trial fault) with
      | error fault => exact htried
      | ok told => exact hkeeps.remark _ htried

end Bench.Keeps

end Keeps

end FactoryDowngrade
