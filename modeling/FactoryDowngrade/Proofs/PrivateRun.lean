import FactoryDowngrade.Proofs.PrivateTrial

/-!
# Runs on files with trials of their own

If the command works in its scratch directory, a run on a file has the status that its trial and its
write-back decide. It leaves the text that goes with the status in the file, and every other file as
it was; and of directories it leaves at most those above the scratch directory.
-/

namespace FactoryDowngrade

open PathName

/-- A place where a file is read is not on the way to a file at another place. -/
theorem FileTree.isOffWay_of_read {root : Node} {cwd : List String} {p q : PathName}
    {bytes content : Bytes} (hp : FileTree.read root cwd p = .ok bytes)
    (hq : FileTree.read root cwd q = .ok content) (hne : resolve cwd q ≠ resolve cwd p) :
    FileTree.IsOffWay cwd q (resolve cwd p) := by
  obtain ⟨node, hfind, hcontent⟩ := FileTree.read_eq_ok_iff.mp hp
  obtain ⟨other, hother, -⟩ := FileTree.read_eq_ok_iff.mp hq
  obtain ⟨-, hget⟩ := FileTree.find_eq_ok_iff.mp hfind
  obtain ⟨hcrossed, hgot⟩ := FileTree.find_eq_ok_iff.mp hother
  refine ⟨?_, fun place hplace =>
    (hcrossed place hplace).not_prefix_of_file hget hcontent.isDir⟩
  rintro ⟨rest, hrest⟩
  cases rest with
  | nil => exact hne (by simpa using hrest.symm)
  | cons name rest =>
    rw [← hrest] at hgot
    obtain ⟨entries, hdir⟩ := Node.exists_dir_of_get_append hgot
    rw [hget] at hdir
    cases hdir
    cases hcontent.isDir

/-- What a run on a file leaves of a world: directories are made, if any, and no other file has
changed. -/
structure World.IsAfterRun (root : Option PathName) (p : PathName) (w v : World) : Prop where
  cwd : v.cwd = w.cwd
  scratch : v.scratch.length ≤ w.scratch.length + 1
  outline : v.tree.outline = w.tree.outline ∨
    v.tree.outline = (Scratch.provideRoot root w).2.tree.outline
  kept {q : PathName} {bytes : Bytes} (hne : resolve w.cwd q ≠ resolve w.cwd p)
    (h : w.read q = .ok bytes) : v.read q = .ok bytes

/-- A run that changes nothing leaves the world itself. -/
theorem World.IsAfterRun.refl (root : Option PathName) (p : PathName) (w : World) :
    w.IsAfterRun root p w :=
  ⟨rfl, Nat.le_succ _, .inl rfl, fun _ h => h⟩

namespace World.IsAfterTrial

variable {root : Option PathName} {w v : World} {p q : PathName}

/-- A trial keeps all files. -/
theorem read (h : w.IsAfterTrial root v) {bytes : Bytes} (hread : w.read q = .ok bytes) :
    v.read q = .ok bytes := by
  have hready := (World.Holds.mk rfl hread : w.Holds w.cwd q bytes).provideRoot root
  rw [World.read, h.tree, h.cwd, ← Scratch.cwd_provideRoot root w]
  exact hready.content

/-- A trial leaves what a run leaves. -/
theorem isAfterRun (h : w.IsAfterTrial root v) : w.IsAfterRun root p v where
  cwd := h.cwd
  scratch := h.scratch
  outline := .inr (by rw [h.tree])
  kept _ hread := h.read hread

end World.IsAfterTrial

namespace OptimizeFile

/-- The status of a run on a file with some text in a world: that of its trial, if anything is
proposed, unless the verified text cannot be written back. -/
def statusIn (behave : Behaviour) (weather : WriteBack.Weather) (root : Option PathName)
    (p : PathName) (granularity : Option Text) (config : Config) (text : Text) (w : World) :
    ReportStatus :=
  if (Analysis.ofText text granularity config).proposals = [] then .clean
  else
    match ReportStatus.ofTrial (if Scratch.hasRoom root p.name w then
        behave.tried config.verifyBaseline (PathName.ofString p.name).name text
          (Optimize.planOf text granularity config).candidate
      else none) with
    | .optimized =>
      if (WriteBack.obstacle? weather (Scratch.provideRoot root w).2.tree w.cwd p).isSome then
        .error
      else .optimized
    | status => status

variable {τ : Type} {verify : Verifier τ} {Around : World → Prop} {behave : Behaviour}
  {root : Option PathName} {p : PathName} {granularity : Option Text} {config : Config}
  {text : Text} {s : World × τ}

/-- Remarks change nothing but the log. -/
theorem exists_remarkAll (verify : Verifier τ) (root : Option PathName) (records : List LogRecord)
    (s : World × τ) : ∃ log,
      Optimize.remarkAll (verify.bench root) records s = ({ s.1 with log }, s.2) := by
  induction records generalizing s with
  | nil => exact ⟨s.1.log, rfl⟩
  | cons record records ih => exact ih (s.1.remark record, s.2)

/-- A run on a text comes to what its trial decides, and leaves what the trial leaves. -/
theorem exists_run_private (hverify : verify.Behaves Around behave)
    (haround : ∀ (base w : World) dir entries, base.tree = (Scratch.provideRoot root s.1).2.tree →
      base.cwd = s.1.cwd → base.Hosts dir entries w → Around w)
    (huntaken : Scratch.IsUntaken root p.name s.1) (text : Text) (granularity : Option Text)
    (config : Config) :
    ∃ result after,
      Optimize.run (verify.bench root) text granularity config p.name s = (.ok result, after) ∧
      Optimize.Returns text granularity config result ∧
      ((Analysis.ofText text granularity config).proposals = [] →
        result.report.outcome.status = .clean ∧ ∃ log, after.1 = { s.1 with log }) ∧
      ((Analysis.ofText text granularity config).proposals ≠ [] →
        result.report.outcome.status = .ofTrial (if Scratch.hasRoom root p.name s.1 then
          behave.tried config.verifyBaseline (PathName.ofString p.name).name text
            (Optimize.planOf text granularity config).candidate else none) ∧
        s.1.IsAfterTrial root after.1) := by
  have hsound : ∀ fault, ¬(verify.bench root).CanFail (.command fault) := by
    intro fault hfail
    obtain ⟨candidate, t, hfault⟩ := exists_verify_of_canFail hfail
    exact hverify.sound candidate t fault hfault
  obtain ⟨result, after, hrun, hreturns, hclean, htried⟩ :=
    Optimize.exists_run hsound text granularity config p.name s
  refine ⟨result, after, hrun, hreturns, fun hnone => ?_, fun hsome => ?_⟩
  · obtain ⟨hstatus, rfl⟩ := hclean hnone
    obtain ⟨log, hlog⟩ := exists_remarkAll verify root
      (Analysis.ofText text granularity config).records s
    exact ⟨hstatus, log, by rw [hlog]⟩
  · obtain ⟨hstatus, hafter⟩ := htried hsome
    obtain ⟨log, hlog⟩ := exists_remarkAll verify root
      (Analysis.ofText text granularity config).records s
    simp only [Optimize.trialOf, hlog] at hstatus hafter
    obtain ⟨hanswer, hleft⟩ := @Verifier.Behaves.inScratch _ _ _ _ root p.name
      ({ s.1 with log }, s.2) hverify (by rw [Scratch.tree_provideRoot_log]; exact haround)
      (huntaken.log log) config.verifyBaseline text
      (Optimize.planOf text granularity config).candidate
      (Analysis.ofText text granularity config).decisions
    rw [hanswer, Scratch.hasRoom_log] at hstatus
    refine ⟨hstatus, ?_⟩
    rcases hafter with rfl | ⟨record, rfl⟩
    · exact hleft.of_log
    · exact .of_log ⟨hleft.cwd, hleft.tree, hleft.scratch⟩

/-- Writing a verified text back after a trial. -/
theorem writeBack_isAfterRun (weather : WriteBack.Weather) {w v : World}
    (h : w.IsAfterTrial root v) (hread : v.read p = .ok (Utf8.encode text))
    {result : OptimizeResult} (hreturns : Optimize.Returns text granularity config result)
    (hstatus : result.report.outcome.status = .optimized) :
    let written := writeBack weather p text result v
    written.1.plain = Optimize.settled text granularity config
        (if (WriteBack.obstacle? weather (Scratch.provideRoot root w).2.tree w.cwd p).isSome then
          .error else .optimized) ∧
      written.2.read p = .ok (Utf8.encode written.1.text) ∧ w.IsAfterRun root p written.2 := by
  obtain ⟨node, hfind, hcontent⟩ := FileTree.read_eq_ok_iff.mp hread
  have hnode := hcontent.isDir
  have hrun := WriteBack.run_eq weather (Utf8.encode result.text) hfind hnode
  unfold writeBack
  rw [← h.tree, ← h.cwd]
  cases hobstacle : WriteBack.obstacle? weather v.tree v.cwd p with
  | some fault =>
    rw [hobstacle] at hrun
    rw [hrun]
    exact ⟨hreturns.plain_withdraw _, hread, h.cwd, h.scratch, .inr (by rw [← h.tree]; rfl),
      fun _ hq => h.read hq⟩
  | none =>
    rw [hobstacle] at hrun
    rw [hrun]
    refine ⟨hstatus ▸ hreturns.plain_eq, WriteBack.read_put_refilled _ hfind hnode, h.cwd,
      h.scratch, .inr ?_, fun {q bytes} hne hq => ?_⟩
    · rw [← h.tree]
      exact Node.outline_put_of_get (FileTree.find_eq_ok_iff.mp hfind).2 hnode
        (WriteBack.isDir_refilled _ _)
    · rw [← h.cwd] at hne
      exact FileTree.read_put (h.read hq) (FileTree.isOffWay_of_read hread (h.read hq) hne)

/-- A run on a file that can be read has the status that its trial and its write-back decide, leaves
the text of that status in the file, and changes no other file. -/
theorem exists_run_readable (htext : readText s.1 p = .ok text)
    (hverify : verify.Behaves Around behave)
    (haround : ∀ (base w : World) dir entries, base.tree = (Scratch.provideRoot root s.1).2.tree →
      base.cwd = s.1.cwd → base.Hosts dir entries w → Around w)
    (huntaken : Scratch.IsUntaken root p.name s.1) (weather : WriteBack.Weather)
    (granularity : Option Text) (config : Config) :
    ∃ result after, run verify weather root p granularity config s = (.ok result, after) ∧
      result.plain = Optimize.settled text granularity config
        (statusIn behave weather root p granularity config text s.1) ∧
      after.1.read p = .ok (Utf8.encode result.text) ∧ s.1.IsAfterRun root p after.1 := by
  have hread := read_of_readText htext
  obtain ⟨result, after, hrun, hreturns, hclean, htried⟩ :=
    exists_run_private hverify haround huntaken text granularity config
  unfold run statusIn
  rw [htext]
  dsimp only
  rw [hrun]
  dsimp only
  by_cases hproposals : (Analysis.ofText text granularity config).proposals = []
  · obtain ⟨hstatus, log, hlog⟩ := hclean hproposals
    have hnot : result.report.outcome.status ≠ .optimized := by simp [hstatus]
    rw [if_neg hnot, if_pos hproposals, ← hstatus]
    refine ⟨result, after, rfl, hreturns.plain_eq, ?_, ?_⟩
    · rw [hlog, hreturns.text_eq hnot]
      exact hread
    · rw [hlog]
      exact ⟨rfl, Nat.le_succ _, .inl rfl, fun _ hq => hq⟩
  · obtain ⟨hstatus, hafter⟩ := htried hproposals
    rw [if_neg hproposals, ← hstatus]
    by_cases hoptimized : result.report.outcome.status = .optimized
    · rw [if_pos hoptimized, hoptimized]
      obtain ⟨hplain, hcontent, hleft⟩ :=
        writeBack_isAfterRun weather hafter (hafter.read hread) hreturns hoptimized
      exact ⟨_, _, rfl, hplain, hcontent, hleft⟩
    · rw [if_neg hoptimized]
      refine ⟨result, after, rfl, ?_, ?_, hafter.isAfterRun⟩
      · rw [hreturns.plain_eq]
        cases hcase : result.report.outcome.status with
        | optimized => exact absurd hcase hoptimized
        | clean => rfl
        | reverted => rfl
        | error => rfl
      · rw [hreturns.text_eq hoptimized]
        exact hafter.read hread

end OptimizeFile

end FactoryDowngrade
