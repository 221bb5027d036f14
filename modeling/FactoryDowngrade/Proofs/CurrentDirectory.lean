import FactoryDowngrade.CommandLine.Session
import FactoryDowngrade.Proofs.PrivateTrial

/-!
# The current directory

Everything that happens to files while others are optimized happens in one current directory: making
and removing scratch directories, running the command and writing results back change the files and
the log records, and nothing of what path names start from.
-/

namespace FactoryDowngrade

/-- A change of nodes keeps the current directory. -/
theorem World.cwd_change (w : World) (result : Except OsFault Node) :
    (w.change result).2.cwd = w.cwd := by
  cases result <;> rfl

/-- A scratch directory is made without changing the current directory. -/
theorem Scratch.cwd_enter (root : Option PathName) (file : String) (w : World) :
    (enter root file w).2.cwd = w.cwd := by
  have hroot := cwd_provideRoot root w
  have hentry := entry_enter root file w
  revert hentry
  generalize enter root file w = entered
  intro hentry
  cases hentry with
  | rootless h => rwa [h] at hroot
  | refused h hmkdir => rwa [h] at hroot
  | entered h hmkdir => rwa [h] at hroot

/-- So does the removal of a scratch directory. -/
theorem Scratch.cwd_leave (dir : PathName) (w : World) : (leave dir w).2.cwd = w.cwd := by
  unfold leave
  split <;> rfl

section Stays

variable {τ : Type} {verify : Verifier τ}

/-- So does the judgement of a text, if the verifier itself does. -/
theorem Verifier.cwd_judge (hverify : ∀ candidate s, (verify candidate s).2.1.cwd = s.1.cwd)
    (dir : PathName) (file : String) (text : Text) (s : World × τ) :
    (verify.judge dir file text s).2.1.cwd = s.1.cwd := by
  unfold judge
  extract_lets candidate
  have hwritten := s.1.cwd_change (FileTree.write s.1.tree s.1.cwd candidate (Utf8.encode text))
  rcases hwrite : s.1.write candidate (Utf8.encode text) with ⟨fault | ⟨⟩, w⟩
  · rwa [← World.write, hwrite] at hwritten
  · rw [← World.write, hwrite] at hwritten
    exact (hverify candidate (w, s.2)).trans hwritten

/-- No trial changes the current directory if no run of the command does. -/
theorem Verifier.keeps_cwd (hverify : ∀ candidate s, (verify candidate s).2.1.cwd = s.1.cwd)
    (root : Option PathName) (cwd : List String) :
    (verify.bench root).Keeps (fun s => s.1.cwd = cwd) (fun _ s => s.1.cwd = cwd) where
  remark _ h := h
  remarkInside _ h := h
  refused {file s t fault} h henter := by
    rw [bench_enter] at henter
    rw [← h, ← (Prod.mk.inj henter).2]
    exact Scratch.cwd_enter root file s.1
  entered {file s t dir} h henter := by
    rw [bench_enter] at henter
    rw [← h, ← (Prod.mk.inj henter).2]
    exact Scratch.cwd_enter root file s.1
  judged {dir} file text s h := (cwd_judge hverify dir file text s).trans h
  left {dir s} h := (Scratch.cwd_leave dir s.1).trans h

/-- Optimizing a file keeps the current directory. -/
theorem OptimizeFile.cwd_run (hverify : ∀ candidate s, (verify candidate s).2.1.cwd = s.1.cwd)
    (weather : WriteBack.Weather) (root : Option PathName) (p : PathName)
    (granularity : Option Text) (config : Config) (s : World × τ) :
    (run verify weather root p granularity config s).2.1.cwd = s.1.cwd := by
  unfold run
  cases readText s.1 p with
  | error fault => rfl
  | ok text =>
    have hrun := (Verifier.keeps_cwd hverify root s.1.cwd).run rfl text granularity config p.name
    rcases htext : Optimize.run (verify.bench root) text granularity config p.name s with
      ⟨fault | result, t⟩
    · dsimp only
      rw [htext] at hrun ⊢
      exact hrun
    · dsimp only
      rw [htext] at hrun ⊢
      dsimp only
      split
      · unfold writeBack
        split <;> exact hrun
      · exact hrun

/-- So does optimizing several ones. -/
theorem CommandLine.Batch.cwd_runAll {verifyFor : PathName → Verifier τ}
    (hverify : ∀ p candidate s, (verifyFor p candidate s).2.1.cwd = s.1.cwd)
    (weather : PathName → WriteBack.Weather)
    (root : Option PathName) (granularity : Option Text) (config : Config) (files : List PathName)
    (s : World × τ) :
    (runAll verifyFor weather root granularity config files s).2.1.cwd = s.1.cwd := by
  induction files generalizing s with
  | nil => rfl
  | cons p files ih =>
    exact (ih _).trans (OptimizeFile.cwd_run (hverify p) (weather p) root p granularity config s)

end Stays

/-- The oracle keeps the current directory. -/
theorem Oracle.cwd_verify (o : Oracle) (candidate : PathName) (s : World × Unit) :
    (o.verify candidate s).2.1.cwd = s.1.cwd := by
  unfold verify
  extract_lets args invocation w
  split
  · rfl
  · split
    · rfl
    · split
      dsimp only
      split <;> rfl

end FactoryDowngrade
