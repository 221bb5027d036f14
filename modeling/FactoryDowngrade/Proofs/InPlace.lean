import FactoryDowngrade.OptimizeFile
import FactoryDowngrade.Proofs.BenchRuns
import FactoryDowngrade.Proofs.Text.Utf8
import FactoryDowngrade.Proofs.World.Scratch
import FactoryDowngrade.Proofs.World.WriteBack

/-!
# Optimizing in place is all or nothing

A trial works in a directory of its own, which is nowhere on the way to the file, so that only the
command itself could change the file while it is tried out. After the trial either the verified text
takes the place of the old one or, whichever step fails, the file and all directories stay what they
are and the report takes its changes back.
-/

namespace FactoryDowngrade

open PathName

/-! ### Trials keep the file -/

/-- The bench of a verifier makes a scratch directory and keeps the verifier's state. -/
theorem Verifier.bench_enter {τ : Type} (verify : Verifier τ) (root : Option PathName)
    (file : String) (s : World × τ) : (verify.bench root).enter file s =
      ((Scratch.enter root file s.1).1, (Scratch.enter root file s.1).2, s.2) := rfl

/-- Nothing that happens in a trial changes the file, if no run of the command does. -/
theorem Verifier.Spares.keeps {τ : Type} {verify : Verifier τ} {p : PathName}
    (hspares : verify.Spares p)
    (root : Option PathName) (cwd : List String) (bytes : Bytes) :
    (verify.bench root).Keeps (fun s => s.1.Holds cwd p bytes)
      (fun dir s => s.1.HoldsBeside cwd p bytes dir) where
  remark _ h := ⟨h.here, h.content⟩
  remarkInside _ h := ⟨⟨h.here, h.content⟩, h.offWay⟩
  refused {file s t fault} h henter := by
    rw [bench_enter] at henter
    obtain ⟨hanswer, rfl⟩ := Prod.mk.inj henter
    exact h.refused (Prod.ext hanswer rfl)
  entered {file s t dir} h henter := by
    rw [bench_enter] at henter
    obtain ⟨hanswer, rfl⟩ := Prod.mk.inj henter
    exact h.entered (Prod.ext hanswer rfl)
  judged file text _ h := h.judge hspares file text
  left h := h.leave

/-! ### The file and its report -/

/-- What comes out when a verified text cannot be written back: an error, no change, and one more
note. -/
structure IsTakenBack (text : Text) (tried : Report) (result : OptimizeResult) : Prop where
  text : result.text = text
  status : result.report.outcome.status = .error
  applied : ∀ d ∈ result.report.decisions, d.applied = false
  notes : ∃ note, result.report.notes = tried.notes ++ [note] ∧ note.code = "write_failed"

/-- What holds of a file and of what is returned about it. The run on its text came to `tried`
`between` trying it and writing it back, and to `result` in the end. -/
structure IsAllInPlace (weather : WriteBack.Weather) (p : PathName) (text : Text)
    (tried result : OptimizeResult) (before between after : World) : Prop where
  /-- The file holds the returned text. -/
  content : after.read p = .ok (Utf8.encode result.text)
  /-- Another content means that the text was optimized. -/
  changed : after.read p ≠ before.read p → result.report.outcome.status = .optimized
  /-- No temporary file is left in any directory. -/
  names : ∀ dir, WriteBack.namesIn after.tree dir = WriteBack.namesIn between.tree dir
  /-- Only a verified text is written. -/
  untouched : tried.report.outcome.status ≠ .optimized → result = tried ∧ after = between
  /-- A verified text is written, or everything is taken back. -/
  written : tried.report.outcome.status = .optimized →
    result = tried ∨ IsTakenBack text tried.report result
  /-- It is written if no step fails and the temporary file has a place. -/
  landed : tried.report.outcome.status = .optimized → (∀ step, weather step = none) →
    (∃ place, FileTree.locate between.tree between.cwd
      (WriteBack.temporary between.tree between.cwd p) = .ok place) → result = tried
  /-- It is taken back whenever a step fails. -/
  failed : tried.report.outcome.status = .optimized → ∀ step, weather step ≠ none →
    IsTakenBack text tried.report result

/-- A run that did not optimize its text returns it. -/
theorem Optimize.Returns.text_eq {text : Text} {granularity : Option Text} {config : Config}
    {result : OptimizeResult} (h : Returns text granularity config result)
    (hstatus : result.report.outcome.status ≠ .optimized) : result.text = text := by
  cases h with
  | committed => exact absurd rfl hstatus
  | untried => rfl
  | takenBack => rfl
  | failed => rfl

namespace OptimizeFile

variable {τ : Type}

/-- Only a faulty command makes judging a candidate fail like that. -/
theorem exists_verify_of_canFail {verify : Verifier τ} {root : Option PathName}
    {fault : CommandFault} (h : (verify.bench root).CanFail (.command fault)) :
    ∃ candidate s, (verify candidate s).1 = .error (.command fault) := by
  obtain ⟨dir, file, text, s, hjudge⟩ := h
  change (Verifier.judge verify dir file text s).1 = _ at hjudge
  unfold Verifier.judge at hjudge
  dsimp only at hjudge
  split at hjudge
  · cases hjudge
  · exact ⟨_, _, hjudge⟩

/-- The text of a file has the bytes of the file. -/
theorem read_of_readText {w : World} {p : PathName} {text : Text} (h : readText w p = .ok text) :
    w.read p = .ok (Utf8.encode text) := by
  unfold readText at h
  cases hbytes : w.read p with
  | error fault =>
    rw [hbytes] at h
    cases h
  | ok bytes =>
    rw [hbytes] at h
    dsimp only at h
    cases hdecode : Utf8.decode bytes with
    | error fault =>
      rw [hdecode] at h
      cases h
    | ok decoded =>
      rw [hdecode] at h
      cases h
      rw [Utf8.encode_of_decode hdecode]

/-- A result that is withdrawn is an error without any change. -/
theorem isTakenBack_withdraw (text : Text) (tried : Report) (fault : WriteBack.Fault) :
    IsTakenBack text tried ⟨text, tried.withdraw (writeNote fault)⟩ where
  text := rfl
  status := rfl
  applied := by
    intro d hd
    obtain ⟨before, -, rfl⟩ := List.mem_map.mp hd
    rfl
  notes := ⟨writeNote fault, rfl, rfl⟩

/-- Writing a verified text back keeps the file and the report together. -/
theorem isAllInPlace_writeBack (weather : WriteBack.Weather) {p : PathName} (text : Text)
    {tried : OptimizeResult} {before w : World} (hread : w.read p = .ok (Utf8.encode text))
    (hbefore : before.read p = w.read p) (hstatus : tried.report.outcome.status = .optimized) :
    IsAllInPlace weather p text tried (writeBack weather p text tried w).1 before w
      (writeBack weather p text tried w).2 := by
  obtain ⟨node, hfind, hcontent⟩ := FileTree.read_eq_ok_iff.mp hread
  have hnode := hcontent.isDir
  have hrun := WriteBack.run_eq weather (Utf8.encode tried.text) hfind hnode
  unfold writeBack
  cases hobstacle : WriteBack.obstacle? weather w.tree w.cwd p with
  | some fault =>
    rw [hobstacle] at hrun
    rw [hrun]
    exact {
      content := hread
      changed := fun hne => absurd hbefore.symm hne
      names := fun dir => rfl
      untouched := fun hnot => absurd hstatus hnot
      written := fun _ => .inr (isTakenBack_withdraw text tried.report fault)
      landed := by
        rintro - hnone ⟨place, hplace⟩
        rw [WriteBack.obstacle?_eq_none hnone hplace] at hobstacle
        cases hobstacle
      failed := fun _ _ _ => isTakenBack_withdraw text tried.report fault }
  | none =>
    rw [hobstacle] at hrun
    rw [hrun]
    exact {
      content := WriteBack.read_put_refilled _ hfind hnode
      changed := fun _ => hstatus
      names := WriteBack.namesIn_put (FileTree.find_eq_ok_iff.mp hfind).2 hnode
        (WriteBack.isDir_refilled _ _)
      untouched := fun hnot => absurd hstatus hnot
      written := fun _ => .inl rfl
      landed := fun _ _ _ => rfl
      failed := by
        intro _ step hstep
        obtain ⟨cause, hcause⟩ := Option.ne_none_iff_exists'.mp hstep
        have hsome := WriteBack.isSome_obstacle?_of_weather hcause w.tree w.cwd p
        rw [hobstacle] at hsome
        cases hsome }

/-- Optimizing a file in place, with a command that leaves the file itself alone, either leaves the
file as it is because the command is faulty, or keeps the file and the report together, whichever
step of writing it back fails. -/
theorem run_isAllInPlace (verify : Verifier τ) (weather : WriteBack.Weather)
    (scratchRoot : Option PathName) (p : PathName) (granularity : Option Text) (config : Config)
    (s : World × τ) (text : Text) (htext : readText s.1 p = .ok text) (hspares : verify.Spares p) :
    (∃ fault, (∃ candidate s, (verify candidate s).1 = .error (.command fault)) ∧
      (run verify weather scratchRoot p granularity config s).1 = .error (.text (.command fault)) ∧
      (run verify weather scratchRoot p granularity config s).2.1.read p = s.1.read p) ∨
    ∃ tried between result after,
      Optimize.run (verify.bench scratchRoot) text granularity config p.name s =
        (.ok tried, between) ∧
      run verify weather scratchRoot p granularity config s = (.ok result, after) ∧
      IsAllInPlace weather p text tried result s.1 between.1 after.1 := by
  have hread := read_of_readText htext
  have hkept := (hspares.keeps scratchRoot s.1.cwd (Utf8.encode text)).run ⟨rfl, hread⟩ text
    granularity config p.name
  have hreturns := Optimize.run_returns (verify.bench scratchRoot) text granularity config p.name s
  unfold run
  rw [htext]
  dsimp only
  revert hkept hreturns
  generalize Optimize.run (verify.bench scratchRoot) text granularity config p.name s = ran
  rintro ⟨-, hcontent⟩ hreturns
  obtain ⟨answer, between⟩ := ran
  rcases hreturns with ⟨fault, hfail, hfault⟩ | ⟨tried, htried, hreturns⟩
  · obtain rfl : answer = .error (.command fault) := hfault
    exact .inl ⟨fault, exists_verify_of_canFail hfail, rfl, hcontent.trans hread.symm⟩
  · obtain rfl : answer = .ok tried := htried
    dsimp only at hcontent ⊢
    by_cases hstatus : tried.report.outcome.status = .optimized
    · rw [if_pos hstatus]
      exact .inr ⟨tried, between, _, _, rfl, rfl,
        isAllInPlace_writeBack weather text hcontent (hread.trans hcontent.symm) hstatus⟩
    · rw [if_neg hstatus]
      refine .inr ⟨tried, between, _, _, rfl, rfl, ?_⟩
      exact {
        content := by rw [hreturns.text_eq hstatus, hcontent]
        changed := fun hne => absurd (hcontent.trans hread.symm) hne
        names := fun dir => rfl
        untouched := fun _ => ⟨rfl, rfl⟩
        written := fun hoptimized => absurd hoptimized hstatus
        landed := fun hoptimized => absurd hoptimized hstatus
        failed := fun hoptimized => absurd hoptimized hstatus }

/-- A project with one spec, seen from its own directory. -/
def loneSpec : World :=
  .start (.dir [("tmp", .dir []),
    ("work", .dir [("a_spec.rb", .file (Utf8.encode "create(:a)".toList) false)])]) ["work"]

/-- A command under which every text passes. -/
def approving : Verifier Unit := fun _ s => (.ok ⟨.passed, some 0, .ofInt 0, [], []⟩, s)

/-- Only the last step fails: the temporary file cannot take the place of the spec. -/
def stormy : WriteBack.Weather := fun step =>
  if step = .replace then some (.known .permission) else none

/-- A verified text that cannot be written back. -/
theorem run_isAllInPlace_stormy :
    readText loneSpec ⟨0, ["a_spec.rb"]⟩ = .ok "create(:a)".toList ∧
    approving.Spares ⟨0, ["a_spec.rb"]⟩ ∧
    ((∃ fault, (∃ candidate s, (approving candidate s).1 = .error (.command fault)) ∧
      (run approving stormy none ⟨0, ["a_spec.rb"]⟩ (some "unit".toList) .default
        (loneSpec, ())).1 = .error (.text (.command fault)) ∧
      (run approving stormy none ⟨0, ["a_spec.rb"]⟩ (some "unit".toList) .default
        (loneSpec, ())).2.1.read ⟨0, ["a_spec.rb"]⟩ = loneSpec.read ⟨0, ["a_spec.rb"]⟩) ∨
    ∃ tried between result after,
      Optimize.run (approving.bench none) "create(:a)".toList (some "unit".toList) .default
        "a_spec.rb" (loneSpec, ()) = (.ok tried, between) ∧
      run approving stormy none ⟨0, ["a_spec.rb"]⟩ (some "unit".toList) .default (loneSpec, ()) =
        (.ok result, after) ∧
      IsAllInPlace stormy ⟨0, ["a_spec.rb"]⟩ "create(:a)".toList tried result loneSpec between.1
        after.1) := by
  have htext : readText loneSpec ⟨0, ["a_spec.rb"]⟩ = .ok "create(:a)".toList := by
    decide +kernel
  have hspares : approving.Spares ⟨0, ["a_spec.rb"]⟩ := ⟨fun _ _ => rfl, fun _ _ => rfl⟩
  exact ⟨htext, hspares,
    run_isAllInPlace approving stormy none _ _ _ (loneSpec, ()) _ htext hspares⟩

/-- A command that writes to the spec itself and fails. -/
def meddling : Verifier Unit := fun _ s =>
  (.ok ⟨.failed, some 1, .ofInt 0, [], []⟩, ((s.1.write ⟨0, ["a_spec.rb"]⟩ [120]).2, s.2))

/-- A command whose settings no machine can hold. -/
def faulty : Verifier Unit := fun _ s => (.error (.command .tooLarge), s)

/-- The settings without detectors. -/
def undetecting : Config := { Config.default with detectors := [] }

/-- The command itself may change the file while it judges the candidate: then the text that comes
back is not what the file holds, although nothing was optimized. And with a faulty command no text
comes back at all. -/
theorem file_ne_text_meddling :
    ((run meddling WriteBack.fair none ⟨0, ["a_spec.rb"]⟩ (some "unit".toList) undetecting
        (loneSpec, ())).1.toOption.map fun result =>
          (result.text, result.report.outcome.status)) =
      some ("create(:a)".toList, .reverted) ∧
    (run meddling WriteBack.fair none ⟨0, ["a_spec.rb"]⟩ (some "unit".toList) undetecting
        (loneSpec, ())).2.1.read ⟨0, ["a_spec.rb"]⟩ = .ok [120] ∧
    [120] ≠ Utf8.encode "create(:a)".toList ∧
    (run faulty WriteBack.fair none ⟨0, ["a_spec.rb"]⟩ (some "unit".toList) undetecting
        (loneSpec, ())).1 = .error (.text (.command .tooLarge)) := by
  exact ⟨by decide +kernel, by decide +kernel, by decide +kernel, by decide +kernel⟩

end OptimizeFile

end FactoryDowngrade
