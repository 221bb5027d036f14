import FactoryDowngrade.Proofs.InPlace
import FactoryDowngrade.Proofs.RunStatus
import FactoryDowngrade.Proofs.World.MakeDirs
import FactoryDowngrade.Proofs.World.Outline

/-!
# Trials in a directory of their own

A command that works in its scratch directory sees the entries of that directory and leaves others
there. Its trial then comes to the same result in every world in which the directory can be made,
whatever the directory is called and whatever else there is; and the world it leaves has the
directories above the scratch directory, and nothing else in it has changed.
-/

namespace FactoryDowngrade

open PathName

/-! ### Writing into a directory -/

/-- The entries of a directory after a file was written under a name in it, if it can be. -/
def rewritten? (name : String) (content : Bytes) (entries : List (String × Node)) :
    Option (List (String × Node)) :=
  if name = "" ∨ name = ".." ∨ Node.nameLimit < name.utf8ByteSize then none
  else
    match entries.lookup name with
    | some (.dir _) => none
    | some .sink => some entries
    | some (.file _ executable) =>
      some (Node.setEntry name (some (.file content executable)) entries)
    | none => some (Node.setEntry name (some (.file content false)) entries)

namespace FileTree

variable {root : Node} {cwd : List String} {dir : PathName} {entries : List (String × Node)}

/-- Writing into a directory replaces its entries or fails, which only its entries decide. -/
theorem write_entry (h : find root cwd dir = .ok (.dir entries)) (name : String) (content : Bytes) :
    match rewritten? name content entries with
    | some left => write root cwd (if name.isEmpty then dir else dir.child name) content =
        .ok (root.put (some (.dir left)) (resolve cwd dir))
    | none => ∃ fault,
        write root cwd (if name.isEmpty then dir else dir.child name) content = .error fault := by
  obtain ⟨-, hget⟩ := find_eq_ok_iff.mp h
  by_cases hempty : name = ""
  · subst hempty
    exact ⟨.on dir.toText .isDirectory, by simp [write, locate_of_find h]⟩
  by_cases hdots : name = ".."
  · subst hdots
    exact exists_write_child_dots root cwd dir content
  by_cases hlong : Node.nameLimit < name.utf8ByteSize
  · have hnone : rewritten? name content entries = none := if_pos (.inr (.inr hlong))
    rw [hnone]
    cases hlocate : locate root cwd (dir.child name) with
    | error cause => exact ⟨.on (dir.child name).toText cause, by simp [hempty, write, hlocate]⟩
    | ok place =>
      obtain ⟨-, -, -, hshort, -⟩ := (locate_child_eq_ok_iff hdots).mp hlocate
      omega
  · have hlocate := (locate_child_eq_ok_iff hdots).mpr ⟨entries, h, rfl, by omega, rfl⟩
    rw [rewritten?, if_neg (by simp [hempty, hdots, hlong])]
    cases hlookup : entries.lookup name with
    | none =>
      rw [hlookup] at hlocate
      simp [hempty, write, hlocate, Node.put_concat hget]
    | some node =>
      rw [hlookup] at hlocate
      cases node with
      | dir inner =>
        exact ⟨.on (dir.child name).toText .isDirectory, by simp [hempty, write, hlocate]⟩
      | sink => simp [hempty, write, hlocate, Node.put_of_get hget]
      | file old executable => simp [hempty, write, hlocate, Node.put_concat hget]

end FileTree

/-! ### Commands that work in a directory -/

/-- What a command makes of a candidate in its directory, by the name of the candidate and the
entries of the directory: whether the candidate passes, if there is a verdict, and the entries that
it leaves. -/
abbrev Behaviour := String → List (String × Node) → Option Bool × List (String × Node)

namespace Behaviour

/-- Writes a text into a directory and has it judged there. -/
def judge (behave : Behaviour) (file : String) (text : Text) (entries : List (String × Node)) :
    Option Bool × List (String × Node) :=
  match rewritten? file (Utf8.encode text) entries with
  | some left => behave file left
  | none => (none, entries)

/-- What a trial in an empty directory comes to: whether the candidate is committed, if there is a
verdict. -/
def tried (behave : Behaviour) (baseline : Bool) (file : String) (text candidate : Text) :
    Option Bool :=
  if baseline then
    match behave.judge file text [] with
    | (some true, entries) => (behave.judge file candidate entries).1
    | (answer, _) => answer
  else (behave.judge file candidate []).1

end Behaviour

/-- A command behaves in some way around which it works in the directory of the candidate: whether
the candidate passes and what the directory holds afterwards depend only on what the directory
holds, nothing outside of it changes, and the settings of the command are such that it can be
started. -/
structure Verifier.Behaves {τ : Type} (verify : Verifier τ) (Around : World → Prop)
    (behave : Behaviour) : Prop where
  answer {dir : PathName} {file : String} {entries : List (String × Node)} {s : World × τ}
    (around : Around s.1) (here : FileTree.find s.1.tree s.1.cwd dir = .ok (.dir entries)) :
    (verify (dir.child file) s).1.toOption.map Verdict.isPass = (behave file entries).1
  left {dir : PathName} {file : String} {entries : List (String × Node)} {s : World × τ}
    (around : Around s.1) (here : FileTree.find s.1.tree s.1.cwd dir = .ok (.dir entries)) :
    ∃ log, (verify (dir.child file) s).2.1 = { s.1 with
      tree := s.1.tree.put (some (.dir (behave file entries).2)) (resolve s.1.cwd dir), log }
  sound (candidate : PathName) (s : World × τ) (fault : CommandFault) :
    (verify candidate s).1 ≠ .error (.command fault)

/-- A directory with some entries stands in a world where nothing was, and nothing else has
happened but for log records. -/
structure World.Hosts (base : World) (dir : PathName) (entries : List (String × Node)) (w : World) :
    Prop where
  free : FileTree.locate base.tree base.cwd dir = .ok ⟨resolve base.cwd dir, none⟩
  cwd : w.cwd = base.cwd
  scratch : w.scratch = base.scratch
  tree : w.tree = base.tree.put (some (.dir entries)) (resolve base.cwd dir)

namespace World.Hosts

variable {base w : World} {dir : PathName} {entries left : List (String × Node)}

/-- The directory is found with its entries. -/
theorem find (h : base.Hosts dir entries w) :
    FileTree.find w.tree w.cwd dir = .ok (.dir entries) := by
  rw [h.tree, h.cwd]
  exact FileTree.find_put_of_locate h.free _

/-- A directory that was just made is empty. -/
theorem of_mkdir {made : Node} (h : FileTree.mkdir w.tree w.cwd dir = .ok made) :
    w.Hosts dir [] { w with tree := made } := by
  obtain ⟨hfree, rfl⟩ := FileTree.mkdir_eq_ok_iff.mp h
  exact ⟨hfree, rfl, rfl, rfl⟩

/-- The entries of the directory may change. -/
theorem put (h : base.Hosts dir entries w) (log : List LogRecord) :
    base.Hosts dir left
      { w with tree := w.tree.put (some (.dir left)) (resolve w.cwd dir), log } where
  free := h.free
  cwd := h.cwd
  scratch := h.scratch
  tree := by
    rw [h.cwd, h.tree]
    exact (FileTree.isFree_of_locate h.free).put_put _ _

/-- A log record changes nothing about it. -/
theorem remark (h : base.Hosts dir entries w) (record : LogRecord) :
    base.Hosts dir entries (w.remark record) :=
  ⟨h.free, h.cwd, h.scratch, h.tree⟩

/-- The directory is taken away, and everything is as before. -/
theorem leave (h : base.Hosts dir entries w) :
    Scratch.leave dir w = (.ok (), { w with tree := base.tree }) := by
  have hlocate := FileTree.locate_of_find h.find
  have hnone : w.tree.put none (resolve w.cwd dir) = base.tree := by
    have hfree := FileTree.isFree_of_locate h.free
    rw [h.cwd, h.tree, hfree.put_put, hfree.put_none]
  rw [Scratch.leave, hlocate, ← hnone]

end World.Hosts

section Judge

variable {τ : Type} {verify : Verifier τ} {Around : World → Prop} {behave : Behaviour}
  {base : World} {dir : PathName} {entries : List (String × Node)} {s : World × τ}

/-- A candidate is judged by what its directory holds. -/
theorem Verifier.Behaves.judge (hverify : verify.Behaves Around behave)
    (haround : ∀ w entries, base.Hosts dir entries w → Around w) (h : base.Hosts dir entries s.1)
    (file : String) (text : Text) :
    (verify.judge dir file text s).1.toOption.map Verdict.isPass =
        (behave.judge file text entries).1 ∧
      base.Hosts dir (behave.judge file text entries).2 (verify.judge dir file text s).2.1 := by
  have hwrite := FileTree.write_entry h.find file (Utf8.encode text)
  unfold Behaviour.judge
  cases hrewritten : rewritten? file (Utf8.encode text) entries with
  | none =>
    rw [hrewritten] at hwrite
    obtain ⟨fault, hfault⟩ := hwrite
    simp only [Verifier.judge, World.write, hfault, World.change]
    exact ⟨rfl, h⟩
  | some left =>
    rw [hrewritten] at hwrite
    have hname : file.isEmpty = false := by
      by_contra hempty
      simp [rewritten?, show file = "" by simpa using hempty] at hrewritten
    obtain ⟨written, hwritten, hjudge⟩ : ∃ written : World × τ, base.Hosts dir left written.1 ∧
        verify.judge dir file text s = verify (dir.child file) written := by
      refine ⟨({ s.1 with tree := s.1.tree.put (some (.dir left)) (resolve s.1.cwd dir) }, s.2),
        h.put s.1.log, ?_⟩
      rw [hname, if_neg Bool.false_ne_true] at hwrite
      simp only [Verifier.judge, World.write, hname, Bool.false_eq_true, if_false, hwrite,
        World.change]
    obtain ⟨log, hlog⟩ := hverify.left (haround _ _ hwritten) hwritten.find
    rw [hjudge, hlog]
    exact ⟨hverify.answer (haround _ _ hwritten) hwritten.find, hwritten.put log⟩

/-- The bench of a verifier judges as the verifier does. -/
theorem Verifier.bench_judge (verify : Verifier τ) (root : Option PathName) (file : String)
    (text : Text) : (verify.bench root).judge dir file text s = verify.judge dir file text s := rfl

/-- Its remarks go to the log of the world, and the verifier's state is kept. -/
theorem Verifier.bench_remark (verify : Verifier τ) (root : Option PathName) (record : LogRecord) :
    (verify.bench root).remark record s = (s.1.remark record, s.2) := rfl

/-- The text as it is gets the answer that the behaviour gives, in the same directory. -/
theorem Verifier.Behaves.checkBaseline (hverify : verify.Behaves Around behave)
    (haround : ∀ w entries, base.Hosts dir entries w → Around w) (h : base.Hosts dir entries s.1)
    (root : Option PathName) (file : String) (text : Text) (decisions : List Decision) :
    let checked := Trial.checkBaseline (verify.bench root) dir file text decisions s
    checked.1.toOption.map Option.isNone = (behave.judge file text entries).1 ∧
      (∀ r, checked.1 = .ok (some r) → r.isCommitted = false) ∧
      base.Hosts dir (behave.judge file text entries).2 checked.2.1 := by
  obtain ⟨hanswer, hleft⟩ := hverify.judge haround h file text
  unfold Trial.checkBaseline
  rw [Verifier.bench_judge]
  revert hanswer hleft
  generalize verify.judge dir file text s = judged
  intro hanswer hleft
  obtain ⟨answer, t⟩ := judged
  rw [← hanswer]
  cases answer with
  | error fault =>
    refine ⟨rfl, ?_, hleft⟩
    rintro r hr
    cases hr
  | ok v =>
    cases hpass : v.isPass with
    | true =>
      exact ⟨by simp [Except.toOption, hpass], by simp [hpass], by simpa [hpass] using hleft⟩
    | false =>
      simp only [hpass, Bool.false_eq_true, if_false, Verifier.bench_remark]
      refine ⟨by simp [Except.toOption, hpass], ?_, hleft.remark _⟩
      rintro r hr
      cases hr
      rfl

/-- So does the candidate. -/
theorem Verifier.Behaves.checkCandidate (hverify : verify.Behaves Around behave)
    (haround : ∀ w entries, base.Hosts dir entries w → Around w) (h : base.Hosts dir entries s.1)
    (root : Option PathName) (file : String) (text candidate : Text) (decisions : List Decision) :
    let checked := Trial.checkCandidate (verify.bench root) dir file text candidate decisions s
    checked.1.toOption.map TrialResult.isCommitted = (behave.judge file candidate entries).1 ∧
      base.Hosts dir (behave.judge file candidate entries).2 checked.2.1 := by
  obtain ⟨hanswer, hleft⟩ := hverify.judge haround h file candidate
  unfold Trial.checkCandidate
  rw [Verifier.bench_judge]
  revert hanswer hleft
  generalize verify.judge dir file candidate s = judged
  intro hanswer hleft
  obtain ⟨answer, t⟩ := judged
  rw [← hanswer]
  cases answer with
  | error fault => exact ⟨rfl, hleft⟩
  | ok v =>
    cases hpass : v.isPass with
    | true =>
      simp only [hpass, if_true, Verifier.bench_remark]
      exact ⟨by simp [Except.toOption, hpass, TrialResult.isCommitted, Trial.commit],
        hleft.remark _⟩
    | false =>
      simp only [hpass, Bool.false_eq_true, if_false, Verifier.bench_remark]
      exact ⟨by simp [Except.toOption, hpass, TrialResult.isCommitted, Trial.rollback],
        hleft.remark _⟩

/-- What judging in a directory comes to is what the directory decides. -/
theorem Verifier.Behaves.judging (hverify : verify.Behaves Around behave)
    (haround : ∀ w entries, base.Hosts dir entries w → Around w) (h : base.Hosts dir [] s.1)
    (root : Option PathName) (baseline : Bool) (file : String) (text candidate : Text)
    (decisions : List Decision) :
    let judged := Trial.verify (verify.bench root) baseline dir file text candidate decisions s
    judged.1.toOption.map TrialResult.isCommitted =
        behave.tried baseline file text candidate ∧
      ∃ left, base.Hosts dir left judged.2.1 := by
  cases baseline with
  | false =>
    obtain ⟨hanswer, hleft⟩ :=
      hverify.checkCandidate haround h root file text candidate decisions
    exact ⟨hanswer, _, hleft⟩
  | true =>
    obtain ⟨hanswer, hrefused, hleft⟩ := hverify.checkBaseline haround h root file text decisions
    rw [Trial.verify, if_pos rfl, Behaviour.tried, if_pos rfl]
    revert hanswer hrefused hleft
    generalize Trial.checkBaseline (verify.bench root) dir file text decisions s = checked
    generalize behave.judge file text [] = judged
    rintro hanswer hrefused hleft
    obtain ⟨answer, t⟩ := checked
    obtain ⟨passes, entries⟩ := judged
    obtain rfl : answer.toOption.map Option.isNone = passes := hanswer
    rcases answer with fault | (_ | result)
    · exact ⟨rfl, _, hleft⟩
    · obtain ⟨hanswer, hleft⟩ :=
        hverify.checkCandidate haround hleft root file text candidate decisions
      exact ⟨hanswer, _, hleft⟩
    · exact ⟨congrArg some (hrefused result rfl), _, hleft⟩

end Judge

/-! ### Trials -/

namespace Scratch

variable {root : Option PathName} {file : String} {w : World}

/-- Making the root of scratch directories changes nothing but files. -/
theorem cwd_provideRoot (root : Option PathName) (w : World) :
    (provideRoot root w).2.cwd = w.cwd := by
  cases root <;> rfl

/-- Providing the root gives out no directory. -/
theorem scratch_provideRoot (root : Option PathName) (w : World) :
    (provideRoot root w).2.scratch = w.scratch := by
  cases root <;> rfl

/-- It leaves the next directory to be given out as it was. -/
theorem roomFor_provideRoot (root : Option PathName) (file : String) (w : World) :
    roomFor root file (provideRoot root w).2 = roomFor root file w := by
  rw [roomFor, roomFor, scratch_provideRoot]

/-- Whether a scratch directory can be made for a file. -/
def hasRoom (root : Option PathName) (file : String) (w : World) : Bool :=
  (provideRoot root w).1.isOk &&
    FileTree.isDir (provideRoot root w).2.tree w.cwd (root.getD systemDirectory) &&
    decide ((directoryName file w.scratch.length).utf8ByteSize ≤ Node.nameLimit)

/-- Nothing has the name of the next scratch directory for a file. -/
def IsUntaken (root : Option PathName) (file : String) (w : World) : Prop :=
  (FileTree.find (provideRoot root w).2.tree w.cwd (roomFor root file w)).isOk = false

/-! The log has no part in making scratch directories. -/

/-- It does not depend on the log. -/
theorem tree_provideRoot_log (root : Option PathName) (w : World) (log : List LogRecord) :
    (provideRoot root { w with log }).2.tree = (provideRoot root w).2.tree := by
  cases root <;> rfl

/-- Whether there is room does not depend on it either. -/
theorem hasRoom_log (root : Option PathName) (file : String) (w : World) (log : List LogRecord) :
    hasRoom root file { w with log } = hasRoom root file w := by
  cases root <;> rfl

/-- Nor does whether the next names are taken. -/
theorem IsUntaken.log (h : IsUntaken root file w) (log : List LogRecord) :
    IsUntaken root file { w with log } := by
  rw [IsUntaken, tree_provideRoot_log]
  exact h

/-- The name of a scratch directory is no double dot. -/
theorem directoryName_ne_dots (file : String) (count : Nat) : directoryName file count ≠ ".." := by
  intro h
  have hfirst := congrArg (fun name : String => name.toList.head?) h
  unfold directoryName at hfirst
  simp [toString] at hfirst

/-- A scratch directory is made if there is room for it. -/
theorem isOk_enter (huntaken : IsUntaken root file w) :
    (enter root file w).1.isOk = hasRoom root file w := by
  have hcwd := cwd_provideRoot root w
  have hroom := roomFor_provideRoot root file w
  have hmkdir := FileTree.isOk_mkdir_child (directoryName_ne_dots file w.scratch.length) huntaken
  have hentry := entry_enter root file w
  rw [hasRoom, Bool.and_assoc, ← hmkdir]
  revert hentry
  generalize enter root file w = entered
  intro hentry
  cases hentry with
  | rootless hroot =>
    rw [hroot]
    rfl
  | refused hroot hrefused =>
    rw [hroot] at hcwd hroom ⊢
    rw [hroom, hcwd] at hrefused
    exact (congrArg Except.isOk hrefused).symm
  | entered hroot hmade =>
    rw [hroot] at hcwd hroom ⊢
    rw [hroom, hcwd] at hmade
    exact (congrArg Except.isOk hmade).symm

end Scratch

/-- What a trial leaves of a world: the root of scratch directories is made, and at most one more
name is used up. -/
structure World.IsAfterTrial (root : Option PathName) (w v : World) : Prop where
  cwd : v.cwd = w.cwd
  tree : v.tree = (Scratch.provideRoot root w).2.tree
  scratch : v.scratch.length ≤ w.scratch.length + 1

/-- What a trial leaves behind does not depend on the log before. -/
theorem World.IsAfterTrial.of_log {root : Option PathName} {w v : World} {log : List LogRecord}
    (h : World.IsAfterTrial root { w with log } v) : w.IsAfterTrial root v :=
  ⟨h.cwd, h.tree.trans (Scratch.tree_provideRoot_log root w log), h.scratch⟩

section Trial

variable {τ : Type} {verify : Verifier τ} {Around : World → Prop} {behave : Behaviour}
  {root : Option PathName} {file : String} {s : World × τ}

/-- What a trial comes to is decided by whether there is room for a scratch directory and by what
the command makes of it. -/
theorem Verifier.Behaves.inScratch (hverify : verify.Behaves Around behave)
    (haround : ∀ (base w : World) dir entries, base.tree = (Scratch.provideRoot root s.1).2.tree →
      base.cwd = s.1.cwd → base.Hosts dir entries w → Around w)
    (huntaken : Scratch.IsUntaken root file s.1) (baseline : Bool) (text candidate : Text)
    (decisions : List Decision) :
    let tried :=
      Trial.inScratch (verify.bench root) baseline file text candidate decisions s
    tried.1.toOption.map TrialResult.isCommitted =
        (if Scratch.hasRoom root file s.1 then
          behave.tried baseline (PathName.ofString file).name text candidate else none) ∧
      s.1.IsAfterTrial root tried.2.1 := by
  have hroom := Scratch.isOk_enter huntaken
  have hcwd := Scratch.cwd_provideRoot root s.1
  have hscratch := Scratch.scratch_provideRoot root s.1
  have hentry := Scratch.entry_enter root file s.1
  unfold Trial.inScratch
  rw [Verifier.bench_enter, ← hroom]
  -- one case for each way in which the directory is entered or not
  revert hentry
  generalize Scratch.enter root file s.1 = entered
  intro hentry
  cases hentry with
  | rootless hroot =>
    rw [hroot] at hcwd hscratch
    dsimp only at hcwd hscratch
    exact ⟨rfl, hcwd, by rw [hroot], by simp [hscratch]⟩
  | refused hroot hrefused =>
    rw [hroot] at hcwd hscratch
    dsimp only at hcwd hscratch
    exact ⟨rfl, hcwd, by rw [hroot], by simp [hscratch]⟩
  | @entered made ready hroot hmade =>
    rw [hroot] at hcwd hscratch haround
    dsimp only at hcwd hscratch haround
    generalize Scratch.roomFor root file ready = room at hmade ⊢
    have hhosts : World.Hosts { ready with scratch := room :: ready.scratch } room [] _ :=
      .of_mkdir hmade
    obtain ⟨hanswer, left, hleft⟩ := @Verifier.Behaves.judging _ _ _ _ _ room (_, s.2) hverify
      (fun w entries => haround { ready with scratch := room :: ready.scratch } w room entries rfl
        hcwd) hhosts root baseline
      (PathName.ofString file).name text candidate decisions
    dsimp only
    revert hanswer hleft
    generalize Trial.verify (verify.bench root) baseline room (PathName.ofString file).name text
      candidate decisions _ = judged
    intro hanswer hleft
    have hleave : (verify.bench root).leave room judged.2 =
        ((Scratch.leave room judged.2.1).1, (Scratch.leave room judged.2.1).2, judged.2.2) := rfl
    rw [hleave, hleft.leave]
    refine ⟨hanswer, hleft.cwd.trans hcwd, by rw [hroot], ?_⟩
    have hused : judged.2.1.scratch = room :: ready.scratch := hleft.scratch
    simp [hused, hscratch]

end Trial

end FactoryDowngrade
