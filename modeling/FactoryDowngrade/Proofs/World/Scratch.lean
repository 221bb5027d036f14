import FactoryDowngrade.Proofs.World.FileTree

/-!
# Scratch directories and the files beside them

A scratch directory is made where nothing was. So nothing that is done in it, and not taking it away
either, can touch a file that was there before.
-/

namespace FactoryDowngrade

open PathName

namespace Scratch

/-- The next scratch directory for a file. -/
def roomFor (root : Option PathName) (file : String) (w : World) : PathName :=
  (root.getD systemDirectory).child (directoryName file w.scratch.length)

/-- How asking for a scratch directory ends: its root cannot be made, or it cannot itself, or it
is made. -/
inductive Entry (root : Option PathName) (file : String) (w : World) :
    Except OsFault PathName × World → Prop where
  | rootless {fault : OsFault} {ready : World}
      (hroot : provideRoot root w = (.error fault, ready)) :
    Entry root file w (.error fault, ready)
  | refused {fault : OsFault} {ready : World} (hroot : provideRoot root w = (.ok (), ready))
      (hmkdir : FileTree.mkdir ready.tree ready.cwd (roomFor root file ready) = .error fault) :
    Entry root file w (.error fault,
      { ready with scratch := roomFor root file ready :: ready.scratch })
  | entered {made : Node} {ready : World} (hroot : provideRoot root w = (.ok (), ready))
      (hmkdir : FileTree.mkdir ready.tree ready.cwd (roomFor root file ready) = .ok made) :
    Entry root file w (.ok (roomFor root file ready),
      { ready with tree := made, scratch := roomFor root file ready :: ready.scratch })

/-- Every entry is one of these. -/
theorem entry_enter (root : Option PathName) (file : String) (w : World) :
    Entry root file w (enter root file w) := by
  unfold enter
  cases hroot : provideRoot root w with
  | mk answer ready =>
    cases answer with
    | error fault => exact .rootless hroot
    | ok =>
      have hroom : (root.getD systemDirectory).child (directoryName file ready.scratch.length) =
          roomFor root file ready := rfl
      simp only [hroom]
      cases hmkdir : FileTree.mkdir ready.tree ready.cwd (roomFor root file ready) with
      | error fault => exact .refused hroot hmkdir
      | ok made => exact .entered hroot hmkdir

end Scratch

/-! ### Files beside a scratch directory -/

/-- A file has some content, seen from a directory. -/
structure World.Holds (cwd : List String) (p : PathName) (bytes : Bytes) (w : World) : Prop where
  here : w.cwd = cwd
  content : w.read p = .ok bytes

/-- A file has some content, and a directory is not on the way to it. -/
structure World.HoldsBeside (cwd : List String) (p : PathName) (bytes : Bytes) (dir : PathName)
    (w : World) : Prop extends World.Holds cwd p bytes w where
  offWay : FileTree.IsOffWay cwd p (resolve cwd dir)

section Holds

variable {cwd : List String} {p : PathName} {bytes : Bytes} {w : World} {dir : PathName}

/-- Providing the root of scratch directories keeps the content of files. -/
theorem World.Holds.provideRoot (h : w.Holds cwd p bytes) (root : Option PathName) :
    (Scratch.provideRoot root w).2.Holds cwd p bytes := by
  cases root with
  | none => exact h
  | some root =>
    obtain ⟨rfl, hread⟩ := h
    exact ⟨rfl, FileTree.read_makeDirs hread⟩

/-- A scratch directory that is refused leaves the file. -/
theorem World.Holds.refused {root : Option PathName} {file : String} {after : World}
    {fault : OsFault} (h : w.Holds cwd p bytes)
    (henter : Scratch.enter root file w = (.error fault, after)) : after.Holds cwd p bytes := by
  have hready := h.provideRoot root
  have hentry := Scratch.entry_enter root file w
  rw [henter] at hentry
  cases hentry with
  | rootless hroot => rwa [hroot] at hready
  | refused hroot hmkdir =>
    rw [hroot] at hready
    exact ⟨hready.here, hready.content⟩

/-- A scratch directory is made off the way to the file. -/
theorem World.Holds.entered {root : Option PathName} {file : String} {after : World}
    (h : w.Holds cwd p bytes) (henter : Scratch.enter root file w = (.ok dir, after)) :
    after.HoldsBeside cwd p bytes dir := by
  have hready := h.provideRoot root
  have hentry := Scratch.entry_enter root file w
  rw [henter] at hentry
  cases hentry with
  | entered hroot hmkdir =>
    rw [hroot] at hready
    obtain ⟨rfl, hread⟩ := hready
    obtain ⟨node, hfind, -⟩ := FileTree.read_eq_ok_iff.mp hread
    exact ⟨⟨rfl, FileTree.read_mkdir hread hmkdir⟩,
      FileTree.isOffWay_of_get hfind (FileTree.get_resolve_of_mkdir hmkdir)⟩

/-- Writing to a place off the way to a file keeps the file. -/
theorem World.Holds.write (h : w.Holds cwd p bytes) {q : PathName} (content : Bytes)
    (hoff : FileTree.IsOffWay cwd p (resolve cwd q)) : (w.write q content).2.Holds cwd p bytes := by
  obtain ⟨rfl, hread⟩ := h
  unfold World.write
  cases hwrite : FileTree.write w.tree w.cwd q content with
  | error fault => exact ⟨rfl, hread⟩
  | ok made => exact ⟨rfl, FileTree.read_write hread hoff hwrite⟩

/-- So does writing into the directory beside it. -/
theorem World.HoldsBeside.write (h : w.HoldsBeside cwd p bytes dir) (file : String)
    (content : Bytes) : (w.write (dir.child file) content).2.Holds cwd p bytes := by
  by_cases hdots : file = ".."
  · subst hdots
    obtain ⟨fault, hfails⟩ := FileTree.exists_write_child_dots w.tree w.cwd dir content
    rw [World.write, hfails]
    exact h.toHolds
  · apply h.toHolds.write
    apply h.offWay.mono
    rw [resolve_child hdots]
    exact List.prefix_append _ _

/-- Taking the directory away keeps the file. -/
theorem World.HoldsBeside.leave (h : w.HoldsBeside cwd p bytes dir) :
    (Scratch.leave dir w).2.Holds cwd p bytes := by
  obtain ⟨⟨rfl, hread⟩, hoff⟩ := h
  unfold Scratch.leave
  split
  · exact ⟨rfl, hread⟩
  · rename_i parts entries hlocate
    refine ⟨rfl, ?_⟩
    rw [(FileTree.locate_eq_ok_iff.mp hlocate).2.1]
    exact FileTree.read_put hread hoff
  · exact ⟨rfl, hread⟩
  · exact ⟨rfl, hread⟩
  · exact ⟨rfl, hread⟩

end Holds

/-- A verifier leaves a file alone if no run of it changes the file or the current directory. -/
structure Verifier.Spares {τ : Type} (verify : Verifier τ) (p : PathName) : Prop where
  cwd (candidate : PathName) (s : World × τ) : (verify candidate s).2.1.cwd = s.1.cwd
  read (candidate : PathName) (s : World × τ) : (verify candidate s).2.1.read p = s.1.read p

/-- A candidate is written and judged beside the file. -/
theorem World.HoldsBeside.judge {τ : Type} {verify : Verifier τ} {cwd : List String}
    {p dir : PathName} {bytes : Bytes} (hspares : verify.Spares p) (file : String) (text : Text)
    {s : World × τ} (h : s.1.HoldsBeside cwd p bytes dir) :
    (verify.judge dir file text s).2.1.HoldsBeside cwd p bytes dir := by
  have hwritten : (s.1.write (if file.isEmpty then dir else dir.child file)
      (Utf8.encode text)).2.Holds cwd p bytes := by
    split
    · exact h.toHolds.write _ h.offWay
    · exact h.write file _
  unfold Verifier.judge
  dsimp only
  revert hwritten
  generalize s.1.write _ _ = written
  intro hwritten
  obtain ⟨answer, w⟩ := written
  cases answer with
  | error fault => exact ⟨hwritten, h.offWay⟩
  | ok =>
    obtain ⟨hhere, hread⟩ := hwritten
    exact ⟨⟨(hspares.cwd _ _).trans hhere, (hspares.read _ _).trans hread⟩, h.offWay⟩

end FactoryDowngrade
