import FactoryDowngrade.Proofs.PrivateRun

/-!
# Stages of a batch

While files are optimized one after the other, the files that had their turn may have other contents
than at the start, and the root of scratch directories may be made. Nothing else has changed. A run
on a file that has not had its turn cannot tell such a stage from the start.
-/

namespace FactoryDowngrade

open PathName

/-- A world has the same files as another one, but for some places. -/
structure World.KeepsBut (places : List (List String)) (w v : World) : Prop where
  cwd : v.cwd = w.cwd
  read {q : PathName} {bytes : Bytes} (hq : resolve w.cwd q ∉ places) (h : w.read q = .ok bytes) :
    v.read q = .ok bytes

namespace CommandLine.Batch

/-- A world some places into a batch. -/
structure IsStage (root : Option PathName) (w : World) (touched : List (List String))
    (v : World) : Prop extends World.KeepsBut touched w v where
  scratch : v.scratch.length ≤ w.scratch.length + touched.length
  outline : v.tree.outline = w.tree.outline ∨
    v.tree.outline = (Scratch.provideRoot root w).2.tree.outline

namespace IsStage

variable {root : Option PathName} {w v : World} {touched : List (List String)} {p : PathName}

/-- A world is the first stage of a batch. -/
theorem refl (root : Option PathName) (w : World) : IsStage root w [] w :=
  ⟨⟨rfl, fun _ h => h⟩, Nat.le_refl _, .inl rfl⟩

/-! ### What is as at the start -/

/-- The root of scratch directories can be made if it can be at the start, and then it makes no
difference whether it was made before. -/
theorem provideRoot (h : IsStage root w touched v) :
    (Scratch.provideRoot root v).1.isOk = (Scratch.provideRoot root w).1.isOk ∧
      (Scratch.provideRoot root v).2.tree.outline =
        (Scratch.provideRoot root w).2.tree.outline := by
  cases root with
  | none => exact ⟨rfl, h.outline.elim id id⟩
  | some dir =>
    have hcwd := h.cwd
    rcases h.outline with hsame | hmade
    · obtain ⟨hanswer, htree⟩ := FileTree.makeDirs_congr hsame w.cwd (dir.parts.length + 1) dir
      simp only [Scratch.provideRoot, World.ensureDir, hcwd]
      exact ⟨congrArg Except.isOk hanswer, htree⟩
    · obtain ⟨hanswer, htree⟩ := FileTree.makeDirs_congr hmade w.cwd (dir.parts.length + 1) dir
      simp only [Scratch.provideRoot, World.ensureDir, hcwd] at hanswer htree ⊢
      rw [hanswer, htree, FileTree.isOk_makeDirs_makeDirs, FileTree.makeDirs_makeDirs]
      exact ⟨rfl, rfl⟩

/-- A later stage has room for a scratch directory just when the first has. -/
theorem hasRoom (h : IsStage root w touched v) (file : String) (hv : v.scratch.length < 16 ^ 8)
    (hw : w.scratch.length < 16 ^ 8) :
    Scratch.hasRoom root file v = Scratch.hasRoom root file w := by
  obtain ⟨hanswer, htree⟩ := h.provideRoot
  unfold Scratch.hasRoom
  rw [hanswer, h.cwd, FileTree.isDir_congr htree, Scratch.utf8ByteSize_directoryName file hv hw]

/-- A name for a scratch directory that nothing has at the start is still not taken. -/
theorem isUntaken (h : IsStage root w touched v) {file : String}
    (hfree : (FileTree.find (Scratch.provideRoot root w).2.tree w.cwd
      (Scratch.roomFor root file v)).isOk = false) : Scratch.IsUntaken root file v := by
  rw [Scratch.IsUntaken, h.cwd, FileTree.isOk_find_congr h.provideRoot.2]
  exact hfree

/-- What comes of a file at a later stage comes of it at the first. -/
theorem statusIn (h : IsStage root w touched v) (hv : v.scratch.length < 16 ^ 8)
    (hw : w.scratch.length < 16 ^ 8) (behave : Behaviour) (weather : WriteBack.Weather)
    (p : PathName) (granularity : Option Text) (config : Config) (text : Text) :
    OptimizeFile.statusIn behave weather root p granularity config text v =
      OptimizeFile.statusIn behave weather root p granularity config text w := by
  unfold OptimizeFile.statusIn
  rw [h.hasRoom p.name hv hw, h.cwd, WriteBack.obstacle?_congr h.provideRoot.2]

/-- A file that cannot be read at the start cannot be read later, if the root of scratch directories
has no part in it. -/
theorem read_eq_error (h : IsStage root w touched v) {fault : OsFault}
    (hroot : (Scratch.provideRoot root w).2.read p = w.read p) (hread : w.read p = .error fault) :
    v.read p = .error fault := by
  rw [World.read, h.cwd]
  rcases h.outline with hsame | hmade
  · exact FileTree.read_eq_error_congr hsame.symm w.cwd p hread
  · rw [hread, World.read, Scratch.cwd_provideRoot] at hroot
    exact FileTree.read_eq_error_congr hmade.symm w.cwd p hroot

/-- A file that no place has touched reads as it does behind the making of the scratch root. -/
theorem read_eq (h : IsStage root w touched v)
    (hroot : (Scratch.provideRoot root w).2.read p = w.read p)
    (hnew : resolve w.cwd p ∉ touched) : v.read p = w.read p := by
  cases hread : w.read p with
  | ok bytes => exact h.read hnew hread
  | error fault => exact h.read_eq_error hroot hread

/-! ### Steps -/

/-- During a trial the files are as at the start, but for those that had their turn. -/
theorem keepsBut_of_hosts (h : IsStage root w touched v) {places : List (List String)}
    (hplaces : touched ⊆ places) {base u : World} {dir : PathName} {entries : List (String × Node)}
    (htree : base.tree = (Scratch.provideRoot root v).2.tree) (hcwd : base.cwd = v.cwd)
    (hhosts : base.Hosts dir entries u) : World.KeepsBut places w u where
  cwd := by rw [hhosts.cwd, hcwd, h.cwd]
  read {q bytes} hq hread := by
    have hstage := h.read (fun hin => hq (hplaces hin)) hread
    have hready := ((World.Holds.mk rfl hstage : v.Holds v.cwd q bytes).provideRoot root).content
    have hbase : FileTree.read base.tree base.cwd q = .ok bytes := by
      rwa [htree, hcwd, ← Scratch.cwd_provideRoot root v]
    obtain ⟨node, hfind, -⟩ := FileTree.read_eq_ok_iff.mp hbase
    rw [World.read, hhosts.tree, hhosts.cwd]
    exact FileTree.read_put hbase
      (FileTree.isOffWay_of_get hfind (FileTree.locate_eq_ok_iff.mp hhosts.free).2.2)

/-- A run on a file leads from one stage to the next. -/
theorem step (h : IsStage root w touched v) {u : World} (hleft : v.IsAfterRun root p u) :
    IsStage root w (resolve w.cwd p :: touched) u where
  cwd := hleft.cwd.trans h.cwd
  read {q bytes} hq hread := by
    obtain ⟨hne, hnew⟩ := not_or.mp (mt List.mem_cons.mpr hq)
    rw [← h.cwd] at hne
    exact hleft.kept hne (h.read hnew hread)
  scratch := by
    have hbefore := h.scratch
    have hafter := hleft.scratch
    rw [List.length_cons]
    omega
  outline := hleft.outline.elim (fun hsame => hsame ▸ h.outline)
    fun hmade => .inr (hmade.trans h.provideRoot.2)

end IsStage

end CommandLine.Batch

end FactoryDowngrade
