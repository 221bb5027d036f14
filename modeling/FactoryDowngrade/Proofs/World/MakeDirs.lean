import FactoryDowngrade.Proofs.World.FileTree

/-!
# Making directories twice

After directories were asked for, the last of them is there exactly if they could be made. So asking
for them once more has the same answer and changes nothing, even if only some of them could be made
the first time.
-/

namespace FactoryDowngrade

namespace FileTree

open PathName

variable {root made : Node} {cwd path : List String} {p : PathName} {depth : Nat}

/-- A path name leads to a directory just when entries are found there. -/
theorem isDir_eq_true_iff :
    isDir root cwd p = true ↔ ∃ entries, find root cwd p = .ok (.dir entries) := by
  unfold isDir
  cases find root cwd p with
  | error cause => simp
  | ok node => cases node <;> simp [Node.isDir]

/-! ### One directory -/

/-- A directory can be made where nothing is yet, in a directory that is there. -/
theorem isFree_of_locate (h : locate root cwd p = .ok ⟨path, none⟩) : root.IsFree path := by
  obtain ⟨hcrossed, rfl, hnone⟩ := locate_eq_ok_iff.mp h
  rw [resolve_eq_foldl] at hnone ⊢
  rw [crossed] at hcrossed
  rcases List.eq_nil_or_concat (steps cwd p) with hnil | ⟨front, last, hsteps⟩
  · rw [hnil] at hnone
    cases hnone
  · rw [hsteps, List.concat_eq_append] at hnone hcrossed ⊢
    rw [List.foldl_append] at hnone ⊢
    have hfront : root.IsDirAt (front.foldl onward []) :=
      hcrossed _ (by simp [through_append, through])
    rw [List.foldl_cons, List.foldl_nil] at hnone ⊢
    by_cases hlast : last = ".."
    · -- a double dot leads to a directory, which is there
      obtain ⟨entries, habove⟩ := isDirAt_dropLast hfront
      rw [onward, if_pos hlast, habove] at hnone
      cases hnone
    · obtain ⟨entries, hdir⟩ := hfront
      rw [onward, if_neg hlast, Node.get_concat, hdir, Except.bind] at hnone
      obtain ⟨same, hsame, hshort, hlookup⟩ := Node.step_eq_noEntry_iff.mp hnone
      cases hsame
      rw [onward, if_neg hlast]
      exact ⟨_, _, entries, rfl, hdir, hshort, hlookup⟩

/-- What is made where nothing was is found there. -/
theorem find_put_of_locate (h : locate root cwd p = .ok ⟨path, none⟩) (node : Node) :
    find (root.put (some node) path) cwd p = .ok node := by
  have hfree := isFree_of_locate h
  obtain ⟨hcrossed, rfl, hnone⟩ := locate_eq_ok_iff.mp h
  refine find_eq_ok_iff.mpr ⟨fun place hplace => ?_, hfree.get_put node⟩
  exact (hcrossed place hplace).put ((hcrossed place hplace).not_prefix_of_get hnone)

/-- A directory is made where nothing was. -/
theorem mkdir_eq_ok_iff : mkdir root cwd p = .ok made ↔
    locate root cwd p = .ok ⟨resolve cwd p, none⟩ ∧
      made = root.put (some (.dir [])) (resolve cwd p) := by
  unfold mkdir
  constructor
  · intro h
    split at h
    · cases h
    · rename_i path hlocate
      cases h
      obtain rfl := (locate_eq_ok_iff.mp hlocate).2.1
      exact ⟨hlocate, rfl⟩
    · cases h
  · rintro ⟨hlocate, rfl⟩
    rw [hlocate]

/-- A directory that was made is there, and empty. -/
theorem find_mkdir (h : mkdir root cwd p = .ok made) : find made cwd p = .ok (.dir []) := by
  obtain ⟨hlocate, rfl⟩ := mkdir_eq_ok_iff.mp h
  exact find_put_of_locate hlocate _

/-- A directory can be made in a directory by a name that is free and not too long. -/
theorem isOk_mkdir_child {name : String} (hname : name ≠ "..")
    (hfree : (find root cwd (p.child name)).isOk = false) :
    (mkdir root cwd (p.child name)).isOk =
      (isDir root cwd p && decide (name.utf8ByteSize ≤ Node.nameLimit)) := by
  rw [Bool.eq_iff_iff, Bool.and_eq_true, isDir_eq_true_iff, decide_eq_true_eq]
  constructor
  · intro h
    cases hmkdir : mkdir root cwd (p.child name) with
    | error fault =>
      rw [hmkdir] at h
      cases h
    | ok made =>
      obtain ⟨entries, hdir, -, hshort, -⟩ :=
        (locate_child_eq_ok_iff hname).mp (mkdir_eq_ok_iff.mp hmkdir).1
      exact ⟨⟨entries, hdir⟩, hshort⟩
  · rintro ⟨⟨entries, hdir⟩, hshort⟩
    have hlocate := (locate_child_eq_ok_iff hname).mpr ⟨entries, hdir, rfl, hshort, rfl⟩
    cases hlookup : entries.lookup name with
    | some node =>
      rw [hlookup] at hlocate
      rw [find, hlocate] at hfree
      cases hfree
    | none =>
      rw [hlookup] at hlocate
      rw [mkdir, hlocate]
      rfl

/-- A directory that is there is not made. -/
theorem provideDir_of_isDir (h : isDir root cwd p = true) :
    provideDir root cwd p = (.ok (), root) := by
  obtain ⟨entries, hfind⟩ := isDir_eq_true_iff.mp h
  have hmkdir : mkdir root cwd p = .error (.on p.toText .alreadyExists) := by
    rw [mkdir, locate_of_find hfind]
  rw [provideDir, hmkdir]
  dsimp only
  rw [if_pos h]

/-- A directory that cannot be provided is not there, and nothing has changed. -/
theorem provideDir_cases (root : Node) (cwd : List String) (p : PathName) :
    ((provideDir root cwd p).1 = .ok () ∧ isDir (provideDir root cwd p).2 cwd p = true) ∨
      ∃ fault, provideDir root cwd p = (.error fault, root) ∧ isDir root cwd p = false := by
  by_cases hdir : isDir root cwd p = true
  · rw [provideDir_of_isDir hdir]
    exact .inl ⟨rfl, hdir⟩
  · unfold provideDir
    cases hmkdir : mkdir root cwd p with
    | ok made => exact .inl ⟨rfl, isDir_eq_true_iff.mpr ⟨[], find_mkdir hmkdir⟩⟩
    | error fault => exact .inr ⟨fault, by simp [hdir], by simpa using hdir⟩

/-- A directory is there just when it could be provided. -/
theorem isDir_provideDir (root : Node) (cwd : List String) (p : PathName) :
    isDir (provideDir root cwd p).2 cwd p = (provideDir root cwd p).1.isOk := by
  rcases provideDir_cases root cwd p with ⟨hok, hdir⟩ | ⟨fault, hfault, hdir⟩
  · rw [hok, hdir]
    rfl
  · rw [hfault, hdir]
    rfl

/-- What could not be provided has changed nothing. -/
theorem exists_provideDir_of_not_isOk (h : ¬(provideDir root cwd p).1.isOk = true) :
    ∃ fault, provideDir root cwd p = (.error fault, root) := by
  rcases provideDir_cases root cwd p with ⟨hmade, -⟩ | ⟨fault, hfault, -⟩
  · rw [hmade] at h
    exact absurd rfl h
  · exact ⟨fault, hfault⟩

/-- What a path name leads to is in a directory. -/
theorem isDir_parent_of_locate {place : Place} (h : locate root cwd p = .ok place)
    (hparts : p.parts ≠ []) : isDir root cwd p.parent = true := by
  obtain ⟨hcrossed, -⟩ := locate_eq_ok_iff.mp h
  rw [← child_parent hparts, crossed_child] at hcrossed
  obtain ⟨above, habove⟩ := hcrossed (resolve cwd p.parent) (by simp)
  exact isDir_eq_true_iff.mpr ⟨above, find_eq_ok_iff.mpr
    ⟨fun place hplace => hcrossed place (List.mem_append_left _ hplace), habove⟩⟩

/-- The parent of a directory is a directory. -/
theorem isDir_parent (h : isDir root cwd p = true) (hparts : p.parts ≠ []) :
    isDir root cwd p.parent = true := by
  obtain ⟨entries, hfind⟩ := isDir_eq_true_iff.mp h
  exact isDir_parent_of_locate (locate_of_find hfind) hparts

/-- Nothing can be provided where there is no directory for it. -/
theorem exists_provideDir_of_parent (h : isDir root cwd p.parent = false) (hparts : p.parts ≠ []) :
    ∃ fault, provideDir root cwd p = (.error fault, root) := by
  cases hlocate : locate root cwd p with
  | ok place =>
    rw [isDir_parent_of_locate hlocate hparts] at h
    cases h
  | error cause => simp [provideDir, mkdir, isDir, find, hlocate]

/-! ### A directory and those above it -/

/-- A directory that is there is left as it is. -/
theorem makeDirs_of_isDir (h : isDir root cwd p = true) :
    makeDirs root cwd depth p = (.ok (), root) := by
  cases depth with
  | zero => exact provideDir_of_isDir h
  | succ depth =>
    rw [makeDirs, provideDir_of_isDir h]
    rfl

/-- What lacks its parent has one. -/
theorem parts_ne_nil_of_lacksParent {answer : Except OsFault Unit}
    (h : lacksParent p answer = true) : p.parts ≠ [] := by
  cases answer with
  | ok => cases h
  | error fault =>
    intro hparts
    simp [lacksParent, hparts] at h

/-- If the parent was missing and could be made, the directory is provided then. -/
theorem makeDirs_succ_of_above (h : lacksParent p (provideDir root cwd p).1 = true)
    (habove : (makeDirs root cwd depth p.parent).1.isOk = true) :
    makeDirs root cwd (depth + 1) p = provideDir (makeDirs root cwd depth p.parent).2 cwd p := by
  rw [makeDirs]
  dsimp only
  rw [if_pos h, if_pos habove]

/-- If the parent could not be made either, that is the answer. -/
theorem makeDirs_succ_of_not_above (h : lacksParent p (provideDir root cwd p).1 = true)
    (habove : ¬(makeDirs root cwd depth p.parent).1.isOk = true) :
    makeDirs root cwd (depth + 1) p = makeDirs root cwd depth p.parent := by
  rw [makeDirs]
  dsimp only
  rw [if_pos h, if_neg habove]

/-- If no parent was missing, the first answer stands. -/
theorem makeDirs_succ_of_not_lacksParent
    (h : ¬lacksParent p (provideDir root cwd p).1 = true) (depth : Nat) :
    makeDirs root cwd (depth + 1) p = provideDir root cwd p := by
  rw [makeDirs]
  dsimp only
  rw [if_neg h]

/-- Directories can be made exactly if the last of them is there afterwards. -/
theorem isDir_makeDirs (root : Node) (cwd : List String) (depth : Nat) (p : PathName) :
    isDir (makeDirs root cwd depth p).2 cwd p = (makeDirs root cwd depth p).1.isOk := by
  induction depth generalizing p with
  | zero => exact isDir_provideDir root cwd p
  | succ depth ih =>
    by_cases hlacks : lacksParent p (provideDir root cwd p).1 = true
    · have habove := ih p.parent
      by_cases hmade : (makeDirs root cwd depth p.parent).1.isOk = true
      · rw [makeDirs_succ_of_above hlacks hmade]
        exact isDir_provideDir _ cwd p
      · rw [makeDirs_succ_of_not_above hlacks hmade]
        rw [Bool.eq_false_iff.mpr hmade] at habove ⊢
        rw [Bool.eq_false_iff]
        intro hdir
        rw [isDir_parent hdir (parts_ne_nil_of_lacksParent hlacks)] at habove
        cases habove
    · rw [makeDirs_succ_of_not_lacksParent hlacks]
      exact isDir_provideDir root cwd p

/-- A tree in which neither a directory nor anything above it is made stays what it is. -/
theorem makeDirs_succ_of_fixed {fault : OsFault}
    (hprovide : provideDir root cwd p = (.error fault, root))
    (habove : (makeDirs root cwd depth p.parent).2 = root) :
    (makeDirs root cwd (depth + 1) p).2 = root := by
  rw [makeDirs, hprovide]
  dsimp only
  split
  · split
    · rw [habove, hprovide]
    · exact habove
  · rfl

/-- Directories are made only once. -/
theorem makeDirs_makeDirs (root : Node) (cwd : List String) (depth : Nat) (p : PathName) :
    (makeDirs (makeDirs root cwd depth p).2 cwd depth p).2 = (makeDirs root cwd depth p).2 := by
  by_cases hok : (makeDirs root cwd depth p).1.isOk = true
  · rw [makeDirs_of_isDir ((isDir_makeDirs root cwd depth p).trans hok)]
  · induction depth generalizing p with
    | zero =>
      obtain ⟨fault, hfault⟩ := exists_provideDir_of_not_isOk hok
      simp only [makeDirs, hfault]
    | succ depth ih =>
      by_cases hlacks : lacksParent p (provideDir root cwd p).1 = true
      · by_cases habove : (makeDirs root cwd depth p.parent).1.isOk = true
        · rw [makeDirs_succ_of_above hlacks habove] at hok ⊢
          obtain ⟨fault, hfault⟩ := exists_provideDir_of_not_isOk hok
          rw [hfault]
          refine makeDirs_succ_of_fixed hfault ?_
          rw [makeDirs_of_isDir ((isDir_makeDirs root cwd depth p.parent).trans habove)]
        · have hmissing := isDir_makeDirs root cwd depth p.parent
          rw [Bool.eq_false_iff.mpr habove] at hmissing
          obtain ⟨fault, hfault⟩ :=
            exists_provideDir_of_parent hmissing (parts_ne_nil_of_lacksParent hlacks)
          rw [makeDirs_succ_of_not_above hlacks habove]
          exact makeDirs_succ_of_fixed hfault (ih p.parent habove)
      · have hfirst := makeDirs_succ_of_not_lacksParent hlacks depth
        rw [hfirst] at hok
        obtain ⟨fault, hfault⟩ := exists_provideDir_of_not_isOk hok
        rw [hfirst, hfault]
        dsimp only
        rw [hfirst, hfault]

/-- Directories that are made again can be made just when they could be before. -/
theorem isOk_makeDirs_makeDirs (root : Node) (cwd : List String) (depth : Nat) (p : PathName) :
    (makeDirs (makeDirs root cwd depth p).2 cwd depth p).1.isOk =
      (makeDirs root cwd depth p).1.isOk := by
  rw [← isDir_makeDirs, makeDirs_makeDirs, isDir_makeDirs]

end FileTree

end FactoryDowngrade
