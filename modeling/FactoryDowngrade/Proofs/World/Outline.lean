import FactoryDowngrade.Proofs.World.WriteBack

/-!
# Trees without the contents of files

The outline of a tree has its directories with all their names, but nothing that is in a file. Where
a path leads, which directories can be made, which temporary names are free and what is in the way
of a replacement are all told by the outline alone. So none of them changes when a file gets another
content.
-/

namespace FactoryDowngrade

namespace Node

mutual

/-- A tree with sinks in the place of its files. -/
def outline : Node → Node
  | file _ _ => sink
  | sink => sink
  | dir entries => dir (outlineIn entries)

/-- Entries with the outlines of their nodes. -/
def outlineIn : List (String × Node) → List (String × Node)
  | [] => []
  | (name, node) :: rest => (name, outline node) :: outlineIn rest

end

variable {tree node : Node} {entries : List (String × Node)} {name : String}
  {value : Option Node} {path : List String}

/-- An outline is a directory just when the node is one. -/
theorem isDir_outline (node : Node) : node.outline.isDir = node.isDir := by
  cases node <;> rfl

/-- Files and sinks have the same outline. -/
theorem outline_of_isDir (h : node.isDir = false) : node.outline = sink := by
  cases node with
  | dir entries => cases h
  | file content executable => rfl
  | sink => rfl

/-- Outlined entries have the same names. -/
theorem map_fst_outlineIn (entries : List (String × Node)) :
    (outlineIn entries).map (·.1) = entries.map (·.1) := by
  induction entries with
  | nil => rfl
  | cons entry entries ih => rw [outlineIn, List.map_cons, List.map_cons, ih]

/-- Under a name stands the outline of what stands there in the tree. -/
theorem lookup_outlineIn (name : String) (entries : List (String × Node)) :
    (outlineIn entries).lookup name = (entries.lookup name).map outline := by
  induction entries with
  | nil => rfl
  | cons entry entries ih =>
    obtain ⟨key, child⟩ := entry
    rw [outlineIn, List.lookup_cons, List.lookup_cons, ih]
    split <;> rfl

/-- Setting an entry and outlining can change places. -/
theorem outlineIn_setEntry (name : String) (value : Option Node)
    (entries : List (String × Node)) :
    outlineIn (setEntry name value entries) =
      setEntry name (value.map outline) (outlineIn entries) := by
  have hnew : ∀ rest, outlineIn ((value.map fun v => (name, v)).toList ++ rest) =
      ((value.map outline).map fun v => (name, v)).toList ++ outlineIn rest := by
    intro rest
    cases value <;> rfl
  induction entries with
  | nil => cases value <;> rfl
  | cons entry entries ih =>
    obtain ⟨key, child⟩ := entry
    rw [setEntry, outlineIn, setEntry]
    split
    · exact hnew entries
    · rw [outlineIn, ih]

/-- A step leads to the outline of what it led to. -/
theorem step_outline (node : Node) (name : String) :
    node.outline.step name = (node.step name).map outline := by
  cases node with
  | file content executable => rfl
  | sink => rfl
  | dir entries =>
    rw [outline, step_dir, step_dir, lookup_outlineIn]
    split
    · rfl
    · cases entries.lookup name <;> rfl

/-- So does a path. -/
theorem get_outline (tree : Node) (path : List String) :
    tree.outline.get path = (tree.get path).map outline := by
  induction path generalizing tree with
  | nil => rfl
  | cons name path ih =>
    rw [get_cons, get_cons, step_outline]
    cases tree.step name with
    | error cause => rfl
    | ok child => exact ih child

/-- Putting something somewhere and outlining can change places. -/
theorem outline_put (value : Option Node) (path : List String) (tree : Node) :
    (tree.put value path).outline = tree.outline.put (value.map outline) path := by
  induction path generalizing tree with
  | nil => cases value <;> cases tree <;> rfl
  | cons name path ih =>
    cases tree with
    | file content executable =>
      rw [put_file (List.cons_ne_nil _ _)]
      exact (put_sink (List.cons_ne_nil _ _)).symm
    | sink =>
      rw [put_sink (List.cons_ne_nil _ _)]
      exact (put_sink (List.cons_ne_nil _ _)).symm
    | dir entries =>
      by_cases hpath : path = []
      · rw [hpath, put_singleton, outline, outline, put_singleton, outlineIn_setEntry]
      · have hlookup := lookup_outlineIn name entries
        rw [outline]
        cases hchild : entries.lookup name with
        | none =>
          rw [hchild] at hlookup
          rw [put_cons_of_lookup_eq_none hchild hpath, put_cons_of_lookup_eq_none hlookup hpath,
            outline]
        | some child =>
          rw [hchild] at hlookup
          rw [put_cons hchild (.inl hpath), put_cons hlookup (.inl hpath), outline,
            outlineIn_setEntry, Option.map_some, ih]

/-- Another content in a file, or in a sink, is not in the outline. -/
theorem outline_put_of_get {new : Node} (hget : tree.get path = .ok node)
    (hnode : node.isDir = false) (hnew : new.isDir = false) :
    (tree.put (some new) path).outline = tree.outline := by
  rw [outline_put, Option.map_some, outline_of_isDir hnew, put_of_get]
  rw [get_outline, hget, Except.map, outline_of_isDir hnode]

end Node

/-! ### Walks -/

namespace FileTree

variable {root : Node} {cwd : List String} {p : PathName}

/-- A place with the outline of what stands there. -/
def outlined (place : Place) : Place :=
  ⟨place.parts, place.node.map Node.outline⟩

/-- A walk through an outline goes as it does through the tree. -/
theorem walk_outline (root : Node) (done parts : List String) :
    walk root.outline done parts = (walk root done parts).map outlined := by
  induction parts generalizing done with
  | nil =>
    rw [walk, walk, Node.get_outline]
    cases root.get done <;> rfl
  | cons part parts ih =>
    by_cases hpart : part = ".."
    · subst hpart
      rw [walk_dots, walk_dots, Node.get_outline]
      cases root.get done with
      | error cause => rfl
      | ok node =>
        cases node with
        | dir entries => exact ih done.dropLast
        | file content executable => rfl
        | sink => rfl
    · rw [walk_name hpart, walk_name hpart, Node.get_outline]
      cases root.get (done ++ [part]) with
      | ok node => exact ih (done ++ [part])
      | error cause =>
        cases cause <;> try rfl
        dsimp only [Except.map]
        split <;> rfl

/-- A path name leads to the same place in an outline. -/
theorem locate_outline (root : Node) (cwd : List String) (p : PathName) :
    locate root.outline cwd p = (locate root cwd p).map outlined :=
  walk_outline root [] _

/-- What is found there is the outline of what is found in the tree. -/
theorem find_outline (root : Node) (cwd : List String) (p : PathName) :
    find root.outline cwd p = (find root cwd p).map Node.outline := by
  rw [find, find, locate_outline]
  cases locate root cwd p with
  | error cause => rfl
  | ok place =>
    obtain ⟨path, found⟩ := place
    cases found <;> rfl

/-- The outline tells which files can be read, though not what is in them. -/
theorem read_outline (root : Node) (cwd : List String) (p : PathName) :
    read root.outline cwd p = (read root cwd p).map fun _ => [] := by
  rw [read, read, find_outline]
  cases find root cwd p with
  | error cause => rfl
  | ok node => cases node <;> rfl

/-- A path name leads to a directory of the outline just when it does in the tree. -/
theorem isDir_outline (root : Node) (cwd : List String) (p : PathName) :
    isDir root.outline cwd p = isDir root cwd p := by
  rw [isDir, isDir, find_outline]
  cases find root cwd p with
  | error cause => rfl
  | ok node => exact Node.isDir_outline node

section Congr

variable {other : Node} (h : root.outline = other.outline) (cwd : List String) (p : PathName)
include h

/-- In trees of one outline the same files are found. -/
theorem isOk_find_congr : (find root cwd p).isOk = (find other cwd p).isOk := by
  have hfind := find_outline root cwd p
  rw [h, find_outline] at hfind
  revert hfind
  cases find root cwd p <;> cases find other cwd p <;> simp [Except.map, Except.isOk, Except.toBool]

/-- Such trees have the same directories. -/
theorem isDir_congr : isDir root cwd p = isDir other cwd p := by
  rw [← isDir_outline, h, isDir_outline]

/-- What cannot be read in a tree cannot be read in one with the same outline. -/
theorem read_eq_error_congr {fault : OsFault} (hread : read root cwd p = .error fault) :
    read other cwd p = .error fault := by
  have hother := read_outline other cwd p
  rw [← h, read_outline, hread] at hother
  revert hother
  cases read other cwd p <;> simp [Except.map, eq_comm]

end Congr

/-! ### Making directories -/

/-- Making a directory and outlining can change places. -/
theorem mkdir_outline (root : Node) (cwd : List String) (p : PathName) :
    mkdir root.outline cwd p = (mkdir root cwd p).map Node.outline := by
  rw [mkdir, mkdir, locate_outline]
  cases locate root cwd p with
  | error cause => rfl
  | ok place =>
    obtain ⟨path, found⟩ := place
    cases found with
    | some node => rfl
    | none => exact congrArg Except.ok (Node.outline_put (some (.dir [])) path root).symm

/-- So can making it unless it is there. -/
theorem provideDir_outline (root : Node) (cwd : List String) (p : PathName) :
    provideDir root.outline cwd p =
      ((provideDir root cwd p).1, (provideDir root cwd p).2.outline) := by
  rw [provideDir, provideDir, mkdir_outline, isDir_outline]
  cases mkdir root cwd p <;> rfl

/-- So can making it with those above it. -/
theorem makeDirs_outline (root : Node) (cwd : List String) (depth : Nat) (p : PathName) :
    makeDirs root.outline cwd depth p =
      ((makeDirs root cwd depth p).1, (makeDirs root cwd depth p).2.outline) := by
  induction depth generalizing p with
  | zero => exact provideDir_outline root cwd p
  | succ depth ih =>
    rw [makeDirs, makeDirs, provideDir_outline, ih]
    dsimp only
    split
    · split
      · rw [provideDir_outline]
      · rfl
    · rfl

/-- Trees with the same outline have the same directories made in them. -/
theorem makeDirs_congr {other : Node} (h : root.outline = other.outline) (cwd : List String)
    (depth : Nat) (p : PathName) :
    (makeDirs root cwd depth p).1 = (makeDirs other cwd depth p).1 ∧
      (makeDirs root cwd depth p).2.outline = (makeDirs other cwd depth p).2.outline := by
  have hroot := makeDirs_outline root cwd depth p
  rw [h, makeDirs_outline] at hroot
  obtain ⟨hanswer, htree⟩ := Prod.mk.inj hroot
  exact ⟨hanswer.symm, htree.symm⟩

end FileTree

/-! ### Replacements -/

namespace WriteBack

/-- A directory has the same names in an outline. -/
theorem namesIn_outline (tree : Node) (dir : List String) :
    namesIn tree.outline dir = namesIn tree dir := by
  rw [namesIn, namesIn, Node.get_outline]
  cases tree.get dir with
  | error cause => rfl
  | ok node =>
    cases node with
    | dir entries => exact Node.map_fst_outlineIn entries
    | file content executable => rfl
    | sink => rfl

/-- So a temporary file has the same name there. -/
theorem temporary_outline (tree : Node) (cwd : List String) (p : PathName) :
    temporary tree.outline cwd p = temporary tree cwd p := by
  rw [temporary, temporary, namesIn_outline]

/-- Writing a file back meets the same obstacle. -/
theorem obstacle?_outline (weather : Weather) (tree : Node) (cwd : List String) (p : PathName) :
    obstacle? weather tree.outline cwd p = obstacle? weather tree cwd p := by
  rw [obstacle?, obstacle?, temporary_outline, FileTree.locate_outline]
  cases FileTree.locate tree cwd (temporary tree cwd p) <;> rfl

/-- It does so in all trees of one outline. -/
theorem obstacle?_congr {tree other : Node} (h : tree.outline = other.outline) (weather : Weather)
    (cwd : List String) (p : PathName) :
    obstacle? weather tree cwd p = obstacle? weather other cwd p := by
  rw [← obstacle?_outline, h, obstacle?_outline]

end WriteBack

end FactoryDowngrade
