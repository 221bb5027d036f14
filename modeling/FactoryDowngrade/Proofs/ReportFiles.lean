import FactoryDowngrade.Proofs.BatchOrder
import FactoryDowngrade.Proofs.CurrentDirectory
import FactoryDowngrade.Proofs.ReportNames

/-!
# Reports on several files

The reports on some files are written into one directory, one after the other. A report stays as it
was written until a report of the same name is. So the directory ends up with the report on the last
file of each name, and with the reports on all files if no two of them share a name; files that do
share one cannot have different reports.
-/

namespace FactoryDowngrade

/-- Whether a node has taken some bytes: a file has them for its content, and a sink takes all. -/
def Node.HasTaken (content : Bytes) : Node → Prop
  | .file old _ => old = content
  | .sink => True
  | .dir _ => False

/-- What has taken bytes is no directory. -/
theorem Node.HasTaken.isDir {content : Bytes} {node : Node} (h : node.HasTaken content) :
    node.isDir = false := by
  cases node with
  | dir entries => exact h.elim
  | file old executable => rfl
  | sink => rfl

/-! ### Files that are written -/

namespace FileTree

open PathName

variable {root made node : Node} {cwd : List String} {p : PathName} {content : Bytes}
  {name other : String}

/-- A file is written where no directory is, and where none is below. -/
theorem write_cases (h : write root cwd p content = .ok made) :
    made = root ∨ ∃ node, made = root.put (some node) (resolve cwd p) ∧
      ∀ place, root.IsDirAt place → ¬resolve cwd p <+: place := by
  unfold write at h
  split at h
  · cases h
  · cases h
    exact .inl rfl
  · rename_i path old executable hlocate
    cases h
    obtain ⟨-, rfl, hfile⟩ := locate_eq_ok_iff.mp hlocate
    exact .inr ⟨_, rfl, fun place hplace => hplace.not_prefix_of_file hfile rfl⟩
  · rename_i path hlocate
    cases h
    obtain ⟨-, rfl, hnone⟩ := locate_eq_ok_iff.mp hlocate
    exact .inr ⟨_, rfl, fun place hplace => hplace.not_prefix_of_get hnone⟩
  · cases h

/-- What was written is there. -/
theorem find_of_write (h : write root cwd p content = .ok made) :
    ∃ node, find made cwd p = .ok node ∧ node.HasTaken content := by
  unfold write at h
  split at h
  · cases h
  · rename_i path hlocate
    cases h
    exact ⟨.sink, by rw [find, hlocate], trivial⟩
  · rename_i path old executable hlocate
    cases h
    have hfind : find root cwd p = .ok (.file old executable) := by rw [find, hlocate]
    obtain rfl := (locate_eq_ok_iff.mp hlocate).2.1
    exact ⟨_, find_put_self hfind rfl, rfl⟩
  · rename_i path hlocate
    cases h
    exact ⟨_, find_put_of_locate hlocate _, rfl⟩
  · cases h

/-- Writing a file keeps the other files of its directory. -/
theorem find_child_of_write (hname : name ≠ "..") (hother : other ≠ "..") (hne : name ≠ other)
    (h : find root cwd (p.child name) = .ok node) (hnode : node.isDir = false)
    (hmade : write root cwd (p.child other) content = .ok made) :
    find made cwd (p.child name) = .ok node := by
  rcases write_cases hmade with rfl | ⟨new, rfl, hplace⟩
  · exact h
  · obtain ⟨hcrossed, -⟩ := find_eq_ok_iff.mp h
    refine find_put h hnode ⟨?_, fun place hmem => hplace place (hcrossed place hmem)⟩
    rw [resolve_child hname, resolve_child hother, List.prefix_append_right_inj]
    simpa using hne.symm

/-- What has an entry is a directory. -/
theorem isDir_of_find_child (hname : name ≠ "..") (h : find root cwd (p.child name) = .ok node) :
    isDir root cwd p = true := by
  obtain ⟨entries, hdir, -⟩ := (locate_child_eq_ok_iff hname).mp (locate_of_find h)
  exact isDir_eq_true_iff.mpr ⟨entries, hdir⟩

end FileTree

namespace CommandLine

namespace Batch

open PathName

/-- The name of the report on the file that a path name leads to. -/
def nameFor? (root cwd : List String) (p : PathName) : Option String :=
  (expandHome? p).map fun p => reportName root (resolve cwd p)

/-- The content of the file that a report is written to. -/
def bytes? (r : Report) : Option Bytes :=
  r.written?.map fun text => Utf8.encode (text ++ "\n").toList

/-- A directory has the report on a file. -/
def HasReport (root : List String) (dir : PathName) (w : World) (p : PathName) (r : Report) :
    Prop :=
  ∃ name content node, nameFor? root w.cwd p = some name ∧ bytes? r = some content ∧
    FileTree.find w.tree w.cwd (dir.child name) = .ok node ∧ node.HasTaken content

section Reports

variable {root cwd : List String} {dir p q : PathName} {r s : Report} {w made : World}

/-- No report is named like the directory above. -/
theorem nameFor?_ne_dots {name : String} (h : nameFor? root cwd p = some name) : name ≠ ".." := by
  rw [nameFor?, Option.map_eq_some_iff] at h
  obtain ⟨path, -, rfl⟩ := h
  rw [reportName_eq]
  intro hdots
  have hlength := congrArg String.length hdots
  rw [String.length_append] at hlength
  have hending : ".report.json".length = 12 := by decide
  have htwo : "..".length = 2 := by decide
  omega

/-- A report is written to a file in the directory, which is made if it is not there. -/
theorem writeReport_eq_ok_iff : writeReport root dir p r w = .ok made ↔
    ∃ name content ready tree, nameFor? root w.cwd p = some name ∧ bytes? r = some content ∧
      FileTree.ensureDir w.tree w.cwd (dir.parts.length + 1) dir = .ok ready ∧
      FileTree.write ready w.cwd (dir.child name) content = .ok tree ∧
      made = { w with tree } := by
  unfold writeReport nameFor? bytes? FileTree.ensureDir World.ensureDir World.write World.change
  cases expandHome? p with
  | none => simp
  | some path =>
    rcases hmade : FileTree.makeDirs w.tree w.cwd (dir.parts.length + 1) dir with
      ⟨fault | ⟨⟩, ready⟩
    · simp [Except.map]
    · cases r.written? with
      | none => simp
      | some text =>
        cases hwrite : FileTree.write ready w.cwd
            (dir.child (reportName root (resolve w.cwd path)))
            (Utf8.encode (text ++ "\n").toList) with
        | error fault => simp [Except.map, hwrite, -String.toList_append]
        | ok tree => simp [Except.map, hwrite, eq_comm, -String.toList_append]

/-- Writing a report keeps the current directory. -/
theorem cwd_writeReport (h : writeReport root dir p r w = .ok made) : made.cwd = w.cwd := by
  obtain ⟨-, -, -, tree, -, -, -, -, rfl⟩ := writeReport_eq_ok_iff.mp h
  rfl

/-- A report that was written is there. -/
theorem hasReport_of_writeReport (h : writeReport root dir p r w = .ok made) :
    HasReport root dir made p r := by
  obtain ⟨name, content, ready, tree, hname, hcontent, -, hwrite, rfl⟩ :=
    writeReport_eq_ok_iff.mp h
  obtain ⟨node, hfind, hnode⟩ := FileTree.find_of_write hwrite
  exact ⟨name, content, node, hname, hcontent, hfind, hnode⟩

/-- A report stays when one of another name is written. -/
theorem HasReport.writeReport (h : HasReport root dir w p r)
    (hne : nameFor? root w.cwd p ≠ nameFor? root w.cwd q)
    (hmade : writeReport root dir q s w = .ok made) : HasReport root dir made p r := by
  obtain ⟨name, content, node, hname, hcontent, hfind, hnode⟩ := h
  obtain ⟨other, new, ready, tree, hother, -, hready, hwrite, rfl⟩ :=
    writeReport_eq_ok_iff.mp hmade
  have hdots := nameFor?_ne_dots hname
  -- the directory is there already, so that it is not made again
  rw [FileTree.ensureDir, FileTree.makeDirs_of_isDir (FileTree.isDir_of_find_child hdots hfind)]
    at hready
  cases hready
  have hnames : name ≠ other := fun heq => hne (hname.trans (heq ▸ hother.symm))
  exact ⟨name, content, node, hname, hcontent,
    FileTree.find_child_of_write hdots (nameFor?_ne_dots hother) hnames hfind hnode.isDir hwrite,
    hnode⟩

/-- Two reports of one name that are both there are the same, unless a sink has taken them. -/
theorem HasReport.bytes_eq (h : HasReport root dir w p r) (h' : HasReport root dir w q s)
    (hname : nameFor? root w.cwd p = nameFor? root w.cwd q) :
    bytes? r = bytes? s ∨ ∃ name, nameFor? root w.cwd p = some name ∧
      FileTree.find w.tree w.cwd (dir.child name) = .ok .sink := by
  obtain ⟨name, content, node, hp, hr, hfind, hnode⟩ := h
  obtain ⟨name', content', node', hq, hs, hfind', hnode'⟩ := h'
  obtain rfl : name = name' := Option.some.inj (hp.symm.trans (hname.trans hq))
  obtain rfl : node = node' := Except.ok.inj (hfind.symm.trans hfind')
  cases node with
  | dir entries => exact hnode.elim
  | sink => exact .inr ⟨name, hp, hfind⟩
  | file old executable =>
    obtain rfl : old = content := hnode
    obtain rfl : old = content' := hnode'
    exact .inl (hr.trans hs.symm)

/-! ### All reports of a batch -/

variable {outcomes front behind : List (PathName × Outcome)}

/-- The reports of two lists are written one list after the other. -/
theorem writeReports_append (root : List String) (dir : PathName)
    (front behind : List (PathName × Outcome)) (w : World) :
    writeReports root dir (front ++ behind) w =
      (writeReports root dir front w).bind (writeReports root dir behind) := by
  induction front generalizing w with
  | nil => rfl
  | cons told front ih =>
    obtain ⟨p, fault | result⟩ := told
    · exact ih w
    · rw [List.cons_append, writeReports, writeReports]
      cases Batch.writeReport root dir p result.report w with
      | error fault => rfl
      | ok made => exact ih made

/-- The reports on a first file and on others are written if its own report is, and theirs then. -/
theorem writeReports_cons_eq_ok_iff {result : OptimizeResult} :
    writeReports root dir ((p, .ok result) :: behind) w = .ok made ↔
      ∃ next, writeReport root dir p result.report w = .ok next ∧
        writeReports root dir behind next = .ok made := by
  rw [writeReports]
  cases writeReport root dir p result.report w <;> simp

/-- Writing reports keeps the current directory. -/
theorem cwd_writeReports (h : writeReports root dir outcomes w = .ok made) :
    made.cwd = w.cwd := by
  induction outcomes generalizing w with
  | nil => cases h; rfl
  | cons told outcomes ih =>
    obtain ⟨p, fault | result⟩ := told
    · exact ih h
    · obtain ⟨next, hfirst, hrest⟩ := writeReports_cons_eq_ok_iff.mp h
      rw [ih hrest, cwd_writeReport hfirst]

/-- A report stays when reports of other names are written. -/
theorem HasReport.writeReports (h : HasReport root dir w p r)
    (hne : ∀ q result, (q, .ok result) ∈ outcomes → nameFor? root w.cwd p ≠ nameFor? root w.cwd q)
    (hmade : writeReports root dir outcomes w = .ok made) : HasReport root dir made p r := by
  induction outcomes generalizing w with
  | nil => cases hmade; exact h
  | cons told outcomes ih =>
    have hbehind q result (hq : (q, .ok result) ∈ outcomes) :=
      hne q result (List.mem_cons_of_mem _ hq)
    obtain ⟨q, fault | result⟩ := told
    · exact ih h hbehind hmade
    · obtain ⟨next, hfirst, hrest⟩ := writeReports_cons_eq_ok_iff.mp hmade
      refine ih (h.writeReport (hne q result List.mem_cons_self) hfirst) ?_ hrest
      rwa [cwd_writeReport hfirst]

/-- The directory has the report on the last file of a name. -/
theorem hasReport_of_last {result : OptimizeResult}
    (hmade : writeReports root dir (front ++ (p, .ok result) :: behind) w = .ok made)
    (hlast : ∀ q other, (q, .ok other) ∈ behind → nameFor? root w.cwd p ≠ nameFor? root w.cwd q) :
    HasReport root dir made p result.report := by
  rw [writeReports_append] at hmade
  cases hfront : writeReports root dir front w with
  | error fault => rw [hfront] at hmade; cases hmade
  | ok next =>
    rw [hfront, Except.bind] at hmade
    obtain ⟨after, hp, hbehind⟩ := writeReports_cons_eq_ok_iff.mp hmade
    refine (hasReport_of_writeReport hp).writeReports ?_ hbehind
    rwa [cwd_writeReport hp, cwd_writeReports hfront]

/-- Whether the reports on some files have names of their own. -/
def AreToldApart (root cwd : List String) (files : List PathName) : Prop :=
  files.Pairwise fun p q => nameFor? root cwd p ≠ nameFor? root cwd q

/-- The directory has the reports on all files if no two of them share a name. -/
theorem hasReport_of_mem {result : OptimizeResult}
    (hapart : AreToldApart root w.cwd (outcomes.map (·.1)))
    (hmade : writeReports root dir outcomes w = .ok made) (hp : (p, .ok result) ∈ outcomes) :
    HasReport root dir made p result.report := by
  obtain ⟨front, behind, rfl⟩ := List.append_of_mem hp
  refine hasReport_of_last hmade fun q other hq => ?_
  rw [AreToldApart, List.map_append, List.map_cons] at hapart
  exact List.rel_of_pairwise_cons (List.pairwise_append.mp hapart).2.1
    (List.mem_map_of_mem hq)

/-- What a directory keeps of the reports on some files that are written one after the other. It has
the report on the last file of each name, and the reports on all files if no two of them share a
name. Two files that share one do not both have their reports there, unless these are the same or a
sink has taken them. -/
structure KeepsReports (root : List String) (dir : PathName)
    (outcomes : List (PathName × Outcome)) (made : World) : Prop where
  last : ∀ front p result behind, outcomes = front ++ (p, .ok result) :: behind →
    (∀ q other, (q, .ok other) ∈ behind → nameFor? root made.cwd p ≠ nameFor? root made.cwd q) →
      HasReport root dir made p result.report
  apart : AreToldApart root made.cwd (outcomes.map (·.1)) →
    ∀ p result, (p, .ok result) ∈ outcomes → HasReport root dir made p result.report
  shared : ∀ p q r s, HasReport root dir made p r → HasReport root dir made q s →
    nameFor? root made.cwd p = nameFor? root made.cwd q →
      bytes? r = bytes? s ∨ ∃ name, nameFor? root made.cwd p = some name ∧
        FileTree.find made.tree made.cwd (dir.child name) = .ok .sink

/-- Where reports are written, every name keeps the last one that was written under it. -/
theorem keepsReports_of_writeReports (hmade : writeReports root dir outcomes w = .ok made) :
    KeepsReports root dir outcomes made where
  last front p result behind hsplit hlast := by
    rw [cwd_writeReports hmade] at hlast
    exact hasReport_of_last (hsplit ▸ hmade) hlast
  apart hapart p result hp := by
    rw [cwd_writeReports hmade] at hapart
    exact hasReport_of_mem hapart hmade hp
  shared _ _ _ _ h h' hname := h.bytes_eq h' hname

/-! ### Reports of a whole run -/

/-- Files inside the project that have the same ending have reports of different names, if they are
different files and their components can be told apart. -/
theorem areToldApart_of_clear {files : List PathName} {ending : String}
    (hfiles : ∀ p ∈ files, ∃ path dirs name, expandHome? p = some path ∧
      resolve cwd path = root ++ (dirs ++ [name]) ∧ endingOf name = ending ∧
      IsClear ((dirs ++ [stemOf name]).map String.toList))
    (hne : files.Pairwise fun p q =>
      (expandHome? p).map (resolve cwd) ≠ (expandHome? q).map (resolve cwd)) :
    AreToldApart root cwd files := by
  refine hne.imp_of_mem fun {p q} hp hq hpq hsame => hpq ?_
  obtain ⟨path, dirs, name, hpath, hplace, hending, hclear⟩ := hfiles p hp
  obtain ⟨path', dirs', name', hpath', hplace', hending', hclear'⟩ := hfiles q hq
  rw [nameFor?, nameFor?, hpath, hpath', Option.map_some, Option.map_some, hplace, hplace',
    Option.some_inj] at hsame
  rw [hpath, hpath', Option.map_some, Option.map_some, hplace, hplace',
    reportName_inj hclear hclear' (hending.trans hending'.symm) hsame]

/-- The end of a run that writes reports. -/
theorem conclude_eq_ok_iff {verbose : Bool} {finish : Finish} :
    conclude verbose root (some dir) outcomes w = (.ok finish, made) ↔
      escape? outcomes = none ∧ writeReports root dir outcomes w = .ok made ∧
        finish = ⟨statusOf (outcomes.map (·.2)), "", logLines verbose w ++
          String.join (outcomes.map fun (p, outcome) => lines p outcome)⟩ := by
  unfold conclude
  dsimp only
  cases escape? outcomes with
  | some fault => simp
  | none =>
    cases writeReports root dir outcomes w with
    | error fault => simp
    | ok after => simp [eq_comm, and_comm]

/-- After a run that ends by itself, the directory for reports keeps what was written last under
each name. -/
theorem perform_keepsReports {arguments : Arguments} {paths : List String}
    {timeout : Option Binary64} {jobs : Int} {reports : String} {command : Option (List String)}
    {config : Config} {scratchRoot : Option (List String)} {finish : Finish}
    (harguments : arguments.order = .optimize paths timeout jobs (some reports) command)
    (hsettings : settings timeout jobs command root w = .ok (config, scratchRoot))
    (hperform : perform arguments root w = (.ok finish, made)) :
    made.cwd = w.cwd ∧
      ∃ outcomes : List (PathName × Outcome), outcomes.map (·.1) = paths.map .ofString ∧
        finish.status = statusOf (outcomes.map (·.2)) ∧
        KeepsReports root (.ofString reports) outcomes made := by
  rw [perform, harguments] at hperform
  simp only [hsettings] at hperform
  obtain ⟨-, hwritten, rfl⟩ := conclude_eq_ok_iff.mp hperform
  exact ⟨(cwd_writeReports hwritten).trans (cwd_runAll (fun _ => Oracle.cwd_verify _) ..), _,
    map_fst_runAll .., rfl, keepsReports_of_writeReports hwritten⟩

end Reports

/-- A project with three empty specs, two of which have reports of the same name. -/
def emptySpecs : World :=
  .start (.dir [("proj", .dir [
    ("spec", .dir [("models", .dir [
      ("user_spec.rb", .file [] false), ("post_spec.rb", .file [] false)])]),
    ("spec__models", .dir [("user_spec.rb", .file [] false)])])]) ["proj"]

/-- An order to optimize specs and to write reports on them. -/
def reporting (paths : List String) : Arguments :=
  ⟨false, none, "proj", .optimize paths none 1 (some "reports") (some ["true"])⟩

/-- The reports on two specs of one directory are both there. -/
theorem perform_keepsReports_emptySpecs :
    let paths := ["spec/models/user_spec.rb", "spec/models/post_spec.rb"]
    ∃ settled finish made, settings none 1 (some ["true"]) ["proj"] emptySpecs = .ok settled ∧
      perform (reporting paths) ["proj"] emptySpecs = (.ok finish, made) ∧
      ∃ outcomes : List (PathName × Outcome), outcomes.map (·.1) = paths.map .ofString ∧
        ∀ p result, (p, .ok result) ∈ outcomes →
          HasReport ["proj"] (.ofString "reports") made p result.report := by
  intro paths
  obtain ⟨⟨config, scratchRoot⟩, hsettled, -⟩ := exists_ok_of_any (by decide :
    (settings none 1 (some ["true"]) ["proj"] emptySpecs).toOption.any (fun _ => true) = true)
  obtain ⟨finish, hfinish, -⟩ := exists_ok_of_any (by decide +kernel :
    (perform (reporting paths) ["proj"] emptySpecs).1.toOption.any (fun _ => true) = true)
  have hapart : AreToldApart ["proj"] ["proj"] (paths.map .ofString) := by
    have hplaces : ∀ p ∈ paths.map PathName.ofString,
        ∃ name ∈ ["user_spec.rb", "post_spec.rb"], expandHome? p = some p ∧
          resolve ["proj"] p = ["proj"] ++ (["spec", "models"] ++ [name]) := by
      decide
    have hwords : ∀ name ∈ ["user_spec.rb", "post_spec.rb"], endingOf name = ".rb" ∧
        (∀ w ∈ (["spec", "models"] ++ [stemOf name]).map String.toList, ¬['_', '_'] <:+: w) ∧
        ∀ w ∈ ((["spec", "models"] ++ [stemOf name]).map String.toList).dropLast,
          w.getLast? ≠ some '_' := by decide
    refine @areToldApart_of_clear _ _ _ ".rb" (fun p hp => ?_) (by decide)
    obtain ⟨name, hname, hpath, hplace⟩ := hplaces p hp
    obtain ⟨hending, hsingle, hclosed⟩ := hwords name hname
    exact ⟨p, _, name, hpath, hplace, hending, hsingle, hclosed⟩
  have horder : (reporting paths).order =
      .optimize paths none 1 (some "reports") (some ["true"]) := rfl
  obtain ⟨hcwd, outcomes, hnames, -, hkept⟩ :=
    perform_keepsReports horder hsettled (Prod.ext hfinish rfl)
  refine ⟨_, finish, _, hsettled, Prod.ext hfinish rfl, outcomes, hnames, hkept.apart ?_⟩
  rw [hcwd, hnames]
  exact hapart

/-- Different files may share the name of their report: one in a directory that is called like the
two directories of the other, one with another ending, and one outside of the project. Of the
reports on the first two only one is there after the run. -/
theorem find_reports_emptySpecs :
    let paths := ["spec/models/user_spec.rb", "spec__models/user_spec.rb"]
    reportName ["proj"] ["proj", "spec", "models", "user_spec.rb"] =
      reportName ["proj"] ["proj", "spec__models", "user_spec.rb"] ∧
    reportName ["proj"] ["proj", "spec", "user_spec.rb"] =
      reportName ["proj"] ["proj", "spec", "user_spec.txt"] ∧
    reportName ["proj"] ["spec", "user_spec.rb"] =
      reportName ["proj"] ["proj", "spec", "user_spec.rb"] ∧
    (FileTree.find (perform (reporting paths) ["proj"] emptySpecs).2.tree ["proj"]
      (.ofString "reports")).toOption.any (fun node => match node with
        | .dir entries => entries.map (·.1) = ["spec__models__user_spec.report.json"]
        | _ => false) = true := by
  refine ⟨?_, ?_, ?_, by decide +kernel⟩
  · have hjoined : "spec" ++ "__" ++ "models" = "spec__models" := by decide
    have hnames := reportName_joined ["proj"] [] [] "spec" "models" "user_spec.rb"
    rwa [hjoined] at hnames
  · exact reportName_ending ["proj"] ["spec"] (by decide)
  · exact reportName_outside (by decide) (by decide)

end Batch

end CommandLine

end FactoryDowngrade
