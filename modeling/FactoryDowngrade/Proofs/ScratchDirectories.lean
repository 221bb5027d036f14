import FactoryDowngrade.ConfigFile
import FactoryDowngrade.Proofs.World.FileTree

/-!
# The scratch directory of a project

A setting names the scratch directory of a project from the root of the project. Followed part by
part, it may go up and out of the project, and past the top of the tree; it is taken just when it
ends at the root or below it. What counts are the components of the two paths and not their
spelling, so a directory beside the root stays outside even if its name goes on from that of the
root.
-/

namespace FactoryDowngrade

namespace PathName

/-- The parts of a text between slashes, with the empty ones and the dots. -/
def pieces (text : String) : List String :=
  (text.toList.splitOn '/').map String.ofList

/-- Where some parts lead, one after another. An empty one and a single dot stay at a place, a
double dot goes up, though not from the top of the tree, and any other goes down. -/
inductive Leads : List String → List String → List String → Prop
  | done (place : List String) : Leads place [] place
  | stay {place rest goal : List String} {part : String} (h : part = "" ∨ part = ".") :
      Leads place rest goal → Leads place (part :: rest) goal
  | up {place rest goal : List String} :
      Leads place.dropLast rest goal → Leads place (".." :: rest) goal
  | down {place rest goal : List String} {part : String} (h : part ∉ ["", ".", ".."]) :
      Leads (place ++ [part]) rest goal → Leads place (part :: rest) goal

section Leads

variable {place parts rest goal base : List String} {part text : String}

/-- Where components lead is where the parts of a path lead one after the other. -/
theorem Leads.eq_foldl (h : Leads place parts goal) :
    (parts.filter fun part => part ≠ "" && part ≠ ".").foldl onward place = goal := by
  induction h with
  | done place => rfl
  | stay hpart _ ih =>
    rw [List.filter_cons_of_neg (by rcases hpart with rfl | rfl <;> decide)]
    exact ih
  | up _ ih => simpa [onward] using ih
  | @down place rest goal part hpart _ ih =>
    obtain ⟨hempty, hdot, hdots⟩ : part ≠ "" ∧ part ≠ "." ∧ part ≠ ".." := by simpa using hpart
    rw [List.filter_cons_of_pos (by simp [hempty, hdot]), List.foldl_cons, onward, if_neg hdots]
    exact ih

/-- And that is where they lead. -/
theorem leads_foldl (place parts : List String) :
    Leads place parts ((parts.filter fun part => part ≠ "" && part ≠ ".").foldl onward place) := by
  induction parts generalizing place with
  | nil => exact .done place
  | cons part parts ih =>
    by_cases hstay : part = "" ∨ part = "."
    · rw [List.filter_cons_of_neg (by rcases hstay with rfl | rfl <;> decide)]
      exact .stay hstay (ih place)
    · obtain ⟨hempty, hdot⟩ := not_or.mp hstay
      rw [List.filter_cons_of_pos (by simp [hempty, hdot]), List.foldl_cons, onward]
      split
      · rename_i hdots
        exact hdots ▸ .up (ih _)
      · rename_i hdots
        exact .down (by simp [hempty, hdot, hdots]) (ih _)

/-- Parts lead to exactly one place. -/
theorem leads_iff : Leads place parts goal ↔
    (parts.filter fun part => part ≠ "" && part ≠ ".").foldl onward place = goal :=
  ⟨Leads.eq_foldl, fun h => h ▸ leads_foldl place parts⟩

/-- So they lead to one place. -/
theorem Leads.unique {goal' : List String} (h : Leads place parts goal)
    (h' : Leads place parts goal') : goal = goal' :=
  h.eq_foldl.symm.trans h'.eq_foldl

/-- Components lead on from where those before them led. -/
theorem Leads.append_iff {mid : List String} (h : Leads place parts mid) :
    Leads place (parts ++ rest) goal ↔ Leads mid rest goal := by
  rw [leads_iff, List.filter_append, List.foldl_append, h.eq_foldl, leads_iff]

/-- What the components of a name lead to is what its pieces do. -/
theorem leads_components : (components text).foldl onward place = goal ↔
    Leads place (pieces text) goal :=
  leads_iff.symm

/-- A path is absolute just when it begins with a slash. -/
theorem isAbsolute_ofString : (ofString text).isAbsolute = true ↔ text.toList.head? = some '/' := by
  have hslashes : (ofString text).slashes = 0 ↔
      (text.toList.takeWhile (· == '/')).length = 0 := by
    rw [ofString]
    grind
  rw [isAbsolute, decide_eq_true_iff, ne_eq, hslashes]
  cases text.toList with
  | nil => simp
  | cons c rest => by_cases hc : c = '/' <;> simp [hc]

/-- An absolute path is followed from the top of the tree. -/
theorem leads_resolve_of_absolute (h : text.toList.head? = some '/') (cwd : List String) :
    Leads [] (pieces text) (resolve cwd (ofString text)) := by
  rw [← leads_components, resolve_eq_foldl, steps, if_pos (isAbsolute_ofString.mpr h)]
  rfl

/-- Any other path is followed from the present directory. -/
theorem leads_resolve_of_relative (h : text.toList.head? ≠ some '/') (hbase : ".." ∉ base) :
    Leads base (pieces text) (resolve base (ofString text)) := by
  have hstart : base.foldl onward [] = base := by
    rw [← normalize_eq_foldl]
    exact resolve_absolute hbase []
  rw [← leads_components, resolve_eq_foldl, steps, if_neg (mt isAbsolute_ofString.mp h),
    List.foldl_append, hstart]
  rfl

end Leads

/-! ### Parts of a text -/

section Pieces

variable {text name : String}

/-- At a slash the pieces are those of both sides. -/
theorem pieces_append_slash (front back : String) :
    pieces (front ++ "/" ++ back) = pieces front ++ pieces back := by
  have htext : (front ++ "/" ++ back).toList = front.toList ++ '/' :: back.toList := by simp
  rw [pieces, htext, List.splitOn_append_cons_self, List.map_append]
  rfl

/-- A double dot in front is one more piece. -/
theorem pieces_up (text : String) : pieces ("../" ++ text) = ".." :: pieces text := by
  have hup : "../" ++ text = ".." ++ "/" ++ text := rfl
  rw [hup, pieces_append_slash]
  rfl

/-- A name without a slash is one piece. -/
theorem pieces_eq_singleton (h : '/' ∉ text.toList) : pieces text = [text] := by
  rw [pieces, List.splitOn_eq_singleton h]
  simp

/-- What stands between two slashes has no slash in it. -/
theorem slash_notMem_of_mem_splitOn {s part : List Char} (h : part ∈ s.splitOn '/') :
    '/' ∉ part := by
  induction s generalizing part with
  | nil =>
    obtain rfl : part = [] := by simpa using h
    exact List.not_mem_nil
  | cons c s ih =>
    rw [List.splitOn_cons_eq_if_modifyHead] at h
    split at h
    · rcases List.mem_cons.mp h with rfl | hrest
      · exact List.not_mem_nil
      · exact ih hrest
    · rename_i hc
      have hne : '/' ≠ c := fun h => hc (beq_iff_eq.mpr h.symm)
      cases hsplit : s.splitOn '/' with
      | nil => simp [hsplit] at h
      | cons first rest =>
        rw [hsplit, List.modifyHead_cons] at h
        rcases List.mem_cons.mp h with rfl | hrest
        · have hfirst : '/' ∉ first := ih (by rw [hsplit]; exact List.mem_cons_self)
          simpa [hne] using hfirst
        · exact ih (by rw [hsplit]; exact List.mem_cons_of_mem first hrest)

/-- No piece has a slash in it. -/
theorem slash_notMem_of_mem_pieces (h : name ∈ pieces text) : '/' ∉ name.toList := by
  obtain ⟨part, hpart, rfl⟩ := List.mem_map.mp h
  simpa using slash_notMem_of_mem_splitOn hpart

/-- A place that parts lead to has only components of where they start, and those among them that
lead down. -/
theorem Leads.mem_start_or {start parts place : List String} (h : Leads start parts place)
    {name : String} (hname : name ∈ place) :
    name ∈ start ∨ name ∈ parts ∧ name ∉ ["", ".", ".."] := by
  induction h with
  | done place => exact .inl hname
  | stay _ _ ih => exact (ih hname).imp_right fun h => ⟨.tail _ h.1, h.2⟩
  | up _ ih => exact (ih hname).imp (List.dropLast_subset _ ·) fun h => ⟨.tail _ h.1, h.2⟩
  | down hpart _ ih =>
    rcases ih hname with hstart | h
    · rcases List.mem_append.mp hstart with hstart | hself
      · exact .inl hstart
      · obtain rfl := List.mem_singleton.mp hself
        exact .inr ⟨.head _, hpart⟩
    · exact .inr ⟨.tail _ h.1, h.2⟩

/-- A place that parts lead to from the top of the tree has only components that are among them
and lead down. -/
theorem Leads.isPlain_of_mem {parts place : List String} (h : Leads [] parts place) {name : String}
    (hname : name ∈ place) : name ∈ parts ∧ name ∉ ["", ".", ".."] :=
  (h.mem_start_or hname).resolve_left List.not_mem_nil

end Pieces

end PathName

namespace ConfigFile

open PathName

/-- A setting is a relative path that leads from the root of a project to some components, which
are those of the root or go on from them. -/
structure Means (root : String) (base : List String) (dir : String) (parts : List String) :
    Prop where
  named : dir ≠ ""
  noHome : dir.toList.head? ≠ some '~'
  relative : dir.toList.head? ≠ some '/'
  leads : Leads [] (pieces root ++ pieces dir) parts
  inside : base <+: parts

variable {root dir : String} {base : List String}

/-- What can become of a setting. -/
theorem scratchDirectory_cases (hbase : ".." ∉ base) (dir : String) :
    (dir = "" ∨ dir.toList.head? = some '~') ∧
        scratchDirectory base (some dir) = .error .blankScratch ∨
      dir.toList.head? = some '/' ∧
        scratchDirectory base (some dir) = .error .absoluteScratch ∨
      dir ≠ "" ∧ dir.toList.head? ≠ some '~' ∧ dir.toList.head? ≠ some '/' ∧
        ∃ parts, Leads base (pieces dir) parts ∧ scratchDirectory base (some dir) =
          if base <+: parts then .ok (some parts) else .error (.strayScratch dir) := by
  have hblank : (dir.isEmpty || Text.startsWith dir.toList ['~']) = true ↔
      dir = "" ∨ dir.toList.head? = some '~' := by
    rw [Bool.or_eq_true, String.isEmpty_iff]
    refine or_congr_right ?_
    cases dir.toList with
    | nil => simp [Text.startsWith]
    | cons c rest => simpa [Text.startsWith] using eq_comm
  rw [scratchDirectory]
  dsimp only
  split
  · rename_i h
    exact .inl ⟨hblank.mp h, rfl⟩
  · rename_i h
    obtain ⟨hnamed, hhome⟩ := not_or.mp (mt hblank.mpr h)
    refine .inr ?_
    split
    · rename_i habsolute
      exact .inl ⟨isAbsolute_ofString.mp habsolute, rfl⟩
    · rename_i habsolute
      have hrelative := mt isAbsolute_ofString.mpr habsolute
      refine .inr ⟨hnamed, hhome, hrelative, _, leads_resolve_of_relative hrelative hbase, ?_⟩
      simp only [List.isPrefixOf_iff_prefix]

/-- A setting is taken just when it means a place inside the project. -/
theorem scratchDirectory_eq_ok_iff_means (hroot : Leads [] (pieces root) base) (dir : String)
    (place : Option (List String)) : scratchDirectory base (some dir) = .ok place ↔
      ∃ parts, place = some parts ∧ Means root base dir parts := by
  have hbase : ".." ∉ base := fun hdots => by simpa using (hroot.isPlain_of_mem hdots).2
  rcases scratchDirectory_cases hbase dir with ⟨hblank, h⟩ | ⟨habsolute, h⟩ |
    ⟨hnamed, hhome, hrelative, parts, hleads, h⟩
  · rw [h]
    refine iff_of_false nofun ?_
    rintro ⟨parts, -, hmeans⟩
    exact hblank.elim hmeans.named hmeans.noHome
  · rw [h]
    refine iff_of_false nofun ?_
    rintro ⟨parts, -, hmeans⟩
    exact hmeans.relative habsolute
  · rw [h]
    constructor
    · intro hok
      split at hok
      · rename_i hinside
        cases hok
        exact ⟨parts, rfl, hnamed, hhome, hrelative, hroot.append_iff.mpr hleads, hinside⟩
      · cases hok
    · rintro ⟨parts', rfl, hmeans⟩
      obtain rfl := hleads.unique (hroot.append_iff.mp hmeans.leads)
      rw [if_pos hmeans.inside]

/-- A setting that is not taken is a fault of the configuration. -/
theorem exists_fault_of_not_ok (hbase : ".." ∉ base) (dir : String)
    (h : ∀ place, scratchDirectory base (some dir) ≠ .ok place) :
    ∃ fault ∈ [.blankScratch, .absoluteScratch, .strayScratch dir],
      scratchDirectory base (some dir) = .error fault := by
  rcases scratchDirectory_cases hbase dir with
    ⟨-, hfault⟩ | ⟨-, hfault⟩ | ⟨-, -, -, parts, -, hfault⟩
  · exact ⟨_, by simp, hfault⟩
  · exact ⟨_, by simp, hfault⟩
  · rw [hfault] at h
    rw [hfault]
    split at h
    · exact absurd rfl (h _)
    · rename_i hstray
      exact ⟨_, by simp, if_neg hstray⟩

/-- A setting may begin by going up from the root. -/
theorem scratchDirectory_up (hbase : ".." ∉ base) {text : String} {parts : List String}
    (h : Leads base.dropLast (pieces text) parts) :
    scratchDirectory base (some ("../" ++ text)) =
      if base <+: parts then .ok (some parts) else .error (.strayScratch ("../" ++ text)) := by
  have hhead : ("../" ++ text).toList.head? = some '.' := by simp
  have hnamed : "../" ++ text ≠ "" := fun hempty => by simp [hempty] at hhead
  rcases scratchDirectory_cases hbase ("../" ++ text) with ⟨hblank, -⟩ | ⟨habsolute, -⟩ |
    ⟨-, -, -, parts', hleads, hfound⟩
  · simp [hnamed] at hblank
  · simp at habsolute
  · rw [pieces_up] at hleads
    rw [hfound, hleads.unique (.up h)]

/-- The scratch directory of a project at an absolute root is confined to the root. -/
theorem scratchDirectory_confined {root : String} (hroot : root.toList.head? = some '/')
    (cwd : List String) :
    ∃ base, resolve cwd (ofString root) = base ∧ Leads [] (pieces root) base ∧
      (∀ dir place, scratchDirectory base (some dir) = .ok place ↔
        ∃ parts, place = some parts ∧ Means root base dir parts) ∧
      (∀ dir, (¬∃ parts, Means root base dir parts) →
        ∃ fault ∈ [.blankScratch, .absoluteScratch, .strayScratch dir],
          scratchDirectory base (some dir) = .error fault) ∧
      ∀ front name, base = front ++ [name] →
        (∀ other, other ∉ ["", ".", ".."] → '/' ∉ other.toList → other ≠ name →
          scratchDirectory base (some ("../" ++ other)) =
            .error (.strayScratch ("../" ++ other))) ∧
        ∀ inside parts, Leads base (pieces inside) parts → base <+: parts →
          scratchDirectory base (some ("../" ++ (name ++ "/" ++ inside))) = .ok (some parts) := by
  have hleads := leads_resolve_of_absolute hroot cwd
  have hok := scratchDirectory_eq_ok_iff_means hleads
  have hdots := dots_notMem_resolve cwd (ofString root)
  refine ⟨_, rfl, hleads, hok, fun dir hmeans => ?_, fun front name hbase => ?_⟩
  · refine exists_fault_of_not_ok hdots dir fun place hplace => hmeans ?_
    obtain ⟨parts, -, h⟩ := (hok dir place).mp hplace
    exact ⟨parts, h⟩
  · have hname : name ∈ resolve cwd (ofString root) := by simp [hbase]
    obtain ⟨hpiece, hplain⟩ := hleads.isPlain_of_mem hname
    rw [hbase] at hdots ⊢
    constructor
    · intro other hother hslash hne
      have hbeside : Leads (front ++ [name]).dropLast (pieces other) (front ++ [other]) := by
        rw [pieces_eq_singleton hslash, List.dropLast_concat]
        exact .down hother (.done _)
      rw [scratchDirectory_up hdots hbeside, if_neg]
      rw [List.prefix_append_right_inj, List.cons_prefix_cons]
      exact fun h => hne h.1.symm
    · intro inside parts hparts hinside
      have hback : Leads (front ++ [name]).dropLast (pieces (name ++ "/" ++ inside)) parts := by
        rw [pieces_append_slash, pieces_eq_singleton (slash_notMem_of_mem_pieces hpiece),
          List.dropLast_concat]
        exact .down hplain hparts
      rw [scratchDirectory_up hdots hback, if_pos hinside]

/-- From the project at `/home/proj` a setting leaves the project, goes past the top of the tree and
comes back, and another one leads beside it. -/
theorem scratchDirectory_confined_home :
    ∃ base, base = ["home", "proj"] ∧
      scratchDirectory base (some "../../../home//proj/./tmp") = .ok (some (base ++ ["tmp"])) ∧
      scratchDirectory base (some "../project") = .error (.strayScratch "../project") := by
  have hroot : "/home/./proj/".toList.head? = some '/' := rfl
  obtain ⟨base, rfl, -, hok, -, hbeside⟩ := scratchDirectory_confined hroot []
  have hbase : resolve [] (ofString "/home/./proj/") = ["home", "proj"] := by decide
  have hmeans : Means "/home/./proj/" (resolve [] (ofString "/home/./proj/"))
      "../../../home//proj/./tmp" ["home", "proj", "tmp"] :=
    ⟨by decide, by decide, by decide, leads_iff.mpr (by decide), by rw [hbase]; decide⟩
  refine ⟨_, hbase, (hok _ _).mpr ⟨_, by rw [hbase]; rfl, hmeans⟩, ?_⟩
  exact (hbeside ["home"] "proj" hbase).1 "project" (by decide) (by decide) (by decide)

end ConfigFile

end FactoryDowngrade
