import FactoryDowngrade.World.Scratch

/-!
# Reading and changing file trees

Setting a node at some components changes what is found at and below them, and which entries the
directory above them has, and nothing else: every other file and every other directory is found as
before. A walk leads to the place that the components spell, provided that everything it goes
through is a directory; so it leads to the same place in every tree that has these directories.
-/

namespace FactoryDowngrade

namespace Node

/-! ### Entries -/

section Entries

variable {entries : List (String × Node)} {name other : String} {value : Option Node}
  {node : Node}

/-- An entry that was set is found. -/
theorem lookup_setEntry_self :
    (setEntry name (some node) entries).lookup name = some node := by
  induction entries with
  | nil => simp [setEntry]
  | cons entry entries ih =>
    obtain ⟨key, child⟩ := entry
    rw [setEntry]
    split
    · simp
    · rename_i hne
      simpa [List.lookup_cons, beq_eq_false_iff_ne.mpr (Ne.symm hne)] using ih

/-- Setting one entry keeps the others. -/
theorem lookup_setEntry_of_ne (h : other ≠ name) :
    (setEntry name value entries).lookup other = entries.lookup other := by
  have hnew : ∀ rest, ((value.map fun v => (name, v)).toList ++ rest).lookup other =
      rest.lookup other := by
    intro rest
    cases value with
    | none => rfl
    | some v => simp [List.lookup_cons, beq_eq_false_iff_ne.mpr h]
  induction entries with
  | nil => simpa [setEntry] using hnew []
  | cons entry entries ih =>
    obtain ⟨key, child⟩ := entry
    rw [setEntry]
    split
    · rename_i hkey
      subst hkey
      rw [hnew]
      simp [List.lookup_cons, beq_eq_false_iff_ne.mpr h]
    · simp [List.lookup_cons, ih]

/-- Only the last of two changes to an entry counts. -/
theorem setEntry_setEntry :
    setEntry name value (setEntry name (some node) entries) = setEntry name value entries := by
  induction entries with
  | nil => simp [setEntry]
  | cons entry entries ih =>
    obtain ⟨key, child⟩ := entry
    by_cases hkey : key = name
    · simp [setEntry, hkey]
    · simp [setEntry, hkey, ih]

/-- Setting an entry to what it is changes nothing. -/
theorem setEntry_of_lookup (h : entries.lookup name = some node) :
    setEntry name (some node) entries = entries := by
  induction entries with
  | nil => simp at h
  | cons entry entries ih =>
    obtain ⟨key, child⟩ := entry
    by_cases hkey : key = name
    · subst hkey
      obtain rfl : child = node := by simpa [List.lookup_cons] using h
      simp [setEntry]
    · have hrest : entries.lookup name = some node := by
        simpa [List.lookup_cons, beq_eq_false_iff_ne.mpr (Ne.symm hkey)] using h
      simp [setEntry, hkey, ih hrest]

/-- Removing an entry that is not there changes nothing. -/
theorem setEntry_none_of_lookup (h : entries.lookup name = none) :
    setEntry name none entries = entries := by
  induction entries with
  | nil => rfl
  | cons entry entries ih =>
    obtain ⟨key, child⟩ := entry
    by_cases hkey : key = name
    · simp [hkey] at h
    · have hrest : entries.lookup name = none := by
        simpa [List.lookup_cons, beq_eq_false_iff_ne.mpr (Ne.symm hkey)] using h
      simp [setEntry, hkey, ih hrest]

/-- Replacing an entry and changing another one can be done in any order. -/
theorem setEntry_comm {old : Node} (hne : name ≠ other) (h : entries.lookup other = some old) :
    setEntry other (some node) (setEntry name value entries) =
      setEntry name value (setEntry other (some node) entries) := by
  induction entries with
  | nil => simp at h
  | cons entry entries ih =>
    obtain ⟨key, child⟩ := entry
    by_cases hkey : key = other
    · subst hkey
      simp [setEntry, hne.symm]
    · have hrest : entries.lookup other = some old := by
        simpa [List.lookup_cons, beq_eq_false_iff_ne.mpr (Ne.symm hkey)] using h
      by_cases hname : key = name
      · subst hname
        cases value <;> simp [setEntry, hkey]
      · simp [setEntry, hkey, hname, ih hrest]

/-- Replacing an entry keeps the names. -/
theorem map_fst_setEntry {old : Node} (h : entries.lookup name = some old) :
    (setEntry name (some node) entries).map (·.1) = entries.map (·.1) := by
  induction entries with
  | nil => simp at h
  | cons entry entries ih =>
    obtain ⟨key, child⟩ := entry
    by_cases hkey : key = name
    · simp [setEntry, hkey]
    · have hrest : entries.lookup name = some old := by
        simpa [List.lookup_cons, beq_eq_false_iff_ne.mpr (Ne.symm hkey)] using h
      simp [setEntry, hkey, ih hrest]

/-- Nothing is found under a name that no entry has. -/
theorem lookup_eq_none_of_notMem (h : name ∉ entries.map (·.1)) : entries.lookup name = none := by
  rw [List.lookup_eq_none_iff]
  intro entry hentry
  simpa using fun hname => h (List.mem_map.mpr ⟨entry, hentry, hname.symm⟩)

end Entries

/-! ### What is found in a tree -/

section Get

variable {tree node : Node} {entries : List (String × Node)} {name : String}
  {path rest : List String}

/-- The empty path leads nowhere else. -/
theorem get_nil : tree.get [] = .ok tree := rfl

/-- A path begins with a step. -/
theorem get_cons : tree.get (name :: path) = (tree.step name).bind (·.get path) := by
  rw [get]
  cases tree.step name <;> rfl

/-- Two paths lead one after the other to where they lead together. -/
theorem get_append : tree.get (path ++ rest) = (tree.get path).bind (·.get rest) := by
  induction path generalizing tree with
  | nil => rfl
  | cons name path ih =>
    rw [List.cons_append, get_cons, get_cons]
    cases tree.step name with
    | error cause => rfl
    | ok child => exact ih

/-- A path of one name is a step. -/
theorem get_singleton : tree.get [name] = tree.step name := by
  rw [get_cons]
  cases tree.step name <;> rfl

/-- One component further. -/
theorem get_concat : tree.get (path ++ [name]) = (tree.get path).bind (·.step name) := by
  rw [get_append]
  cases tree.get path with
  | error cause => rfl
  | ok node => exact get_singleton

/-- A step into a directory looks a name up, if the name is not too long. -/
theorem step_dir : (dir entries).step name =
    if nameLimit < name.utf8ByteSize then .error .nameTooLong
    else (entries.lookup name).elim (.error .noEntry) .ok := by
  rw [step]
  split
  · rfl
  · cases entries.lookup name <;> rfl

/-- A step finds or misses an entry only in a directory, and only by a name that is not too
long. -/
theorem step_eq_elim_iff {found : Option Node} :
    tree.step name = found.elim (.error .noEntry) .ok ↔
      ∃ entries, tree = dir entries ∧ name.utf8ByteSize ≤ nameLimit ∧
        entries.lookup name = found := by
  constructor
  · intro h
    cases tree with
    | file content executable => cases found <;> cases h
    | sink => cases found <;> cases h
    | dir entries =>
      rw [step_dir] at h
      split at h
      · cases found <;> cases h
      · rename_i hshort
        refine ⟨entries, rfl, by omega, ?_⟩
        revert h
        cases entries.lookup name <;> cases found <;> simp
  · rintro ⟨entries, rfl, hshort, rfl⟩
    rw [step_dir, if_neg (by omega)]

/-- A step succeeds just from a directory with such an entry, under a name that is not too long. -/
theorem step_eq_ok_iff {child : Node} :
    tree.step name = .ok child ↔
      ∃ entries, tree = dir entries ∧ name.utf8ByteSize ≤ nameLimit ∧
        entries.lookup name = some child :=
  @step_eq_elim_iff tree name (some child)

/-- It finds no entry just in a directory without one, under a name that is not too long. -/
theorem step_eq_noEntry_iff :
    tree.step name = .error .noEntry ↔
      ∃ entries, tree = dir entries ∧ name.utf8ByteSize ≤ nameLimit ∧
        entries.lookup name = none :=
  @step_eq_elim_iff tree name none

/-- Something at some components is below the entry with the first of them. -/
theorem get_cons_eq_ok_iff :
    tree.get (name :: path) = .ok node ↔
      ∃ entries child, tree = dir entries ∧ name.utf8ByteSize ≤ nameLimit ∧
        entries.lookup name = some child ∧ child.get path = .ok node := by
  rw [get_cons]
  constructor
  · intro h
    cases hstep : tree.step name with
    | error cause => simp [hstep, Except.bind] at h
    | ok child =>
      rw [hstep, Except.bind] at h
      obtain ⟨entries, rfl, hshort, hlookup⟩ := step_eq_ok_iff.mp hstep
      exact ⟨entries, child, rfl, hshort, hlookup, h⟩
  · rintro ⟨entries, child, rfl, hshort, hlookup, h⟩
    rw [step_eq_ok_iff.mpr ⟨entries, rfl, hshort, hlookup⟩]
    exact h

/-- What is above something is a directory. -/
theorem exists_dir_of_get_append {name : String}
    (h : tree.get (path ++ name :: rest) = .ok node) :
    ∃ entries, tree.get path = .ok (dir entries) := by
  rw [get_append] at h
  cases hpath : tree.get path with
  | error cause => simp [hpath, Except.bind] at h
  | ok found =>
    rw [hpath, Except.bind] at h
    obtain ⟨entries, child, rfl, -⟩ := get_cons_eq_ok_iff.mp h
    exact ⟨entries, rfl⟩

/-- Nothing is below what is not there. -/
theorem get_ne_ok_of_prefix {cause : OsCause} (h : tree.get path = .error cause)
    (hpath : path <+: rest) : tree.get rest ≠ .ok node := by
  obtain ⟨more, rfl⟩ := hpath
  rw [get_append, h]
  exact nofun

end Get

/-! ### What is found after a change -/

section Put

variable {tree node other : Node} {entries : List (String × Node)} {name : String}
  {path rest : List String} {value : Option Node}

/-- What is put at the end of the path takes the place of what was there. -/
theorem put_nil : tree.put (some node) [] = node := by
  cases tree <;> rfl

/-- Nothing is put below a file. -/
theorem put_file {content : Bytes} {executable : Bool} (h : path ≠ []) :
    (file content executable).put value path = file content executable := by
  cases path with
  | nil => exact absurd rfl h
  | cons name path => cases path <;> rfl

/-- Nothing is put below a sink either. -/
theorem put_sink (h : path ≠ []) : sink.put value path = sink := by
  cases path with
  | nil => exact absurd rfl h
  | cons name path => cases path <;> rfl

/-- What is put one step below a directory becomes an entry of it. -/
theorem put_singleton : (dir entries).put value [name] = dir (setEntry name value entries) := rfl

/-- A change below an entry replaces that entry. -/
theorem put_cons {child : Node} (h : entries.lookup name = some child)
    (hput : path ≠ [] ∨ value.isSome) :
    (dir entries).put value (name :: path) =
      dir (setEntry name (some (child.put value path)) entries) := by
  cases path with
  | nil =>
    obtain ⟨node, rfl⟩ := Option.isSome_iff_exists.mp (hput.resolve_left fun hne => hne rfl)
    rw [put_singleton, put_nil]
  | cons second path => rw [put, h]; exact List.cons_ne_nil _ _

/-- Nothing is put below an entry that is not there. -/
theorem put_cons_of_lookup_eq_none (h : entries.lookup name = none) (hpath : path ≠ []) :
    (dir entries).put value (name :: path) = dir entries := by
  cases path with
  | nil => exact absurd rfl hpath
  | cons second path => rw [put, h]; exact List.cons_ne_nil _ _

/-- A directory stays one when something is put below it. -/
theorem put_dir (h : path ≠ []) :
    ∃ changed, (dir entries).put value path = dir changed := by
  cases path with
  | nil => exact absurd rfl h
  | cons name path =>
    by_cases hpath : path = []
    · exact ⟨setEntry name value entries, by rw [hpath]; rfl⟩
    · cases hlookup : entries.lookup name with
      | none => exact ⟨entries, put_cons_of_lookup_eq_none hlookup hpath⟩
      | some child => exact ⟨_, put_cons hlookup (.inl hpath)⟩

/-- A change below a node replaces that node. -/
theorem put_append (h : tree.get path = .ok node) (hrest : rest ≠ []) :
    tree.put value (path ++ rest) = tree.put (some (node.put value rest)) path := by
  induction path generalizing tree with
  | nil =>
    cases h
    rw [put_nil, List.nil_append]
  | cons name path ih =>
    obtain ⟨entries, child, rfl, -, hlookup, hchild⟩ := get_cons_eq_ok_iff.mp h
    rw [List.cons_append, put_cons hlookup (.inl (by simp [hrest])), put_cons hlookup (.inr rfl),
      ih hchild]

/-- A change to an entry of a directory replaces the directory. -/
theorem put_concat (h : tree.get path = .ok (dir entries)) :
    tree.put value (path ++ [name]) = tree.put (some (dir (setEntry name value entries))) path :=
  put_append h (by simp)

/-- What is put in the place of something is found there. -/
theorem get_put_self (h : tree.get path = .ok node) :
    (tree.put (some other) path).get path = .ok other := by
  induction path generalizing tree with
  | nil => rw [put_nil, get_nil]
  | cons name path ih =>
    obtain ⟨entries, child, rfl, hshort, hlookup, hchild⟩ := get_cons_eq_ok_iff.mp h
    rw [put_cons hlookup (.inr rfl)]
    exact get_cons_eq_ok_iff.mpr ⟨_, _, rfl, hshort, lookup_setEntry_self, ih hchild⟩

/-- Only the last of two changes to a node counts. -/
theorem put_put (h : tree.get path = .ok node) {first second : Node} :
    (tree.put (some first) path).put (some second) path = tree.put (some second) path := by
  induction path generalizing tree with
  | nil => rw [put_nil, put_nil]
  | cons name path ih =>
    obtain ⟨entries, child, rfl, -, hlookup, hchild⟩ := get_cons_eq_ok_iff.mp h
    rw [put_cons hlookup (.inr rfl), put_cons lookup_setEntry_self (.inr rfl),
      put_cons hlookup (.inr rfl), setEntry_setEntry, ih hchild]

/-- Putting something where it is changes nothing. -/
theorem put_of_get (h : tree.get path = .ok node) : tree.put (some node) path = tree := by
  induction path generalizing tree with
  | nil =>
    cases h
    exact put_nil
  | cons name path ih =>
    obtain ⟨entries, child, rfl, -, hlookup, hchild⟩ := get_cons_eq_ok_iff.mp h
    rw [put_cons hlookup (.inr rfl), ih hchild, setEntry_of_lookup hlookup]

/-- A change to a place keeps what stands beside it. -/
theorem get_put_of_incomparable (hnot : ¬path <+: rest) (hnot' : ¬rest <+: path) :
    (tree.put value path).get rest = tree.get rest := by
  induction path generalizing tree rest with
  | nil => exact absurd (List.nil_prefix) hnot
  | cons name path ih =>
    cases rest with
    | nil => exact absurd (List.nil_prefix) hnot'
    | cons second rest =>
      cases tree with
      | file content executable => rw [put_file (List.cons_ne_nil _ _)]
      | sink => rw [put_sink (List.cons_ne_nil _ _)]
      | dir entries =>
        by_cases hname : second = name
        · subst hname
          have hpath : path ≠ [] := by
            rintro rfl
            exact hnot (by simp)
          cases hlookup : entries.lookup second with
          | none => rw [put_cons_of_lookup_eq_none hlookup hpath]
          | some child =>
            rw [put_cons hlookup (.inl hpath), get_cons, get_cons, step_dir, step_dir,
              lookup_setEntry_self, hlookup]
            split
            · rfl
            · exact ih (by simpa using hnot) (by simpa using hnot')
        · obtain ⟨value', hput⟩ : ∃ value', (dir entries).put value (name :: path) =
              dir (setEntry name value' entries) ∨
                (dir entries).put value (name :: path) = dir entries := by
            by_cases hpath : path = []
            · exact ⟨value, .inl (by rw [hpath]; rfl)⟩
            · cases hlookup : entries.lookup name with
              | none => exact ⟨none, .inr (put_cons_of_lookup_eq_none hlookup hpath)⟩
              | some child => exact ⟨_, .inl (put_cons hlookup (.inl hpath))⟩
          rcases hput with hput | hput
          · rw [hput, get_cons, get_cons, step_dir, step_dir, lookup_setEntry_of_ne hname]
          · rw [hput]

/-- A place that cannot be reached cannot be reached for the same cause if something below it
changes. -/
theorem get_put_append_of_error {cause : OsCause} (hrest : rest ≠ [])
    (h : tree.get path = .error cause) :
    (tree.put value (path ++ rest)).get path = .error cause := by
  induction path generalizing tree with
  | nil => cases h
  | cons name path ih =>
    have hpath : path ++ rest ≠ [] := by simp [hrest]
    cases tree with
    | file content executable => rw [put_file (by simp), h]
    | sink => rw [put_sink (by simp), h]
    | dir entries =>
      rw [List.cons_append]
      cases hlookup : entries.lookup name with
      | none => rw [put_cons_of_lookup_eq_none hlookup hpath, h]
      | some child =>
        rw [get_cons, step_dir, hlookup] at h
        rw [put_cons hlookup (.inl hpath), get_cons, step_dir, lookup_setEntry_self]
        split
        · rename_i hlong
          rw [if_pos hlong] at h
          exact h
        · rename_i hshort
          rw [if_neg hshort] at h
          exact ih h

/-- A change below a place is a change to what stands there. -/
theorem get_put_append (hrest : rest ≠ []) :
    (tree.put value (path ++ rest)).get path = (tree.get path).map (·.put value rest) := by
  cases h : tree.get path with
  | ok node =>
    rw [put_append h hrest, get_put_self h]
    rfl
  | error cause => exact get_put_append_of_error hrest h

/-- A place that is not at or below a change is found as before, but for the entries of a
directory. -/
theorem get_put_of_not_prefix (hnot : ¬path <+: rest) (h : tree.get rest = .ok node) :
    (tree.put value path).get rest = .ok node ∨
      ∃ before after, node = dir before ∧ (tree.put value path).get rest = .ok (dir after) := by
  by_cases habove : rest <+: path
  · obtain ⟨more, rfl⟩ := habove
    have hmore : more ≠ [] := by
      rintro rfl
      exact hnot (by simp)
    rw [get_put_append hmore, h]
    cases node with
    | file content executable => exact .inl (by simp [Except.map, put_file hmore])
    | sink => exact .inl (by simp [Except.map, put_sink hmore])
    | dir entries =>
      obtain ⟨changed, hchanged⟩ : ∃ changed, (dir entries).put value more = dir changed :=
        put_dir hmore
      exact .inr ⟨entries, changed, rfl, by simp [Except.map, hchanged]⟩
  · exact .inl ((get_put_of_incomparable hnot habove).trans h)

end Put

/-- Whether there is a directory at some components. -/
def IsDirAt (tree : Node) (path : List String) : Prop :=
  ∃ entries, tree.get path = .ok (dir entries)

section Keep

variable {tree node : Node} {path place : List String} {value : Option Node}

/-- Where a directory is, something is. -/
theorem IsDirAt.exists_get (h : tree.IsDirAt place) : ∃ node, tree.get place = .ok node :=
  h.imp' dir fun _ hdir => hdir

/-- A change keeps the directories that are not at or below it. -/
theorem IsDirAt.put (h : tree.IsDirAt place) (hnot : ¬path <+: place) :
    (tree.put value path).IsDirAt place := by
  obtain ⟨entries, hdir⟩ := h
  rcases get_put_of_not_prefix hnot hdir with hsame | ⟨-, after, -, hafter⟩
  · exact ⟨entries, hsame⟩
  · exact ⟨after, hafter⟩

/-- No directory is at or below what is not there. -/
theorem IsDirAt.not_prefix_of_get {cause : OsCause} (h : tree.IsDirAt place)
    (hpath : tree.get path = .error cause) : ¬path <+: place := by
  intro hle
  obtain ⟨entries, hdir⟩ := h
  exact get_ne_ok_of_prefix hpath hle hdir

/-- No directory is at or below a file. -/
theorem IsDirAt.not_prefix_of_file (h : tree.IsDirAt place) (hpath : tree.get path = .ok node)
    (hnode : node.isDir = false) : ¬path <+: place := by
  rintro ⟨rest, rfl⟩
  obtain ⟨entries, hdir⟩ := h
  cases rest with
  | nil =>
    rw [List.append_nil, hpath] at hdir
    cases hdir
    cases hnode
  | cons name rest =>
    obtain ⟨entries, habove⟩ := exists_dir_of_get_append hdir
    rw [hpath] at habove
    cases habove
    cases hnode

end Keep

/-! ### Places where nothing is yet -/

/-- Whether something can be made at a place: nothing is there yet, but a directory for it is. -/
def IsFree (tree : Node) (path : List String) : Prop :=
  ∃ front name entries, path = front ++ [name] ∧ tree.get front = .ok (dir entries) ∧
    name.utf8ByteSize ≤ nameLimit ∧ entries.lookup name = none

namespace IsFree

variable {tree : Node} {path : List String}

/-- Nothing is found on a free path. -/
theorem get_eq_noEntry (h : tree.IsFree path) : tree.get path = .error .noEntry := by
  obtain ⟨front, name, entries, rfl, hfront, hshort, hlookup⟩ := h
  rw [get_concat, hfront, Except.bind]
  exact step_eq_noEntry_iff.mpr ⟨entries, rfl, hshort, hlookup⟩

/-- What is put on a free path is found there. -/
theorem get_put (h : tree.IsFree path) (node : Node) :
    (tree.put (some node) path).get path = .ok node := by
  obtain ⟨front, name, entries, rfl, hfront, hshort, -⟩ := h
  rw [put_concat hfront, get_concat, get_put_self hfront, Except.bind]
  exact step_eq_ok_iff.mpr ⟨_, rfl, hshort, lookup_setEntry_self⟩

/-- What is put on a free path is gone once something else is put there. -/
theorem put_put (h : tree.IsFree path) (node : Node) (value : Option Node) :
    (tree.put (some node) path).put value path = tree.put value path := by
  obtain ⟨front, name, entries, rfl, hfront, -⟩ := h
  rw [put_concat hfront, put_concat (get_put_self hfront), Node.put_put hfront, setEntry_setEntry,
    ← put_concat hfront]

/-- What is made there and removed again leaves nothing behind. -/
theorem put_none (h : tree.IsFree path) : tree.put none path = tree := by
  obtain ⟨front, name, entries, rfl, hfront, -, hlookup⟩ := h
  rw [put_concat hfront, setEntry_none_of_lookup hlookup, put_of_get hfront]

end IsFree

end Node

/-! ### Walks -/

namespace PathName

/-- The components that lead to a path name from the root, by way of a directory. -/
def steps (cwd : List String) (p : PathName) : List String :=
  if p.isAbsolute then p.parts else cwd ++ p.parts

/-- Where a component leads from a place. -/
def onward (done : List String) (part : String) : List String :=
  if part = ".." then done.dropLast else done ++ [part]

/-- The places that a walk leaves on its way. -/
def through : List String → List String → List (List String)
  | _, [] => []
  | done, part :: rest => done :: through (onward done part) rest

/-- The places on the way to a path name. -/
def crossed (cwd : List String) (p : PathName) : List (List String) :=
  through [] (steps cwd p)

/-- Normalizing, which has the last component first, goes on from what it has as `onward` does. -/
theorem reverse_foldl_eq_foldl_onward (parts done : List String) :
    (parts.foldl (fun done part => if part = ".." then done.tail else part :: done)
      done).reverse = parts.foldl onward done.reverse := by
  induction parts generalizing done with
  | nil => rfl
  | cons part parts ih =>
    rw [List.foldl_cons, List.foldl_cons, ih]
    congr 1
    by_cases hpart : part = ".."
    · simp [onward, hpart]
    · simp [onward, hpart]

/-- Components are normalized one after the other. -/
theorem normalize_eq_foldl (parts : List String) : normalize parts = parts.foldl onward [] :=
  reverse_foldl_eq_foldl_onward parts []

/-- A path name is resolved one component after the other. -/
theorem resolve_eq_foldl (cwd : List String) (p : PathName) :
    resolve cwd p = (steps cwd p).foldl onward [] :=
  normalize_eq_foldl _

/-- Places that are passed on the way are those of the first part and then those of the rest. -/
theorem through_append (done parts rest : List String) :
    through done (parts ++ rest) =
      through done parts ++ through (parts.foldl onward done) rest := by
  induction parts generalizing done with
  | nil => rfl
  | cons part parts ih => simp [through, ih]

/-- No component leads to a place with a double dot in it. -/
theorem dots_notMem_foldl_onward {done : List String} (h : ".." ∉ done) (parts : List String) :
    ".." ∉ parts.foldl onward done := by
  induction parts generalizing done with
  | nil => exact h
  | cons part parts ih =>
    apply ih
    unfold onward
    split
    · exact fun hdots => h (List.dropLast_subset _ hdots)
    · rename_i hpart
      simpa [h] using Ne.symm hpart

/-- No double dot is left in a resolved path. -/
theorem dots_notMem_resolve (cwd : List String) (p : PathName) : ".." ∉ resolve cwd p := by
  rw [resolve_eq_foldl]
  exact dots_notMem_foldl_onward List.not_mem_nil _

/-- Components without double dots lead down, one after the other. -/
theorem foldl_onward_eq_append {parts : List String} (h : ".." ∉ parts) (done : List String) :
    parts.foldl onward done = done ++ parts := by
  induction parts generalizing done with
  | nil => exact (List.append_nil done).symm
  | cons part parts ih =>
    obtain ⟨hpart, hparts⟩ := List.ne_and_not_mem_of_not_mem_cons h
    rw [List.foldl_cons, ih hparts, onward, if_neg hpart.symm, List.append_assoc,
      List.singleton_append]

/-- A path without double dots leads where it says. -/
theorem resolve_absolute {parts : List String} (h : ".." ∉ parts) (cwd : List String) :
    resolve cwd (absolute parts) = parts := by
  rw [resolve_eq_foldl]
  exact foldl_onward_eq_append h []

section Child

variable {cwd : List String} {p : PathName} {name : String}

/-- One more component comes last. -/
theorem steps_child : steps cwd (p.child name) = steps cwd p ++ [name] := by
  unfold steps child isAbsolute
  split <;> simp

/-- An entry of a directory is reached through the directory. -/
theorem crossed_child : crossed cwd (p.child name) = crossed cwd p ++ [resolve cwd p] := by
  rw [crossed, steps_child, through_append, ← resolve_eq_foldl]
  rfl

/-- A child of a path name is one name further on. -/
theorem resolve_child (h : name ≠ "..") : resolve cwd (p.child name) = resolve cwd p ++ [name] := by
  rw [resolve_eq_foldl, steps_child, List.foldl_append, ← resolve_eq_foldl, List.foldl_cons,
    List.foldl_nil, onward, if_neg h]

/-- A double dot at the end leads one name back. -/
theorem resolve_child_dots : resolve cwd (p.child "..") = (resolve cwd p).dropLast := by
  rw [resolve_eq_foldl, steps_child, List.foldl_append, ← resolve_eq_foldl]
  rfl

/-- A path name is a child of its parent. -/
theorem child_parent (h : p.parts ≠ []) : p.parent.child p.name = p := by
  obtain ⟨slashes, parts⟩ := p
  have hparts : parts.dropLast ++ [parts.getLast?.getD ""] = parts := by
    rw [List.getLast?_eq_some_getLast h, Option.getD_some, List.dropLast_concat_getLast]
  simp only [parent, child, name, hparts]

end Child

end PathName

namespace FileTree

open PathName

variable {root node : Node} {done parts path cwd : List String} {p : PathName}
  {found : Option Node}

/-- A double dot leads back from a directory. -/
theorem walk_dots {rest : List String} : walk root done (".." :: rest) =
    match root.get done with
    | .ok (.dir _) => walk root done.dropLast rest
    | .ok _ => .error .notDirectory
    | .error cause => .error cause :=
  walk.eq_2 root done rest

/-- A name leads on to what is there, and to nothing only at the end. -/
theorem walk_name {name : String} {rest : List String} (h : name ≠ "..") :
    walk root done (name :: rest) =
      match root.get (done ++ [name]) with
      | .ok _ => walk root (done ++ [name]) rest
      | .error .noEntry =>
        if rest.isEmpty then .ok ⟨done ++ [name], none⟩ else .error .noEntry
      | .error cause => .error cause :=
  walk.eq_3 root done name rest h

/-- What is found one step below something is found in a directory. -/
theorem isDirAt_of_get_concat {name : String} (h : root.get (done ++ [name]) = .ok node) :
    root.IsDirAt done :=
  Node.exists_dir_of_get_append h

/-- Where just the last name is missing, the rest of the path leads to a directory. -/
theorem isDirAt_of_get_concat_noEntry {name : String} (hdone : root.get done = .ok node)
    (h : root.get (done ++ [name]) = .error .noEntry) : root.IsDirAt done := by
  rw [Node.get_concat, hdone, Except.bind] at h
  obtain ⟨entries, rfl, -⟩ := Node.step_eq_noEntry_iff.mp h
  exact ⟨entries, hdone⟩

/-- A double dot leads from a directory to a directory. -/
theorem isDirAt_dropLast (h : root.IsDirAt done) : root.IsDirAt done.dropLast := by
  rcases List.eq_nil_or_concat done with rfl | ⟨front, last, rfl⟩
  · exact h
  · obtain ⟨entries, hdone⟩ := h
    rw [List.concat_eq_append] at hdone ⊢
    rw [List.dropLast_concat]
    exact isDirAt_of_get_concat hdone

/-- A walk goes up from directories only. -/
theorem walk_dots_eq_ok_iff {place : Place} : walk root done (".." :: parts) = .ok place ↔
    root.IsDirAt done ∧ walk root done.dropLast parts = .ok place := by
  rw [walk_dots]
  constructor
  · intro h
    split at h
    · rename_i entries hdir
      exact ⟨⟨entries, hdir⟩, h⟩
    · cases h
    · cases h
  · rintro ⟨⟨entries, hdir⟩, hrest⟩
    rw [hdir]
    exact hrest

/-- A walk goes on from what is there, and ends at the last component if that is missing. -/
theorem walk_name_eq_ok_iff {name : String} (hname : name ≠ "..") {place : Place} :
    walk root done (name :: parts) = .ok place ↔
      (∃ node, root.get (done ++ [name]) = .ok node) ∧
          walk root (done ++ [name]) parts = .ok place ∨
        root.get (done ++ [name]) = .error .noEntry ∧ parts = [] ∧
          place = ⟨done ++ [name], none⟩ := by
  rw [walk_name hname]
  constructor
  · intro h
    split at h
    · rename_i node hnode
      exact .inl ⟨⟨node, hnode⟩, h⟩
    · rename_i hnone
      split at h
      · rename_i hlast
        cases h
        exact .inr ⟨hnone, List.isEmpty_iff.mp hlast, rfl⟩
      · cases h
    · cases h
  · rintro (⟨⟨node, hnode⟩, hrest⟩ | ⟨hnone, rfl, rfl⟩)
    · rw [hnode]
      exact hrest
    · rw [hnone]
      rfl

/-- A walk succeeds if it leaves only directories, and then it ends at the place that the components
spell, with what stands there. -/
theorem walk_eq_ok_iff (hdone : ∃ node, root.get done = .ok node) :
    walk root done parts = .ok ⟨path, found⟩ ↔
      (∀ place ∈ through done parts, root.IsDirAt place) ∧ path = parts.foldl onward done ∧
        root.get path = found.elim (.error .noEntry) .ok := by
  induction parts generalizing done with
  | nil =>
    obtain ⟨node, hnode⟩ := hdone
    constructor
    · intro h
      obtain ⟨rfl, rfl⟩ : done = path ∧ some node = found := by
        simpa [walk, hnode, Except.toOption] using h
      exact ⟨by simp [through], rfl, hnode⟩
    · rintro ⟨-, rfl, hfound⟩
      rw [hnode] at hfound
      cases found with
      | none => cases hfound
      | some other =>
        cases hfound
        simp [walk, hnode, Except.toOption]
  | cons part parts ih =>
    simp only [through, List.forall_mem_cons, List.foldl_cons]
    by_cases hpart : part = ".."
    · subst hpart
      have honward : onward done ".." = done.dropLast := rfl
      rw [walk_dots_eq_ok_iff, honward, and_assoc]
      exact and_congr_right fun hdir => ih (isDirAt_dropLast hdir).exists_get
    · have honward : onward done part = done ++ [part] := if_neg hpart
      rw [walk_name_eq_ok_iff hpart, honward]
      constructor
      · rintro (⟨⟨node, hnode⟩, hrest⟩ | ⟨hnone, rfl, hplace⟩)
        · obtain ⟨hthrough, hpath⟩ := (ih ⟨node, hnode⟩).mp hrest
          exact ⟨⟨isDirAt_of_get_concat hnode, hthrough⟩, hpath⟩
        · obtain ⟨rfl, rfl⟩ := Place.mk.inj hplace
          obtain ⟨node, hnode⟩ := hdone
          exact ⟨⟨isDirAt_of_get_concat_noEntry hnode hnone, by simp [through]⟩, rfl, hnone⟩
      · rintro ⟨⟨-, hrest⟩, hpath, hfound⟩
        cases hget : root.get (done ++ [part]) with
        | ok node => exact .inl ⟨⟨node, rfl⟩, (ih ⟨node, hget⟩).mpr ⟨hrest, hpath, hfound⟩⟩
        | error cause =>
          cases parts with
          | cons second parts =>
            -- the walk would have to leave what is not there
            obtain ⟨entries, hdir⟩ := hrest _ List.mem_cons_self
            rw [hget] at hdir
            cases hdir
          | nil =>
            rw [List.foldl_nil] at hpath
            rw [hpath, hget] at hfound
            cases found with
            | some node => cases hfound
            | none =>
              cases hfound
              exact .inr ⟨rfl, rfl, by rw [hpath]⟩

/-- A path name leads to a place just when all places on the way are directories. Then this is the
place that it resolves to, with what is there. -/
theorem locate_eq_ok_iff : locate root cwd p = .ok ⟨path, found⟩ ↔
    (∀ place ∈ crossed cwd p, root.IsDirAt place) ∧ path = resolve cwd p ∧
      root.get path = found.elim (.error .noEntry) .ok := by
  rw [resolve_eq_foldl]
  exact walk_eq_ok_iff ⟨root, rfl⟩

/-- Something is found just where all places on the way are directories and it is there. -/
theorem find_eq_ok_iff : find root cwd p = .ok node ↔
    (∀ place ∈ crossed cwd p, root.IsDirAt place) ∧ root.get (resolve cwd p) = .ok node := by
  constructor
  · intro h
    unfold find at h
    split at h
    · rename_i path found hlocate
      cases h
      obtain ⟨hcrossed, rfl, hfound⟩ := locate_eq_ok_iff.mp hlocate
      exact ⟨hcrossed, hfound⟩
    · cases h
    · cases h
  · rintro ⟨hcrossed, hfound⟩
    have hlocate : locate root cwd p = .ok ⟨resolve cwd p, some node⟩ :=
      locate_eq_ok_iff.mpr ⟨hcrossed, rfl, hfound⟩
    rw [find, hlocate]

/-- What is found is at the place that the path name resolves to. -/
theorem locate_of_find (h : find root cwd p = .ok node) :
    locate root cwd p = .ok ⟨resolve cwd p, some node⟩ := by
  obtain ⟨hcrossed, hnode⟩ := find_eq_ok_iff.mp h
  exact locate_eq_ok_iff.mpr ⟨hcrossed, rfl, hnode⟩

/-! ### Entries of a directory -/

/-- An entry of a directory is looked for in the directory. -/
theorem locate_child_eq_ok_iff {name : String} (hname : name ≠ "..") :
    locate root cwd (p.child name) = .ok ⟨path, found⟩ ↔
      ∃ entries, find root cwd p = .ok (.dir entries) ∧ path = resolve cwd p ++ [name] ∧
        name.utf8ByteSize ≤ Node.nameLimit ∧ entries.lookup name = found := by
  have hcrossed : (∀ place ∈ crossed cwd (p.child name), root.IsDirAt place) ↔
      (∀ place ∈ crossed cwd p, root.IsDirAt place) ∧ root.IsDirAt (resolve cwd p) := by
    rw [crossed_child]
    simp only [List.forall_mem_append, List.forall_mem_singleton]
  rw [locate_eq_ok_iff, hcrossed, resolve_child hname]
  constructor
  · rintro ⟨⟨hway, entries, hdir⟩, rfl, hfound⟩
    rw [Node.get_concat, hdir, Except.bind] at hfound
    obtain ⟨same, hsame, hshort, hlookup⟩ := Node.step_eq_elim_iff.mp hfound
    cases hsame
    exact ⟨entries, find_eq_ok_iff.mpr ⟨hway, hdir⟩, rfl, hshort, hlookup⟩
  · rintro ⟨entries, hfind, rfl, hshort, hlookup⟩
    obtain ⟨hway, hdir⟩ := find_eq_ok_iff.mp hfind
    refine ⟨⟨hway, entries, hdir⟩, rfl, ?_⟩
    rw [Node.get_concat, hdir, Except.bind]
    exact Node.step_eq_elim_iff.mpr ⟨entries, rfl, hshort, hlookup⟩

/-- A directory after a change to one of its entries. -/
theorem find_put_entry {name : String} {entries : List (String × Node)} {value : Option Node}
    (h : find root cwd p = .ok (.dir entries))
    (hoff : ∀ place ∈ crossed cwd p, ¬resolve cwd p ++ [name] <+: place) :
    find (root.put value (resolve cwd p ++ [name])) cwd p =
      .ok (.dir (Node.setEntry name value entries)) := by
  obtain ⟨hcrossed, hget⟩ := find_eq_ok_iff.mp h
  refine find_eq_ok_iff.mpr ⟨fun place hplace => (hcrossed place hplace).put (hoff place hplace),
    ?_⟩
  rw [Node.get_put_append (by simp), hget]
  rfl

/-! ### Files -/

/-- What is at a place counts as a file with some bytes; a sink holds none. -/
def IsContent (bytes : Bytes) : Node → Prop
  | .file content _ => bytes = content
  | .sink => bytes = []
  | .dir _ => False

/-- Some bytes are read just where a node with this content is found. -/
theorem read_eq_ok_iff {bytes : Bytes} : read root cwd p = .ok bytes ↔
    ∃ node, find root cwd p = .ok node ∧ IsContent bytes node := by
  unfold read
  cases find root cwd p with
  | error cause => simp
  | ok node => cases node <;> simp [IsContent, eq_comm]

/-! ### What keeps a file -/

/-- Whether a place is neither at nor above anything that one comes by on the way to a path name. -/
def IsOffWay (cwd : List String) (p : PathName) (path : List String) : Prop :=
  ¬path <+: resolve cwd p ∧ ∀ place ∈ crossed cwd p, ¬path <+: place

/-- Below a path off the way every path is off it. -/
theorem IsOffWay.mono {longer : List String} (h : IsOffWay cwd p path) (hle : path <+: longer) :
    IsOffWay cwd p longer :=
  ⟨fun hlonger => h.1 (hle.trans hlonger),
    fun place hplace hlonger => h.2 place hplace (hle.trans hlonger)⟩

/-- What is not there is not on the way to something that is. -/
theorem isOffWay_of_get {cause : OsCause} (h : find root cwd p = .ok node)
    (hpath : root.get path = .error cause) : IsOffWay cwd p path := by
  obtain ⟨hcrossed, hnode⟩ := find_eq_ok_iff.mp h
  exact ⟨fun hle => Node.get_ne_ok_of_prefix hpath hle hnode,
    fun place hplace => (hcrossed place hplace).not_prefix_of_get hpath⟩

/-- A change off the way to a file keeps the file. -/
theorem find_put {value : Option Node} (h : find root cwd p = .ok node)
    (hnode : node.isDir = false) (hpath : IsOffWay cwd p path) :
    find (root.put value path) cwd p = .ok node := by
  obtain ⟨hcrossed, hget⟩ := find_eq_ok_iff.mp h
  refine find_eq_ok_iff.mpr ⟨fun place hplace => (hcrossed place hplace).put (hpath.2 place hplace),
    ?_⟩
  rcases Node.get_put_of_not_prefix hpath.1 hget with hsame | ⟨before, after, hbefore, -⟩
  · exact hsame
  · rw [hbefore] at hnode
    cases hnode

/-- What takes the place of a file is found there. -/
theorem find_put_self {new : Node} (h : find root cwd p = .ok node) (hnode : node.isDir = false) :
    find (root.put (some new) (resolve cwd p)) cwd p = .ok new := by
  obtain ⟨hcrossed, hget⟩ := find_eq_ok_iff.mp h
  refine find_eq_ok_iff.mpr ⟨fun place hplace => ?_, Node.get_put_self hget⟩
  exact (hcrossed place hplace).put ((hcrossed place hplace).not_prefix_of_file hget hnode)

/-- What has content is no directory. -/
theorem IsContent.isDir {bytes : Bytes} (h : IsContent bytes node) : node.isDir = false := by
  cases node with
  | dir entries => exact h.elim
  | file content executable => rfl
  | sink => rfl

/-- A change off the way to a file keeps what is read. -/
theorem read_put {bytes : Bytes} {value : Option Node} (h : read root cwd p = .ok bytes)
    (hpath : IsOffWay cwd p path) : read (root.put value path) cwd p = .ok bytes := by
  obtain ⟨node, hfind, hcontent⟩ := read_eq_ok_iff.mp h
  exact read_eq_ok_iff.mpr ⟨node, find_put hfind hcontent.isDir hpath, hcontent⟩

/-- Writing another file that is off the way keeps what is read. -/
theorem read_write {bytes content : Bytes} {q : PathName} {made : Node}
    (h : read root cwd p = .ok bytes) (hoff : IsOffWay cwd p (resolve cwd q))
    (hmade : write root cwd q content = .ok made) : read made cwd p = .ok bytes := by
  unfold write at hmade
  split at hmade
  · cases hmade
  · cases hmade
    exact h
  · rename_i path executable hlocate
    cases hmade
    rw [(locate_eq_ok_iff.mp hlocate).2.1]
    exact read_put h hoff
  · rename_i path hlocate
    cases hmade
    rw [(locate_eq_ok_iff.mp hlocate).2.1]
    exact read_put h hoff
  · cases hmade

/-- Nothing can be written in place of the directory above another one. -/
theorem exists_write_child_dots (root : Node) (cwd : List String) (p : PathName)
    (content : Bytes) : ∃ fault, write root cwd (p.child "..") content = .error fault := by
  unfold write
  cases hlocate : locate root cwd (p.child "..") with
  | error cause => exact ⟨_, rfl⟩
  | ok place =>
    obtain ⟨path, found⟩ := place
    obtain ⟨hcrossed, rfl, hfound⟩ := locate_eq_ok_iff.mp hlocate
    have hdir : root.IsDirAt (resolve cwd p) := hcrossed _ (by simp [crossed_child])
    obtain ⟨entries, habove⟩ := isDirAt_dropLast hdir
    rw [resolve_child_dots, habove] at hfound
    cases found with
    | none => cases hfound
    | some node =>
      cases hfound
      exact ⟨_, rfl⟩

/-- A directory that is made was not there. -/
theorem get_resolve_of_mkdir {made : Node} (hmade : mkdir root cwd p = .ok made) :
    root.get (resolve cwd p) = .error .noEntry := by
  unfold mkdir at hmade
  split at hmade
  · cases hmade
  · rename_i path hlocate
    obtain ⟨-, hpath, hnone⟩ := locate_eq_ok_iff.mp hlocate
    rwa [hpath] at hnone
  · cases hmade

/-- Making a directory keeps what is read. -/
theorem read_mkdir {bytes : Bytes} {q : PathName} {made : Node}
    (h : read root cwd p = .ok bytes) (hmade : mkdir root cwd q = .ok made) :
    read made cwd p = .ok bytes := by
  unfold mkdir at hmade
  split at hmade
  · cases hmade
  · rename_i path hlocate
    cases hmade
    obtain ⟨node, hfind, -⟩ := read_eq_ok_iff.mp h
    exact read_put h (isOffWay_of_get hfind (locate_eq_ok_iff.mp hlocate).2.2)
  · cases hmade

/-- So does making it unless it is there. -/
theorem read_provideDir {bytes : Bytes} {q : PathName} (h : read root cwd p = .ok bytes) :
    read (provideDir root cwd q).2 cwd p = .ok bytes := by
  unfold provideDir
  split
  · rename_i hmade
    exact read_mkdir h hmade
  · exact h

/-- Making directories keeps every file. -/
theorem read_makeDirs {bytes : Bytes} {depth : Nat} {q : PathName}
    (h : read root cwd p = .ok bytes) :
    read (makeDirs root cwd depth q).2 cwd p = .ok bytes := by
  induction depth generalizing q with
  | zero => exact read_provideDir h
  | succ depth ih =>
    rw [makeDirs]
    dsimp only
    split
    · split
      · exact read_provideDir ih
      · exact ih
    · exact read_provideDir h

end FileTree

end FactoryDowngrade
