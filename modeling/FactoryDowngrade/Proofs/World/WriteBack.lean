import FactoryDowngrade.Proofs.World.FileTree
import FactoryDowngrade.World.WriteBack
import Mathlib.Algebra.Group.Nat.Defs
import Mathlib.Data.List.Nodup
import Mathlib.Data.List.Perm.Subperm

/-!
# Replacing a file is all or nothing

The name of a temporary file belongs to no other file, so that making and removing it leaves the
directory exactly as it was. Whether a replacement succeeds is known before it starts: either
something is in its way, and then the tree stays what it is, or the file has its new content and
nothing else has changed.
-/

namespace FactoryDowngrade

/-! ### Names with counts -/

namespace Quoted

/-- The value of a hexadecimal digit. -/
def hexValue (c : Char) : Nat :=
  if c.isDigit then c.toNat - 48 else c.toNat - 87

/-- The number that hexadecimal digits spell. -/
def spelled (digits : List Char) : Nat :=
  digits.foldl (fun n c => 16 * n + hexValue c) 0

/-- The digits of a number below sixteen have its value. -/
theorem hexValue_digitChar : ∀ n < 16, hexValue n.digitChar = n := by
  decide

/-- A number is read back from its hexadecimal digits. -/
theorem spelled_toDigits (n : Nat) : spelled (Nat.toDigits 16 n) = n := by
  induction n using Nat.strongRecOn with
  | ind n ih =>
    rw [Nat.toDigits_eq_if (by omega)]
    split
    · rename_i hsmall
      simp [spelled, hexValue_digitChar n hsmall]
    · have hquotient := ih (n / 16) (by omega)
      unfold spelled at hquotient ⊢
      rw [List.foldl_append, hquotient, List.foldl_cons, List.foldl_nil,
        hexValue_digitChar _ (by omega)]
      omega

/-- Zeros alone spell zero. -/
theorem spelled_replicate_zero (count : Nat) : spelled (List.replicate count '0') = 0 := by
  unfold spelled
  induction count with
  | zero => rfl
  | succ count ih => simpa [List.replicate_succ, hexValue] using ih

/-- It is so whatever their number is filled up to. -/
theorem spelled_hex (width n : Nat) : spelled (hex width n) = n := by
  have hzeros := spelled_replicate_zero (width - (Nat.toDigits 16 n).length)
  have hdigits := spelled_toDigits n
  unfold spelled at hzeros hdigits ⊢
  rw [hex, List.foldl_append, hzeros, hdigits]

/-- So different numbers have different digits. -/
theorem hex_injective (width : Nat) : Function.Injective (hex width) :=
  Function.LeftInverse.injective (spelled_hex width)

/-- A number that fits a width takes exactly that many digits. -/
theorem length_hex {width n : Nat} (hwidth : 0 < width) (h : n < 16 ^ width) :
    (hex width n).length = width := by
  have hfits := (Nat.length_toDigits_le_iff (by omega) hwidth).mpr h
  simp only [hex, List.length_append, List.length_replicate]
  omega

/-- A hexadecimal digit takes one byte. -/
theorem utf8Size_of_mem_toDigits {c : Char} {n : Nat} (h : c ∈ Nat.toDigits 16 n) :
    c.utf8Size = 1 := by
  have hdigit : ∀ n < 16, n.digitChar.utf8Size = 1 := by decide
  induction n using Nat.strongRecOn with
  | ind n ih =>
    rw [Nat.toDigits_eq_if (by omega)] at h
    split at h
    · rw [List.mem_singleton.mp h]
      exact hdigit n (by omega)
    · rcases List.mem_append.mp h with hfront | hlast
      · exact ih (n / 16) (by omega) hfront
      · rw [List.mem_singleton.mp hlast]
        exact hdigit _ (by omega)

/-- So does each of those that are filled up. -/
theorem utf8Size_of_mem_hex {c : Char} {width n : Nat} (h : c ∈ hex width n) : c.utf8Size = 1 := by
  rcases List.mem_append.mp h with hzero | hdigit
  · rw [List.eq_of_mem_replicate hzero]
    decide
  · exact utf8Size_of_mem_toDigits hdigit

/-- A text of characters that take one byte each takes as many bytes as it has characters. -/
theorem utf8ByteSize_ofList {chars : List Char} (h : ∀ c ∈ chars, c.utf8Size = 1) :
    (String.ofList chars).utf8ByteSize = chars.length := by
  induction chars with
  | nil => rfl
  | cons c chars ih =>
    rw [List.forall_mem_cons] at h
    rw [String.ofList_cons, String.utf8ByteSize_append, String.utf8ByteSize_singleton, h.1, ih h.2,
      List.length_cons, Nat.add_comm]

end Quoted

namespace Scratch

/-- Different counts have different tags. -/
theorem tag_injective : Function.Injective tag := by
  intro m n h
  exact Quoted.hex_injective 8 (String.ofList_injective h)

/-- A tag takes eight bytes, as long as its count has no more digits. -/
theorem utf8ByteSize_tag {count : Nat} (h : count < 16 ^ 8) : (tag count).utf8ByteSize = 8 := by
  rw [tag, Quoted.utf8ByteSize_ofList fun c hc => Quoted.utf8Size_of_mem_hex hc,
    Quoted.length_hex (by omega) h]

/-- The names of the scratch directories for a file are all of one size. -/
theorem utf8ByteSize_directoryName (file : String) {count other : Nat} (hcount : count < 16 ^ 8)
    (hother : other < 16 ^ 8) :
    (directoryName file count).utf8ByteSize = (directoryName file other).utf8ByteSize := by
  unfold directoryName
  simp only [toString, String.utf8ByteSize_append, utf8ByteSize_tag hcount, utf8ByteSize_tag hother]

end Scratch

namespace WriteBack

open PathName

/-- The name of a temporary file has the tag behind the name of the file, with dots before both. -/
theorem toList_draftName (name : String) (count : Nat) :
    (draftName name count).toList =
      '.' :: (name.toList ++ '.' :: (Scratch.tag count).toList) := by
  simp [draftName, toString]

/-- Different counts have different names. -/
theorem draftName_injective (name : String) : Function.Injective (draftName name) := by
  intro m n h
  have hlist := congrArg String.toList h
  rw [toList_draftName, toList_draftName] at hlist
  have htags := List.append_cancel_left (List.cons.inj hlist).2
  exact Scratch.tag_injective (String.toList_injective (List.cons.inj htags).2)

/-- No such name is a double dot. -/
theorem draftName_ne_dots (name : String) (count : Nat) : draftName name count ≠ ".." := by
  intro h
  have hlist := congrArg String.toList h
  have hlength := congrArg List.length hlist
  have htag := (Nat.length_toDigits_pos : 0 < (Nat.toDigits 16 count).length)
  rw [toList_draftName] at hlist hlength
  simp [Scratch.tag, Quoted.hex] at hlength
  omega

/-- There are more names to choose from than there are files, so that one of them is free. -/
theorem exists_freeName (taken : List String) (name : String) :
    ∃ count, freeName taken name = draftName name count ∧ freeName taken name ∉ taken := by
  have hfree : ((List.range (taken.length + 1)).map (draftName name)).find?
      (fun candidate => !taken.contains candidate) ≠ none := by
    intro hnone
    have hall : (List.range (taken.length + 1)).map (draftName name) ⊆ taken := by
      intro candidate hcandidate
      simpa using List.find?_eq_none.mp hnone candidate hcandidate
    have hnodup : ((List.range (taken.length + 1)).map (draftName name)).Nodup :=
      List.nodup_range.map (draftName_injective name)
    have hlength := (List.subperm_of_subset hnodup hall).length_le
    simp only [List.length_map, List.length_range] at hlength
    omega
  obtain ⟨candidate, hcandidate⟩ := Option.ne_none_iff_exists'.mp hfree
  have hnot := List.find?_some hcandidate
  obtain ⟨count, -, rfl⟩ := List.mem_map.mp (List.mem_of_find?_eq_some hcandidate)
  rw [freeName, hcandidate]
  exact ⟨count, rfl, by simpa using hnot⟩

/-! ### The temporary file -/

section Draft

variable {tree node : Node} {cwd : List String} {p : PathName} {entries : List (String × Node)}

/-- The name of the temporary file for a file. -/
def draftOf (tree : Node) (cwd : List String) (p : PathName) : String :=
  freeName (namesIn tree (resolve cwd p.parent)) p.name

/-- The place of the temporary file. -/
def draftPlace (tree : Node) (cwd : List String) (p : PathName) : List String :=
  resolve cwd p.parent ++ [draftOf tree cwd p]

/-- Neither is the name of the temporary file that is made. -/
theorem draftOf_ne_dots (tree : Node) (cwd : List String) (p : PathName) :
    draftOf tree cwd p ≠ ".." := by
  obtain ⟨count, hcount, -⟩ := exists_freeName (namesIn tree (resolve cwd p.parent)) p.name
  rw [draftOf, hcount]
  exact draftName_ne_dots _ _

/-- The directory of a file is there, and a temporary file can be made in it. -/
structure HasRoom (tree : Node) (cwd : List String) (p : PathName)
    (entries : List (String × Node)) : Prop where
  dir : FileTree.find tree cwd (.absolute (resolve cwd p.parent)) = .ok (.dir entries)
  free : entries.lookup (draftOf tree cwd p) = none
  short : (draftOf tree cwd p).utf8ByteSize ≤ Node.nameLimit

/-- The place of a temporary file in a tree that has its directory. -/
theorem locate_temporary {other : Node} {found : List (String × Node)}
    (hdir : FileTree.find other cwd (.absolute (resolve cwd p.parent)) = .ok (.dir found))
    (hshort : (draftOf tree cwd p).utf8ByteSize ≤ Node.nameLimit) :
    FileTree.locate other cwd (temporary tree cwd p) =
      .ok ⟨draftPlace tree cwd p, found.lookup (draftOf tree cwd p)⟩ := by
  have hlocate := (FileTree.locate_child_eq_ok_iff (draftOf_ne_dots tree cwd p)).mpr
    ⟨found, hdir, rfl, hshort, rfl⟩
  rwa [resolve_absolute (dots_notMem_resolve cwd p.parent)] at hlocate

/-- If a temporary file has a place, there is room for it. -/
theorem exists_hasRoom {place : Place}
    (h : FileTree.locate tree cwd (temporary tree cwd p) = .ok place) :
    ∃ entries, HasRoom tree cwd p entries := by
  obtain ⟨path, found⟩ := place
  obtain ⟨entries, hdir, -, hshort, -⟩ :=
    (FileTree.locate_child_eq_ok_iff (draftOf_ne_dots tree cwd p)).mp h
  refine ⟨entries, hdir, ?_, hshort⟩
  apply Node.lookup_eq_none_of_notMem
  have hget := (FileTree.find_eq_ok_iff.mp hdir).2
  rw [resolve_absolute (dots_notMem_resolve cwd p.parent)] at hget
  have hnames : namesIn tree (resolve cwd p.parent) = entries.map (·.1) := by
    rw [namesIn, hget]
  rw [← hnames]
  exact (exists_freeName _ _).choose_spec.2

namespace HasRoom

/-- The entries of the directory are where the path to it leads. -/
theorem get (h : HasRoom tree cwd p entries) :
    tree.get (resolve cwd p.parent) = .ok (.dir entries) := by
  have hget := (FileTree.find_eq_ok_iff.mp h.dir).2
  rwa [resolve_absolute (dots_notMem_resolve cwd p.parent)] at hget

/-- A temporary file can be made at its place. -/
theorem isFree (h : HasRoom tree cwd p entries) : tree.IsFree (draftPlace tree cwd p) :=
  ⟨_, _, entries, rfl, h.get, h.short, h.free⟩

/-- The directory once the temporary file is made. -/
theorem find_put (h : HasRoom tree cwd p entries) (draft : Node) :
    FileTree.find (tree.put (some draft) (draftPlace tree cwd p)) cwd
        (.absolute (resolve cwd p.parent)) =
      .ok (.dir (Node.setEntry (draftOf tree cwd p) (some draft) entries)) := by
  have hresolve := resolve_absolute (dots_notMem_resolve cwd p.parent) cwd
  have hentry := @FileTree.find_put_entry tree cwd _ (draftOf tree cwd p) entries (some draft) h.dir
  rw [hresolve] at hentry
  apply hentry
  intro place hplace
  exact ((FileTree.find_eq_ok_iff.mp h.dir).1 place hplace).not_prefix_of_get
    h.isFree.get_eq_noEntry

/-- Removing a temporary file that was never made changes nothing. -/
theorem discard_self (h : HasRoom tree cwd p entries) :
    discard tree cwd (temporary tree cwd p) = tree := by
  rw [discard, locate_temporary h.dir h.short]
  exact h.isFree.put_none

/-- Making the temporary file and removing it changes nothing. -/
theorem discard_put (h : HasRoom tree cwd p entries) (draft : Node) :
    discard (tree.put (some draft) (draftPlace tree cwd p)) cwd (temporary tree cwd p) = tree := by
  rw [discard, locate_temporary (h.find_put draft) h.short]
  dsimp only
  rw [h.isFree.put_put, h.isFree.put_none]

/-- A file whose directory has room for a temporary file is an entry of that directory. -/
theorem exists_lookup (h : HasRoom tree cwd p entries)
    (hfind : FileTree.find tree cwd p = .ok node) (hnode : node.isDir = false) :
    resolve cwd p = resolve cwd p.parent ++ [p.name] ∧ entries.lookup p.name = some node := by
  obtain ⟨hcrossed, hget⟩ := FileTree.find_eq_ok_iff.mp hfind
  have hparts : p.parts ≠ [] := by
    intro hparts
    have hparent : p.parent = p := by
      obtain ⟨slashes, parts⟩ := p
      cases hparts
      rfl
    have hdir := h.get
    rw [hparent, hget] at hdir
    cases hdir
    cases hnode
  have hchild := child_parent hparts
  have hname : p.name ≠ ".." := by
    intro hdots
    rw [← hchild, hdots, resolve_child_dots] at hget
    obtain ⟨above, habove⟩ := FileTree.isDirAt_dropLast ⟨entries, h.get⟩
    rw [habove] at hget
    cases hget
    cases hnode
  have hresolve : resolve cwd p = resolve cwd p.parent ++ [p.name] := by
    rw [← resolve_child hname, hchild]
  refine ⟨hresolve, ?_⟩
  rw [hresolve, Node.get_concat, h.get, Except.bind] at hget
  obtain ⟨same, hsame, -, hlookup⟩ := Node.step_eq_ok_iff.mp hget
  cases hsame
  exact hlookup

/-- Making the temporary file, replacing the file and removing the temporary file replaces the
file. -/
theorem discard_put_put (h : HasRoom tree cwd p entries)
    (hfind : FileTree.find tree cwd p = .ok node) (hnode : node.isDir = false)
    {draft new : Node} :
    discard ((tree.put (some draft) (draftPlace tree cwd p)).put (some new) (resolve cwd p)) cwd
        (temporary tree cwd p) = tree.put (some new) (resolve cwd p) := by
  obtain ⟨hresolve, hlookup⟩ := h.exists_lookup hfind hnode
  have hne : draftOf tree cwd p ≠ p.name := by
    intro heq
    rw [← heq, h.free] at hlookup
    cases hlookup
  have hfile := (FileTree.find_eq_ok_iff.mp hfind).2
  rw [hresolve] at hfile ⊢
  have hmade : tree.put (some draft) (draftPlace tree cwd p) =
      tree.put (some (.dir (Node.setEntry (draftOf tree cwd p) (some draft) entries)))
        (resolve cwd p.parent) := Node.put_concat h.get
  have hdir := resolve_absolute (dots_notMem_resolve cwd p.parent) cwd
  have hreplaced := @FileTree.find_put_entry _ cwd _ p.name _ (some new) (h.find_put draft)
  rw [hdir] at hreplaced
  have hlocate := locate_temporary (hreplaced fun place hplace =>
    ((FileTree.find_eq_ok_iff.mp h.dir).1 place hplace).not_prefix_of_file hfile hnode) h.short
  -- replacing the file commutes with making the temporary file, which is then undone
  rw [discard, hlocate]
  dsimp only
  rw [hmade, Node.put_concat (Node.get_put_self h.get), Node.put_put h.get, draftPlace,
    Node.put_concat (Node.get_put_self h.get), Node.put_put h.get, Node.setEntry_comm hne hlookup,
    Node.setEntry_setEntry, Node.setEntry_none_of_lookup, Node.put_concat h.get]
  rw [Node.lookup_setEntry_of_ne hne]
  exact h.free

end HasRoom

end Draft

/-! ### The replacement as a whole -/

/-- A node with another content; a sink becomes a file. -/
def refilled (content : Bytes) : Node → Node
  | .file _ executable => .file content executable
  | _ => .file content false

/-- A file with new content is no directory. -/
theorem isDir_refilled (content : Bytes) (node : Node) : (refilled content node).isDir = false := by
  cases node <;> rfl

/-- A file that is replaced has its new content. -/
theorem read_put_refilled {tree node : Node} {cwd : List String} {p : PathName} (content : Bytes)
    (hfind : FileTree.find tree cwd p = .ok node) (hnode : node.isDir = false) :
    FileTree.read (tree.put (some (refilled content node)) (resolve cwd p)) cwd p =
      .ok content := by
  refine FileTree.read_eq_ok_iff.mpr ⟨_, FileTree.find_put_self hfind hnode, ?_⟩
  cases node <;> rfl

/-- What keeps a file from being replaced: that the temporary file cannot be made, or the first of
the steps that fails. -/
def obstacle? (weather : Weather) (tree : Node) (cwd : List String) (p : PathName) :
    Option Fault :=
  let draft := temporary tree cwd p
  let place :=
    match FileTree.locate tree cwd draft with
    | .error cause => some (.known cause)
    | .ok _ => none
  ((weather .create).or place).map (.on draft.toText ·)
    |>.or ((weather .write).map (.on draft.toText ·))
    |>.or ((weather .sync).map (.on draft.toText ·))
    |>.or ((weather .readMode).map (.on p.toText ·))
    |>.or ((weather .changeMode).map (.on draft.toText ·))
    |>.or ((weather .replace).map (⟨·, draft.toText, some p.toText⟩))

/-- A replacement meets an obstacle and changes nothing, or it puts the new content in the place of
the old one and changes nothing else. -/
theorem run_eq {tree node : Node} {cwd : List String} {p : PathName} (weather : Weather)
    (content : Bytes) (hfind : FileTree.find tree cwd p = .ok node) (hnode : node.isDir = false) :
    run weather tree cwd p content =
      match obstacle? weather tree cwd p with
      | some fault => (.error fault, tree)
      | none => (.ok (), tree.put (some (refilled content node)) (resolve cwd p)) := by
  unfold run obstacle? prepare
  dsimp only
  cases hlocate : FileTree.locate tree cwd (temporary tree cwd p) with
  | error cause =>
    have hdiscard : discard tree cwd (temporary tree cwd p) = tree := by rw [discard, hlocate]
    cases weather .create <;> simp [hdiscard]
  | ok place =>
    obtain ⟨entries, hroom⟩ := exists_hasRoom hlocate
    obtain rfl := Except.ok.inj (hlocate.symm.trans (locate_temporary hroom.dir hroom.short))
    cases weather .create with
    | some cause => simp [hroom.discard_self]
    | none =>
      cases weather .write with
      | some cause => simp [hroom.discard_put]
      | none =>
        cases weather .sync with
        | some cause => simp [hroom.discard_put]
        | none =>
          have hkept : FileTree.find (tree.put (some (.file content false))
              (draftPlace tree cwd p)) cwd p = .ok node :=
            FileTree.find_put hfind hnode
              (FileTree.isOffWay_of_get hfind hroom.isFree.get_eq_noEntry)
          have hplace := FileTree.locate_of_find hkept
          unfold exchange
          dsimp only
          rw [hplace]
          cases weather .readMode with
          | some cause => simp [hroom.discard_put]
          | none =>
            cases weather .changeMode with
            | some cause => simp [hroom.discard_put]
            | none =>
              cases weather .replace with
              | some cause => simp [hroom.discard_put]
              | none =>
                cases node with
                | dir entries => cases hnode
                | file old executable => simp [refilled, hroom.discard_put_put hfind hnode]
                | sink => simp [refilled, hroom.discard_put_put hfind hnode]

/-- A step that fails is an obstacle. -/
theorem isSome_obstacle?_of_weather {weather : Weather} {step : Step} {cause : Cause}
    (h : weather step = some cause) (tree : Node) (cwd : List String) (p : PathName) :
    (obstacle? weather tree cwd p).isSome := by
  cases step <;> simp [obstacle?, h]

/-- Without a failing step and with a place for the temporary file nothing is in the way. -/
theorem obstacle?_eq_none {weather : Weather} {tree : Node} {cwd : List String} {p : PathName}
    {place : Place} (h : ∀ step, weather step = none)
    (hplace : FileTree.locate tree cwd (temporary tree cwd p) = .ok place) :
    obstacle? weather tree cwd p = none := by
  simp [obstacle?, h, hplace]

/-! ### Names -/

/-- What is no directory has no names. -/
theorem namesIn_of_not_isDirAt {tree : Node} {dir : List String} (h : ¬tree.IsDirAt dir) :
    namesIn tree dir = [] := by
  unfold namesIn
  split
  · rename_i entries hget
    exact absurd ⟨entries, hget⟩ h
  · rfl

/-- Replacing a file adds no name to any directory and removes none. -/
theorem namesIn_put {tree node new : Node} {path : List String} (hget : tree.get path = .ok node)
    (hnode : node.isDir = false) (hnew : new.isDir = false) (dir : List String) :
    namesIn (tree.put (some new) path) dir = namesIn tree dir := by
  by_cases hbelow : path <+: dir
  · have hbefore : ¬tree.IsDirAt dir := fun hdir =>
      hdir.not_prefix_of_file hget hnode hbelow
    have hafter : ¬(tree.put (some new) path).IsDirAt dir := fun hdir =>
      hdir.not_prefix_of_file (Node.get_put_self hget) hnew hbelow
    rw [namesIn_of_not_isDirAt hbefore, namesIn_of_not_isDirAt hafter]
  · by_cases habove : dir <+: path
    · obtain ⟨rest, rfl⟩ := habove
      cases rest with
      | nil => exact absurd (by simp) hbelow
      | cons name rest =>
        obtain ⟨entries, hdir⟩ := Node.exists_dir_of_get_append hget
        rw [Node.get_append, hdir, Except.bind] at hget
        obtain ⟨same, child, hsame, -, hlookup, -⟩ := Node.get_cons_eq_ok_iff.mp hget
        cases hsame
        rw [namesIn, namesIn, Node.get_put_append (List.cons_ne_nil _ _), hdir, Except.map,
          Node.put_cons hlookup (.inr rfl)]
        exact Node.map_fst_setEntry hlookup
    · rw [namesIn, namesIn, Node.get_put_of_incomparable hbelow habove]

end WriteBack

end FactoryDowngrade
