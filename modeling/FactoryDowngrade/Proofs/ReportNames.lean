import FactoryDowngrade.CommandLine.Session
import Mathlib.Data.List.Basic
import Mathlib.Data.List.Infix

/-!
# Names of reports

The report on a file is named after its components, those below the root of the project for a file
inside it and all of them for any other, with two underscores between them and without the ending of
the file name. Two underscores in a component read like two components, so different files may share
a name, and a file outside of the project always shares one with a file inside.

Where the components can be told apart, two names are equal just when all components are and the
file names differ at most in their endings. So files inside the project that have the same ending
have reports of different names.
-/

namespace FactoryDowngrade

namespace PathName

/-- The ending of a file name, its dot included. -/
def endingOf (name : String) : String :=
  String.ofList (name.toList.drop (stemOf name).toList.length)

/-- A file name begins with its stem. -/
theorem stemOf_isFrontOf (name : String) : (stemOf name).toList <+: name.toList := by
  unfold stemOf
  extract_lets chars extension before
  split
  · exact List.prefix_rfl
  · rw [String.toList_ofList]
    exact List.take_prefix _ _

/-- A file name is what stands before its ending, and the ending. -/
theorem stemOf_append_endingOf (name : String) : stemOf name ++ endingOf name = name := by
  obtain ⟨behind, hbehind⟩ := stemOf_isFrontOf name
  have hending : (endingOf name).toList = behind := by
    rw [endingOf, String.toList_ofList, ← hbehind, List.drop_left]
  rw [← String.toList_inj, String.toList_append, hending, hbehind]

end PathName

namespace CommandLine

namespace Batch

open PathName

/-- The components that tell a file from others: those below the root, or all of them outside. -/
def shown (root parts : List String) : List String :=
  if root.isPrefixOf parts && root ≠ parts then parts.drop root.length else parts

/-- The components that the name of a report is made of. -/
def label (root parts : List String) : List String :=
  (shown root parts).dropLast ++ [stemOf ((shown root parts).getLast?.getD "")]

/-- The name of a report joins its components and ends with the extension. -/
theorem reportName_eq (root parts : List String) :
    reportName root parts = "__".intercalate (label root parts) ++ ".report.json" := rfl

/-- It has a component at least. -/
theorem label_ne_nil (root parts : List String) : label root parts ≠ [] :=
  List.concat_ne_nil _ _

/-- Words that can be told apart with two underscores between them: in none of them two underscores
follow each other, and none but the last one ends with an underscore. -/
structure IsClear (words : List Text) : Prop where
  single : ∀ w ∈ words, ¬['_', '_'] <:+: w
  closed : ∀ w ∈ words.dropLast, w.getLast? ≠ some '_'

section Names

variable {root a b : List String}

/-- A path below the root is shown from there. -/
theorem shown_append {behind : List String} (hbehind : behind ≠ []) :
    shown root (root ++ behind) = behind := by
  rw [shown, if_pos, List.drop_left]
  simp [hbehind]

/-- Any other path is shown as it is. -/
theorem shown_of_outside (h : ¬root <+: a) : shown root a = a := by
  rw [shown, if_neg]
  simp [h]

/-- The label of a file inside the project. -/
theorem label_inside (root dirs : List String) (name : String) :
    label root (root ++ (dirs ++ [name])) = dirs ++ [stemOf name] := by
  rw [label, shown_append (List.concat_ne_nil _ _)]
  simp

/-! ### Names that two files share -/

/-- Joined by a separator, two words read like the one that has the separator between them. -/
theorem intercalate_joined (sep : Text) (front behind : List Text) (u v : Text) :
    sep.intercalate (front ++ u :: v :: behind) =
      sep.intercalate (front ++ (u ++ sep ++ v) :: behind) := by
  induction front with
  | nil => cases behind <;> simp
  | cons first front ih => rw [List.cons_append, List.cons_append,
      List.intercalate_cons_of_ne_nil (by simp), List.intercalate_cons_of_ne_nil (by simp), ih]

/-- A directory in another one gives the same name as a directory that is called like the two, with
two underscores between. -/
theorem reportName_joined (root front behind : List String) (outer inner name : String) :
    reportName root (root ++ (front ++ outer :: inner :: behind ++ [name])) =
      reportName root (root ++ (front ++ (outer ++ "__" ++ inner) :: behind ++ [name])) := by
  rw [reportName_eq, reportName_eq, label_inside, label_inside, String.append_left_inj,
    ← String.toList_inj, String.toList_intercalate, String.toList_intercalate]
  have hjoined := intercalate_joined "__".toList (front.map String.toList)
    ((behind ++ [stemOf name]).map String.toList) outer.toList inner.toList
  simpa using hjoined

/-- A file outside of the project gives the same name as the file inside with its components. -/
theorem reportName_outside (h : ¬root <+: a) (hfile : a ≠ []) :
    reportName root a = reportName root (root ++ a) := by
  rw [reportName_eq, reportName_eq, label, label, shown_append hfile, shown_of_outside h]

/-- Two files of one directory whose names differ in their endings only give the same name. -/
theorem reportName_ending (root dirs : List String) {name other : String}
    (h : stemOf name = stemOf other) :
    reportName root (root ++ (dirs ++ [name])) = reportName root (root ++ (dirs ++ [other])) := by
  rw [reportName_eq, reportName_eq, label_inside, label_inside, h]

/-- So every file at least two directories below the root shares the name of its report with a file
in another directory that is called like it. -/
theorem exists_reportName_eq (root front behind : List String) (outer inner name : String) :
    ∃ dirs, dirs ≠ front ++ outer :: inner :: behind ∧
      reportName root (root ++ (dirs ++ [name])) =
        reportName root (root ++ (front ++ outer :: inner :: behind ++ [name])) := by
  refine ⟨front ++ (outer ++ "__" ++ inner) :: behind, fun heq => ?_,
    (reportName_joined root front behind outer inner name).symm⟩
  simpa using congrArg List.length heq

/-! ### Names that tell files apart -/

/-- Behind the beginning of a word without two underscores in a row, and with none at its end, two
underscores cannot come before the word is over. -/
theorem eq_nil_of_underscores {u a v w : Text} (hsingle : ¬['_', '_'] <:+: u ++ a)
    (hclosed : (u ++ a).getLast? ≠ some '_') (h : '_' :: '_' :: v = a ++ w) : a = [] := by
  match a, h with
  | [], _ => rfl
  | [x], h =>
    obtain ⟨hx, -⟩ := List.cons.inj h
    simp [← hx] at hclosed
  | x :: y :: a, h =>
    obtain ⟨hx, h⟩ := List.cons.inj h
    obtain ⟨hy, -⟩ := List.cons.inj h
    exact absurd ⟨u, a, by simp [← hx, ← hy]⟩ hsingle

/-- Of two texts that are joined of clear words, the first words are the same. -/
theorem first_inj {u v behind behind' : Text} (hu : ¬['_', '_'] <:+: u)
    (hv : ¬['_', '_'] <:+: v) (hu' : u.getLast? ≠ some '_') (hv' : v.getLast? ≠ some '_')
    (h : u ++ '_' :: '_' :: behind = v ++ '_' :: '_' :: behind') : u = v := by
  obtain ⟨a, rfl, ha⟩ | ⟨a, rfl, ha⟩ := List.append_eq_append_iff.mp h
  · rw [eq_nil_of_underscores hv hv' ha, List.append_nil]
  · rw [eq_nil_of_underscores hu hu' ha, List.append_nil]

section Words

variable {u v w : Text} {us vs : List Text}

/-- The first word stands in front of two underscores and the other words. -/
theorem intercalate_cons_cons (u v : Text) (behind : List Text) :
    ['_', '_'].intercalate (u :: v :: behind) =
      u ++ '_' :: '_' :: ['_', '_'].intercalate (v :: behind) := by
  rw [List.intercalate_cons_of_ne_nil (by simp)]
  simp

/-- Clear words are clear without the first. -/
theorem IsClear.tail (h : IsClear (u :: v :: us)) : IsClear (v :: us) :=
  ⟨fun w hw => h.single w (List.mem_cons_of_mem _ hw),
    fun w hw => h.closed w (List.mem_cons_of_mem _ hw)⟩

/-- A single clear word is not joined of several ones. -/
theorem IsClear.ne_intercalate (h : IsClear [w]) (u v : Text) (us : List Text) :
    w ≠ ['_', '_'].intercalate (u :: v :: us) := by
  rw [intercalate_cons_cons]
  intro heq
  exact h.single w (by simp) ⟨u, ['_', '_'].intercalate (v :: us), by rw [heq]; simp⟩

/-- Clear words can be read back from the text that they are joined to. The first words are the same
if others follow in both lists, and a single word is not joined of others. -/
theorem words_inj : ∀ {us vs : List Text}, us ≠ [] → vs ≠ [] → IsClear us → IsClear vs →
    ['_', '_'].intercalate us = ['_', '_'].intercalate vs → us = vs
  | [u], [v], _, _, _, _, h => by simpa using h
  | [u], v :: v' :: vs, _, _, hus, _, h =>
    absurd (List.intercalate_singleton.symm.trans h) (hus.ne_intercalate v v' vs)
  | u :: u' :: us, [v], _, _, _, hvs, h =>
    absurd (List.intercalate_singleton.symm.trans h.symm) (hvs.ne_intercalate u u' us)
  | u :: u' :: us, v :: v' :: vs, _, _, hus, hvs, h => by
    rw [intercalate_cons_cons, intercalate_cons_cons] at h
    obtain rfl := first_inj (hus.single u (by simp)) (hvs.single v (by simp))
      (hus.closed u (by simp)) (hvs.closed v (by simp)) h
    have hbehind : ['_', '_'].intercalate (u' :: us) = ['_', '_'].intercalate (v' :: vs) := by
      simpa using h
    rw [words_inj (by simp) (by simp) hus.tail hvs.tail hbehind]

end Words

/-- Components that can be told apart are told apart by the name they are joined to. -/
theorem joined_inj {xs ys : List String} (hx : xs ≠ []) (hy : ys ≠ [])
    (hxs : IsClear (xs.map String.toList)) (hys : IsClear (ys.map String.toList))
    (h : "__".intercalate xs = "__".intercalate ys) : xs = ys := by
  rw [← String.toList_inj, String.toList_intercalate, String.toList_intercalate] at h
  have hwords : xs.map String.toList = ys.map String.toList :=
    words_inj (by simpa using hx) (by simpa using hy) hxs hys h
  exact List.map_injective_iff.mpr (fun _ _ => String.toList_inj.mp) hwords

/-- Where the components can be told apart, two files give the same name just when they have the
same components, but for the endings of the file names. -/
theorem reportName_eq_iff (ha : IsClear ((label root a).map String.toList))
    (hb : IsClear ((label root b).map String.toList)) :
    reportName root a = reportName root b ↔ label root a = label root b := by
  rw [reportName_eq, reportName_eq, String.append_left_inj]
  exact ⟨joined_inj (label_ne_nil root a) (label_ne_nil root b) ha hb, fun h => by rw [h]⟩

/-- Different files inside the project with one ending give different names, where the components
can be told apart. -/
theorem reportName_inj {dirs dirs' : List String} {name name' : String}
    (hclear : IsClear ((dirs ++ [stemOf name]).map String.toList))
    (hclear' : IsClear ((dirs' ++ [stemOf name']).map String.toList))
    (hending : endingOf name = endingOf name')
    (h : reportName root (root ++ (dirs ++ [name])) =
      reportName root (root ++ (dirs' ++ [name']))) :
    dirs ++ [name] = dirs' ++ [name'] := by
  have hlabel := (reportName_eq_iff (by rwa [label_inside]) (by rwa [label_inside])).mp h
  rw [label_inside, label_inside] at hlabel
  obtain ⟨hdirs, hstem⟩ := List.append_inj' hlabel rfl
  have hname : name = name' := by
    rw [← stemOf_append_endingOf name, ← stemOf_append_endingOf name', List.singleton_inj.mp hstem,
      hending]
  rw [hdirs, hname]

end Names

end Batch

end CommandLine

end FactoryDowngrade
