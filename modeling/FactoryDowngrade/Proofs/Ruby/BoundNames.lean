import FactoryDowngrade.Proofs.CallSiteSpans
import FactoryDowngrade.Proofs.Template.LazyBlocks

/-!
# Bound names are names

The name bound to a call is the target of an assignment or the name of a lazy block, so it is made
of word characters with at most a sigil before them and a mark behind.
-/

namespace FactoryDowngrade

open Template Pattern

/-- Some characters, each of which may belong to a name. -/
structure IsName (name : Text) : Prop where
  nonempty : name ≠ []
  stains : ∀ c ∈ name, Template.stains c = true

/-- A pattern for names reads names. -/
theorem isName_upTo {p : Pattern} (honly : PassesOnly stains p) (htakes : TakesSome p)
    {first last : Cursor} (h : last ∈ p.ends first) : IsName (first.upTo last) := by
  obtain ⟨stretch, hstains, hpass⟩ := honly first last h
  obtain ⟨same, hnonempty, hsame⟩ := htakes first last h
  rw [hpass.upTo]
  exact ⟨fun hempty => hnonempty (hsame.upTo.symm.trans (hpass.upTo.trans hempty)), hstains⟩

/-- What is assigned to has a name. -/
theorem Assignment.isName_of_target? {c : Cursor} {name : Text} (h : target? c = some name) :
    IsName name := by
  obtain ⟨first, hfirst⟩ := Cursor.exists_of_first?_eq_some h
  obtain ⟨last, hlast, hname⟩ := List.exists_of_findSome?_eq_some hfirst
  split at hname
  · obtain rfl := Option.some_inj.mp hname
    exact isName_upTo passesOnly_targetName takesSome_targetName hlast
  · cases hname

namespace LazyBinding

/-- No name is empty. -/
theorem takesSome_namePattern : TakesSome namePattern :=
  (takesSome_one _).seq _

/-- What stands in the parentheses of a head is a name. -/
theorem isName_of_headAt? {c stop : Cursor} {h : Head} (hhead : headAt? c = some (h, stop))
    {name : Text} (hname : h.name = some name) : IsName name := by
  unfold headAt? at hhead
  split at hhead
  · cases hhead
  · obtain ⟨named, -, hhead⟩ := List.exists_of_findSome?_eq_some hhead
    obtain ⟨⟨read, rest⟩, hread, hhead⟩ := List.exists_of_findSome?_eq_some hhead
    obtain ⟨opener, -, hhead⟩ := List.exists_of_findSome?_eq_some hhead
    obtain ⟨body, -, hpair⟩ := Option.map_eq_some_iff.mp hhead
    obtain ⟨rfl, -⟩ := Prod.mk.inj hpair
    obtain rfl : read = some name := hname
    rcases List.mem_append.mp hread with hread | hread
    · obtain ⟨first, -, hread⟩ := List.mem_flatMap.mp hread
      obtain ⟨last, hlast, hread⟩ := List.mem_flatMap.mp hread
      obtain ⟨tail, -, hpair⟩ := List.mem_map.mp hread
      obtain ⟨hupTo, -⟩ := Prod.mk.inj hpair
      exact Option.some_inj.mp hupTo ▸
        isName_upTo passesOnly_namePattern takesSome_namePattern hlast
    · cases List.mem_singleton.mp hread

/-- The name of an unnamed subject is one. -/
theorem isName_subject : IsName "subject".toList :=
  ⟨by decide, by decide⟩

/-- A lazy block defines a name. -/
theorem isName_of_mem_all {masked : Text} {b : LazyBinding} (hb : b ∈ all masked) :
    IsName b.name := by
  obtain ⟨h, hmem, hhead⟩ := List.mem_filterMap.mp hb
  obtain ⟨-, c, stop, -, hread⟩ := Cursor.exists_read_of_mem_readAll isProgressive_headAt? hmem
  rw [ofHead?_eq] at hhead
  obtain ⟨name, hname, hstop⟩ := Option.bind_eq_some_iff.mp hhead
  obtain ⟨-, -, rfl⟩ := Option.map_eq_some_iff.mp hstop
  rw [Head.boundName, Option.or_eq_some_iff] at hname
  rcases hname with hname | ⟨-, hsubject⟩
  · exact isName_of_headAt? hread hname
  · split at hsubject
    · obtain rfl := Option.some_inj.mp hsubject
      exact isName_subject
    · cases hsubject

/-- The latest of some blocks is one of them, or the one that was the latest before. -/
theorem mem_or_eq_of_foldl_later {among : List LazyBinding} {best : Option LazyBinding}
    {b : LazyBinding} (h : among.foldl later best = some b) : b ∈ among ∨ best = some b := by
  induction among generalizing best with
  | nil => exact .inr h
  | cons d among ih =>
    rcases ih h with hmem | hlater
    · exact .inl (List.mem_cons_of_mem _ hmem)
    · cases best with
      | none => exact .inl (Option.some_inj.mp hlater ▸ List.mem_cons_self)
      | some last =>
        rw [later] at hlater
        split at hlater
        · exact .inl (Option.some_inj.mp hlater ▸ List.mem_cons_self)
        · exact .inr hlater

/-- The innermost block around a range is one of the blocks. -/
theorem mem_of_innermost? {blocks : List LazyBinding} {start stop : Nat} {b : LazyBinding}
    (h : innermost? blocks start stop = some b) : b ∈ blocks := by
  rw [innermost?_eq_foldl] at h
  rcases mem_or_eq_of_foldl_later h with hmem | hnone
  · exact (List.mem_filter.mp hmem).1
  · cases hnone

end LazyBinding

/-- The name bound to a site is a name. -/
theorem CallSite.isName_of_mem_extract {text : Text} {s : CallSite} (hs : s ∈ extract text)
    {name : Text} (hname : s.bindingName = some name) : IsName name := by
  rw [extract_eq_map] at hs
  obtain ⟨call, -, rfl⟩ := List.mem_map.mp hs
  rw [siteOf, ofCall] at hname
  dsimp only at hname
  split at hname
  · rw [boundName?, Option.or_eq_some_iff] at hname
    rcases hname with htarget | ⟨-, hblock⟩
    · exact Assignment.isName_of_target? htarget
    · obtain ⟨b, hb, rfl⟩ := Option.map_eq_some_iff.mp hblock
      exact LazyBinding.isName_of_mem_all (LazyBinding.mem_of_innermost? hb)
  · cases hname

end FactoryDowngrade
