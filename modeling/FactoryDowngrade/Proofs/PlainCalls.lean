import FactoryDowngrade.Proofs.MaskedTemplate
import FactoryDowngrade.Proofs.Template.Callees
import FactoryDowngrade.Proofs.Template.Usages

/-!
# Calls that are nothing else

The method name of a call to be changed may be more than that to the reader of the text: the tag of
a heredoc, a method of a foreign receiver from which blanks separate it, the rest of a receiver
chain before it, the ending of a class name that is configured, or the name of a record. Renaming it
then takes away what another call was kept for. Calls of which none of that holds are plain.
-/

namespace FactoryDowngrade

open Template Pattern

namespace Evidence

variable {name : Text} {c d : Cursor}

/-- A dot with blanks behind it ends with the blanks. -/
theorem exists_before_of_mem_dot
    (h : d ∈ (Pattern.seq (.char '.') (.seq .blanks .empty)).ends c) :
    ∃ gap, (∀ x ∈ gap, CharClass.isBlank x = true) ∧ d.before = gap ++ '.' :: c.before := by
  obtain ⟨dotted, hdotted, h⟩ := mem_ends_seq.mp h
  obtain ⟨last, hlast, h⟩ := mem_ends_seq.mp h
  obtain rfl := List.mem_singleton.mp h
  obtain ⟨dot, hdot, hone⟩ := mem_ends_one.mp hdotted
  obtain rfl : dot = '.' := by simpa using hdot
  obtain ⟨gap, hgap, hrun⟩ := mem_ends_run.mp hlast
  exact ⟨gap.reverse, fun x hx => hgap x (List.mem_reverse.mp hx), by
    rw [hrun.before, hone.before]
    rfl⟩

/-- What leads to a method ends with a dot and blanks, before which an ampersand may stand. -/
theorem exists_before_of_mem_methodDot (h : d ∈ methodDot.ends c) :
    ∃ gap, (∀ x ∈ gap, CharClass.isBlank x = true) ∧
      (d.before = gap ++ '.' :: c.before ∨ d.before = gap ++ '.' :: '&' :: c.before) := by
  obtain ⟨marked, hmarked, h⟩ := mem_ends_seq.mp h
  obtain ⟨gap, hgap, hbefore⟩ := exists_before_of_mem_dot h
  refine ⟨gap, hgap, ?_⟩
  rcases List.mem_append.mp hmarked with hmarked | hmarked
  · obtain ⟨mark, hmark, hone⟩ := mem_ends_one.mp hmarked
    obtain rfl : mark = '&' := by simpa using hmark
    exact .inr (by rw [hbefore, hone.before]; rfl)
  · obtain rfl := List.mem_singleton.mp hmarked
    exact .inl hbefore

/-- No word ends where a method is called on a name. -/
theorem follows_isWord_of_mem_methodOn (h : d ∈ (methodOn name).ends c) :
    d.follows CharClass.isWord = false := by
  obtain ⟨named, -, h⟩ := mem_ends_seq.mp h
  obtain ⟨spaced, -, h⟩ := mem_ends_seq.mp h
  obtain ⟨gap, hgap, hbefore⟩ := exists_before_of_mem_methodDot h
  have hlast (rest : Text) : (gap ++ '.' :: rest).head?.any CharClass.isWord = false := by
    cases gap with
    | nil => exact (by decide : CharClass.isWord '.' = false)
    | cons x gap => exact CharClass.isWord_eq_false_of_isBlank (hgap x List.mem_cons_self)
  rw [Cursor.follows]
  rcases hbefore with hbefore | hbefore <;> rw [hbefore] <;> exact hlast _

/-- What may stand before the dot at a method of an association, read backwards: an ampersand, or
the association, whose name begins like a local one. -/
inductive IsAssociation : Text → Prop where
  | safe {outer : Text} : IsAssociation ('&' :: outer)
  | named {between word outer : Text} (hbetween : ∀ x ∈ between, CharClass.isBlank x = true)
    (hword : ∀ x ∈ word, CharClass.isWord x = true)
    (hlower : word.getLast?.any CharClass.isLowerStart = true)
    (houter : outer.head?.any CharClass.isWord = false) :
    IsAssociation (between ++ (word ++ outer))

/-- A dot stands before the method of an association, and the association before the dot. -/
theorem exists_before_of_mem_association
    (h : d ∈ (Pattern.seq (associationOf name) methodDot).ends c) :
    ∃ gap rest, (∀ x ∈ gap, CharClass.isBlank x = true) ∧ d.before = gap ++ '.' :: rest ∧
      IsAssociation rest := by
  obtain ⟨last, hlast, h⟩ := mem_ends_seq.mp h
  obtain ⟨gap, hgap, hdot | hdot⟩ := exists_before_of_mem_methodDot h
  · obtain ⟨on, hon, hlast⟩ := mem_ends_seq.mp hlast
    obtain ⟨first, hfirst, hlast⟩ := mem_ends_seq.mp hlast
    obtain ⟨named, hnamed, hlast⟩ := mem_ends_seq.mp hlast
    obtain ⟨spaced, hspaced, hlast⟩ := mem_ends_seq.mp hlast
    obtain rfl := List.mem_singleton.mp hlast
    obtain ⟨x, hx, hone⟩ := mem_ends_one.mp hfirst
    obtain ⟨more, hmore, hrun⟩ := mem_ends_run.mp hnamed
    obtain ⟨between, hbetween, hblanks⟩ := mem_ends_run.mp hspaced
    have hbefore : last.before = between.reverse ++ ((more.reverse ++ [x]) ++ on.before) := by
      rw [hblanks.before, hrun.before, hone.before, List.reverse_singleton, List.append_assoc]
    refine ⟨gap, _, hgap, hdot, hbefore ▸ .named (fun y hy => hbetween y (List.mem_reverse.mp hy))
      (fun y hy => ?_) ?_ (follows_isWord_of_mem_methodOn hon)⟩
    · rcases List.mem_append.mp hy with hy | hy
      · exact hmore y (List.mem_reverse.mp hy)
      · exact List.mem_singleton.mp hy ▸ CharClass.isWord_of_isLowerStart hx
    · rw [List.getLast?_concat]
      exact hx
  · exact ⟨gap, _, hgap, hdot, .safe⟩

end Evidence

namespace CallSite

/-- The libraries are words with a capital letter. -/
theorem exists_reverse_of_mem_libraries {library : Text}
    (h : library ∈ ["FactoryBot".toList, "FactoryGirl".toList]) :
    (∀ x ∈ library, CharClass.isWord x = true) ∧
      library.head?.any CharClass.isLowerStart = false ∧ library.reverse ≠ [] :=
  (by decide : ∀ library ∈ ["FactoryBot".toList, "FactoryGirl".toList],
    (∀ x ∈ library, CharClass.isWord x = true) ∧
      library.head?.any CharClass.isLowerStart = false ∧ library.reverse ≠ []) library h

/-- No library is an association. -/
theorem not_isAssociation_of_library {library before outer : Text}
    (hlibrary : library ∈ ["FactoryBot".toList, "FactoryGirl".toList])
    (hbefore : ∀ x ∈ before, CharClass.isBlank x = true)
    (houter : outer.head?.any CharClass.isWord = false) :
    ¬Evidence.IsAssociation (before ++ (library.reverse ++ outer)) := by
  obtain ⟨hword, hcapital, hnonempty⟩ := exists_reverse_of_mem_libraries hlibrary
  have hreverse : ∀ x ∈ library.reverse, CharClass.isWord x = true := fun x hx =>
    hword x (List.mem_reverse.mp hx)
  have hfirst {stretch more : Text} (hall : ∀ x ∈ stretch, CharClass.isWord x = true)
      (hsome : stretch ≠ []) : (stretch ++ more).head?.any CharClass.isBlank = false := by
    obtain ⟨x, stretch, rfl⟩ := List.exists_cons_of_ne_nil hsome
    exact CharClass.isBlank_eq_false_of_isWord (hall x List.mem_cons_self)
  intro h
  generalize hsplit : before ++ (library.reverse ++ outer) = rest at h
  cases h with
  | safe =>
    -- the nearest character is a blank or belongs to the library
    have hplain : CharClass.isBlank '&' = false ∧ CharClass.isWord '&' = false := by decide
    cases before with
    | nil =>
      obtain ⟨x, stretch, hx⟩ := List.exists_cons_of_ne_nil hnonempty
      rw [hx] at hsplit hreverse
      obtain rfl : x = '&' := (List.cons.inj hsplit).1
      rw [hreverse '&' List.mem_cons_self] at hplain
      cases hplain.2
    | cons x before =>
      obtain rfl : x = '&' := (List.cons.inj hsplit).1
      rw [hbefore '&' List.mem_cons_self] at hplain
      cases hplain.1
  | @named between word outer' hbetween hword' hlower houter' =>
    have hsome : word ≠ [] := by
      rintro rfl
      cases hlower
    obtain ⟨-, hwords⟩ := append_inj_of_all hbefore hbetween (hfirst hreverse hnonempty)
      (hfirst hword' hsome) hsplit
    obtain ⟨rfl, -⟩ := append_inj_of_all hreverse hword' houter houter' hwords
    rw [List.getLast?_reverse, hcapital] at hlower
    cases hlower

/-- Where a head stands at the method of an association, a dot stands before it. -/
theorem Head.StandsAt.head?_dropWhile_before {h : Head} {c stop start d : Cursor} {name : Text}
    (hstands : h.StandsAt c stop) (hbefore : h.callee.before = d.before)
    (hd : d ∈ (Pattern.seq (Evidence.associationOf name) Evidence.methodDot).ends start) :
    (c.before.dropWhile CharClass.isBlank).head? = some '.' := by
  obtain ⟨gap, rest, hgap, hsplit, hrest⟩ := Evidence.exists_before_of_mem_association hd
  have hdot : ∀ more : Text, ('.' :: more).head?.any CharClass.isBlank = false := fun _ =>
    (by decide : CharClass.isBlank '.' = false)
  obtain ⟨lead, hlead, hpass⟩ := exists_isLead_of_mem_receiver hstands.receiver
  rw [hpass.before] at hbefore
  cases hlead with
  | bare =>
    rw [List.reverse_nil, List.nil_append] at hbefore
    rw [hbefore, hsplit, List.dropWhile_append_of_pos hgap,
      List.dropWhile_cons_of_neg (by simpa using hdot rest)]
    rfl
  | @library library before behind hlibrary hblank hbehind =>
    have hreverse {stretch : Text} (hall : ∀ x ∈ stretch, CharClass.isBlank x = true) :
        ∀ x ∈ stretch.reverse, CharClass.isBlank x = true := fun x hx =>
      hall x (List.mem_reverse.mp hx)
    have hends : behind.reverse ++ '.' :: (before.reverse ++ (library.reverse ++ c.before)) =
        gap ++ '.' :: rest := by
      rw [← hsplit, ← hbefore]
      simp
    -- both dots are the last one
    obtain ⟨-, htails⟩ := append_inj_of_all (hreverse hbehind) hgap (hdot _) (hdot _) hends
    obtain rfl := (List.cons.inj htails).2
    exact absurd hrest
      (not_isAssociation_of_library hlibrary (hreverse hblank) hstands.follows_isWord)

/-- A dot stands before a call, if only across blanks. -/
def IsOwned (text : Text) (s : CallSite) : Prop :=
  (((mask text).take s.sourceSpan.start).reverse.dropWhile CharClass.isBlank).head? = some '.'

/-- A method name stands directly behind a closing bracket. -/
def IsGlued (text : Text) (s : CallSite) : Prop :=
  ((mask text).take s.calleeSpan.start).getLast? = some ')'

instance (text : Text) (s : CallSite) : Decidable (s.IsOwned text) :=
  inferInstanceAs (Decidable (_ = some '.'))

instance (text : Text) (s : CallSite) : Decidable (s.IsGlued text) :=
  inferInstanceAs (Decidable (_ = some ')'))

end CallSite

namespace Analysis

open CallSite

variable {text : Text} {granularity : Option Text} {config : Config}

/-- What keeps the calls to be changed from being anything else. -/
structure HasPlainCalls (text : Text) (granularity : Option Text) (config : Config) : Prop where
  untagged : ∀ s ∈ proposedSites text granularity config, ¬s.IsTag text
  unowned : ∀ s ∈ proposedSites text granularity config, ¬s.IsOwned text
  unglued : ∀ s ∈ proposedSites text granularity config, ¬s.IsGlued text
  unconfigured : Callee.SuffixesHideName config.suffixes
  unbound : ∀ s ∈ extract text, s.bindingName ≠ some Filling.created.word

instance (text : Text) (granularity : Option Text) (config : Config) :
    Decidable (HasPlainCalls text granularity config) :=
  decidable_of_iff ((∀ s ∈ proposedSites text granularity config,
      ¬s.IsTag text ∧ ¬s.IsOwned text ∧ ¬s.IsGlued text) ∧
      Callee.SuffixesHideName config.suffixes ∧
      ∀ s ∈ extract text, s.bindingName ≠ some Filling.created.word)
    ⟨fun ⟨hcalls, hconfig, hbound⟩ => ⟨fun s hs => (hcalls s hs).1, fun s hs => (hcalls s hs).2.1,
        fun s hs => (hcalls s hs).2.2, hconfig, hbound⟩,
      fun h => ⟨fun s hs => ⟨h.untagged s hs, h.unowned s hs, h.unglued s hs⟩, h.unconfigured,
        h.unbound⟩⟩

/-- Calls without a dot before them are no methods of an association. -/
theorem isDetached_maskedTemplate
    (hunowned : ∀ s ∈ proposedSites text granularity config, ¬s.IsOwned text) :
    Usage.IsDetached (maskedTemplate text granularity config) := by
  intro name start d hstart hd hmem hslot
  obtain ⟨after, hafter⟩ := exists_after_of_atSlot hslot
  have hsplit : maskedTemplate text granularity config = d.before.reverse ++ none :: after := by
    rw [← hd, Spot.whole, hafter]
  obtain ⟨s, hs, head, hhead, -, -, hfirst, -, hbefore, -⟩ := exists_head_of_slot hsplit
  obtain ⟨hstands, htext⟩ := standsAt_of_mem_heads hhead
  have hplace : (d.cursor .created).before = head.callee.before := by
    rw [hbefore, fill_reverse, List.reverse_reverse]
    rfl
  refine hunowned s hs ?_
  have htake : ((mask text).take s.sourceSpan.start).reverse = head.first.before := by
    rw [hfirst, ← htext, Cursor.text, Cursor.offset, List.take_left' List.length_reverse,
      List.reverse_reverse]
  rw [IsOwned, htake]
  exact hstands.head?_dropWhile_before hplace.symm hmem

/-- Calls that are not behind a closing bracket belong to no receiver chain. -/
theorem isUnglued_maskedTemplate
    (hunglued : ∀ s ∈ proposedSites text granularity config, ¬s.IsGlued text) :
    IsUnglued (maskedTemplate text granularity config) := by
  intro before after h
  have hslot : maskedTemplate text granularity config =
      (before ++ [some ')']) ++ none :: after := by simpa using h
  obtain ⟨s, hs, -, -, -, -, -, hstart, -, -⟩ := exists_head_of_slot hslot
  refine hunglued s hs ?_
  have hfill := fill_append Filling.created.word (before ++ [some ')']) (none :: after)
  rw [IsGlued, hstart, ← fill_created_maskedTemplate text granularity config, hslot, hfill,
    List.take_left, fill_append, fill_some, fill_nil, List.getLast?_concat]

end Analysis

end FactoryDowngrade
