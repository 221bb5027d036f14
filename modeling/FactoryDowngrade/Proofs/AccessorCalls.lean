import FactoryDowngrade.Proofs.JobArguments
import FactoryDowngrade.Proofs.Ruby.NestedLiterals

/-!
# Accessors called on a name

A call of an accessor is the name, a dot with blanks around it perhaps, and the method. It is plain
code, so a mask that shows it shows all of it, and behind a character that does not make the name
the tail of something else a detector sees it. One such call anywhere in the text keeps the record.
-/

namespace FactoryDowngrade

open Pattern

/-! ### The calls -/

/-- A method that reads or writes what is stored, called on the name. -/
structure IsAccessorCall (name call : Text) : Prop where
  split : ∃ gap ampersand gap' method, (∀ x ∈ gap, CharClass.isBlank x = true) ∧
    ampersand ∈ ["&", ""].map String.toList ∧ (∀ x ∈ gap', CharClass.isBlank x = true) ∧
    method ∈ Usage.accessors.map String.toList ∧
    call = name ++ (gap ++ (ampersand ++ '.' :: (gap' ++ method)))

/-- A reference to a name passes the name where nothing before it makes it something else. -/
theorem Reference.mem_ends_pattern {name : Text} {c d : Cursor} :
    d ∈ (Reference.pattern name).ends c ↔
      c.follows (Reference.refusedBefore name) = false ∧ c.Passes name d := by
  rw [Reference.pattern, ends_seq, ends_notAfter]
  cases c.follows (Reference.refusedBefore name) <;> simp [mem_ends_literal]

/-- What calls a method on a name passes the name and a dot, perhaps with an ampersand, and the
blanks around them. -/
theorem Evidence.mem_ends_methodOn {name : Text} {c d : Cursor} :
    d ∈ (Evidence.methodOn name).ends c ↔
      c.follows (Reference.refusedBefore name) = false ∧ ∃ gap ampersand gap',
        (∀ x ∈ gap, CharClass.isBlank x = true) ∧ ampersand ∈ ["&", ""].map String.toList ∧
        (∀ x ∈ gap', CharClass.isBlank x = true) ∧
        c.Passes (name ++ (gap ++ (ampersand ++ (['.'] ++ gap')))) d := by
  constructor
  · intro hd
    obtain ⟨e₁, hname, g₁⟩ := mem_ends_seq.mp hd
    obtain ⟨e₂, hgap, g₂⟩ := mem_ends_seq.mp g₁
    obtain ⟨e₃, hampersand, g₃⟩ := mem_ends_seq.mp g₂
    obtain ⟨e₄, hdot, g₄⟩ := mem_ends_seq.mp g₃
    obtain ⟨e₅, hgap', g₅⟩ := mem_ends_seq.mp g₄
    obtain rfl := List.mem_singleton.mp g₅
    obtain ⟨hplace, hname⟩ := Reference.mem_ends_pattern.mp hname
    obtain ⟨gap, hblank, hgap⟩ := mem_ends_run.mp hgap
    obtain ⟨gap', hblank', hgap'⟩ := mem_ends_run.mp hgap'
    obtain ⟨ampersand, hsign, hampersand⟩ : ∃ ampersand ∈ ["&", ""].map String.toList,
        e₂.Passes ampersand e₃ := by
      rcases mem_ends_maybe.mp hampersand with hampersand | rfl
      · exact ⟨_, by decide, mem_ends_char.mp hampersand⟩
      · exact ⟨_, by decide, .refl _⟩
    exact ⟨hplace, gap, ampersand, gap', hblank, hsign, hblank',
      hname.trans (hgap.trans (hampersand.trans ((mem_ends_char.mp hdot).trans hgap')))⟩
  · rintro ⟨hplace, gap, ampersand, gap', hblank, hsign, hblank', hpass⟩
    obtain ⟨e₁, hname, g₁⟩ := hpass.split
    obtain ⟨e₂, hgap, g₂⟩ := g₁.split
    obtain ⟨e₃, hampersand, g₃⟩ := g₂.split
    obtain ⟨e₄, hdot, hgap'⟩ := g₃.split
    have hmaybe : e₃ ∈ (maybe (char '&')).ends e₂ := by
      simp only [List.map_cons, List.map_nil, List.mem_cons, List.not_mem_nil, or_false] at hsign
      rcases hsign with rfl | rfl
      · exact mem_ends_maybe.mpr (.inl (mem_ends_char.mpr hampersand))
      · exact mem_ends_maybe.mpr (.inr (hampersand.unique (.refl _)))
    exact mem_ends_seq.mpr ⟨e₁, Reference.mem_ends_pattern.mpr ⟨hplace, hname⟩,
      mem_ends_seq.mpr ⟨e₂, mem_ends_run.mpr ⟨gap, hblank, hgap⟩,
        mem_ends_seq.mpr ⟨e₃, hmaybe, mem_ends_seq.mpr ⟨e₄, mem_ends_char.mpr hdot,
          mem_ends_seq.mpr ⟨d, mem_ends_run.mpr ⟨gap', hblank', hgap'⟩,
            List.mem_singleton_self _⟩⟩⟩⟩⟩

/-- The pattern for the calls reads them where no reference is refused and no longer method name
goes on. -/
theorem Usage.occursAt_accessorCall_iff {name : Text} {c : Cursor} :
    (Usage.accessorCall name).occursAt c = true ↔
      c.follows (Reference.refusedBefore name) = false ∧ ∃ call rest, IsAccessorCall name call ∧
        c.after = call ++ rest ∧ rest.head?.any Reference.extendsName = false := by
  rw [occursAt_iff]
  constructor
  · rintro ⟨d, hd⟩
    obtain ⟨c₁, hdot, h₁⟩ := mem_ends_seq.mp hd
    obtain ⟨c₂, haccessor, h₂⟩ := mem_ends_seq.mp h₁
    obtain ⟨c₃, hend, -⟩ := mem_ends_seq.mp h₂
    obtain ⟨hend, rfl⟩ := mem_ends_notBefore.mp hend
    obtain ⟨method, hmem, haccessor⟩ := Callee.mem_ends_nameIn.mp haccessor
    obtain ⟨hplace, gap, ampersand, gap', hblank, hsign, hblank', hdot⟩ :=
      Evidence.mem_ends_methodOn.mp hdot
    refine ⟨hplace, _, c₃.after, ⟨gap, ampersand, gap', method, hblank, hsign, hblank', hmem, rfl⟩,
      ?_, hend⟩
    rw [(hdot.trans haccessor).after]
    simp
  · rintro ⟨hplace, _, rest, ⟨gap, ampersand, gap', method, hblank, hsign, hblank', hmem, rfl⟩,
      hafter, hend⟩
    have hpass : c.Passes ((name ++ (gap ++ (ampersand ++ (['.'] ++ gap')))) ++ method)
        ⟨((name ++ (gap ++ (ampersand ++ (['.'] ++ gap')))) ++ method).reverse ++ c.before, rest⟩ :=
      ⟨by rw [hafter]; simp, rfl⟩
    obtain ⟨e, hdot, haccessor⟩ := hpass.split
    exact ⟨_, mem_ends_seq.mpr ⟨e, Evidence.mem_ends_methodOn.mpr
      ⟨hplace, gap, ampersand, gap', hblank, hsign, hblank', hdot⟩, mem_ends_seq.mpr
        ⟨_, Callee.mem_ends_nameIn.mpr ⟨method, hmem, haccessor⟩, mem_ends_seq.mpr
          ⟨_, mem_ends_notBefore.mpr ⟨hend, rfl⟩, List.mem_singleton_self _⟩⟩⟩⟩

/-- A call is plain code without a sign of equality. -/
theorem IsAccessorCall.mem {name call : Text} (h : IsAccessorCall name call)
    (hname : ∀ x ∈ name, CharClass.isWord x = true) {x : Char} (hx : x ∈ call) :
    Phrase.isPlain x = true ∧ x ≠ '=' := by
  obtain ⟨gap, ampersand, gap', method, hgap, hsign, hgap', hmethod, rfl⟩ := h
  have hothers {accepts : Char → Bool}
      (hall : ∀ y ∈ ['"', '\'', '\x60', '#', '%', '<', '\x7b', '\x7d', '='], accepts y = false)
      (hx : accepts x = true) : Phrase.isPlain x = true ∧ x ≠ '=' := by
    have hnot := notMem_of_accepted hall hx
    simp only [List.mem_cons, List.not_mem_nil, or_false, not_or] at hnot
    simp [Phrase.isPlain, hnot]
  have hword (hx : CharClass.isWord x = true) := hothers (by decide) hx
  have hblank (hx : CharClass.isBlank x = true) := hothers (by decide) hx
  have hsigns : ∀ ampersand ∈ ["&", ""].map String.toList, ∀ y ∈ ampersand,
      Phrase.isPlain y = true ∧ y ≠ '=' := by decide
  have hmethods : ∀ method ∈ Usage.accessors.map String.toList, ∀ y ∈ method,
      Phrase.isPlain y = true ∧ y ≠ '=' := by decide
  simp only [List.mem_append, List.mem_cons] at hx
  rcases hx with hx | hx | hx | rfl | hx | hx
  · exact hword (hname x hx)
  · exact hblank (hgap x hx)
  · exact hsigns ampersand hsign x hx
  · decide
  · exact hblank (hgap' x hx)
  · exact hmethods method hmethod x hx

/-! ### What the detector sees -/

/-- A call that a mask shows is seen. -/
theorem Evidence.shows_accessorCall {text front call more : Text} {name : Text}
    (hcall : IsAccessorCall name call) (hmask : mask text = front ++ (call ++ more))
    (hfront : front.getLast?.any (Reference.refusedBefore name) = false)
    (hmore : more.head?.any Reference.extendsName = false) :
    Evidence.Shows (SpecText.ofText text) (Usage.accessorCall name) := by
  have hplace : (Cursor.start (mask text)).Passes front ⟨front.reverse, call ++ more⟩ :=
    ⟨hmask, (List.append_nil _).symm⟩
  have hoccurs : (Usage.accessorCall name).occursAt ⟨front.reverse, call ++ more⟩ = true := by
    refine Usage.occursAt_accessorCall_iff.mpr ⟨?_, call, more, hcall, rfl, hmore⟩
    rw [Cursor.follows, List.head?_reverse]
    exact hfront
  obtain ⟨d, hd⟩ := occursAt_iff.mp hoccurs
  exact occurs_iff.mpr ⟨front, _, hplace, List.ne_nil_of_mem hd⟩

/-- What lines show alone they show behind other lines. -/
theorem Evidence.Shows.behind {text rest shown : Text} {name : Text}
    (hmask : mask text = shown ++ '\n' :: mask rest)
    (h : Evidence.Shows (SpecText.ofText rest) (Usage.accessorCall name)) :
    Evidence.Shows (SpecText.ofText text) (Usage.accessorCall name) := by
  obtain ⟨stretch, d, hpass, hends⟩ := occurs_iff.mp h
  obtain ⟨hplace, call, more, hcall, hafter, hmore⟩ := Usage.occursAt_accessorCall_iff.mp
    (occursAt_iff.mpr (List.exists_mem_of_ne_nil _ hends))
  have hrest : mask rest = stretch ++ (call ++ more) := hafter ▸ hpass.after
  have hshown : mask text = (shown ++ '\n' :: stretch) ++ (call ++ more) := by
    rw [hmask, hrest]
    simp
  refine Evidence.shows_accessorCall hcall hshown ?_ hmore
  rw [Cursor.follows, hpass.before, Cursor.start, List.append_nil, List.head?_reverse] at hplace
  cases hlast : stretch.getLast? with
  | none =>
    obtain rfl := List.getLast?_eq_none_iff.mp hlast
    simpa using Reference.refusedBefore_mark name '\n' (by decide)
  | some x =>
    rw [hlast] at hplace
    simpa [List.getLast?_cons, hlast] using hplace

/-- A record whose name has an accessor called on it is seen to be stored. -/
theorem Detector.sees_of_shows (suffixes : Suffixes) {t : SpecText} {site : CallSite} {name : Text}
    (hbound : site.bindingName = some name) (h : Evidence.Shows t (Usage.accessorCall name)) :
    persistenceAccessor.Sees suffixes t site :=
  ⟨name, hbound, .inl h⟩

end FactoryDowngrade
