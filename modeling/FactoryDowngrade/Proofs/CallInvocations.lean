import FactoryDowngrade.Proofs.AssignedCreation

/-!
# Calls among invocations

The search for construction calls and the search for invocations go through a masked text apart
from each other, with patterns and conditions of their own. They agree on every call whose
parentheses are closed: its method name is the name of one invocation, which has the arguments of
the call. So what stands in the arguments of the call stands in those of the invocation.
-/

namespace FactoryDowngrade

open Pattern

namespace CallSite

/-! ### How calls go on -/

/-- How a readable call goes on behind its head: its arguments stand between parentheses, or blanks
lead to a factory name and the arguments go on to the end of the statement. -/
inductive Call.IsCutBehind (call : Call) (h : Head) : Prop where
  | parenthesized {distance : Nat} (hround : h.last.after.head? = some '(')
    (hclose : Bracket.closeDistance BracketRole.ofChar [] h.last.after = some distance)
    (hstart : call.argsStart = h.last.offset + 1) (hargs : call.argsStop = h.last.offset + distance)
    (hstop : call.stop = call.argsStop + 1)
  | bare {gap rest : Text} (hafter : h.last.after = gap ++ rest) (hgap : gap ≠ [])
    (hblank : ∀ c ∈ gap, CharClass.isSpaceOrTab c = true) (hname : beginsName rest = true)
    (hstart : call.argsStart = h.last.offset + gap.length)
    (hargs : call.argsStop = call.argsStart + Statement.argumentLength rest)
    (hstop : call.stop = call.argsStop)

/-- A factory name begins in a masked text where one begins in the text, unless it is blanked. -/
theorem beginsName_of_masks {image text : Text} (hmasks : List.Forall₂ IsMaskOf image text)
    (hshown : image.head? ≠ some ' ') (h : beginsName text = true) : beginsName image = true := by
  cases hmasks with
  | nil => exact h
  | @cons m c image rest hmask hrest =>
    obtain rfl : m = c := hmask.resolve_right fun hblank => hshown (by rw [hblank.1]; rfl)
    rw [beginsName_cons, Bool.and_eq_true, Bool.not_eq_true', Bool.and_eq_false_iff] at h ⊢
    exact ⟨h.1.imp_right (any_head?_of_masks (by decide) hrest), h.2⟩

/-- Every call whose parentheses are closed is cut in one of the two ways behind a head of the
masked text. -/
theorem exists_isCutBehind_of_mem_calls {text : Text} {call : Call}
    (h : call ∈ calls text (mask text)) (hfault : call.fault ≠ some .unbalancedArguments) :
    ∃ head ∈ heads (mask text), call.HasHead head ∧ call.IsCutBehind head := by
  obtain ⟨head, hmem, hcall⟩ := List.mem_filterMap.mp h
  refine ⟨head, hmem, hasHead_of_call? hcall, ?_⟩
  obtain ⟨-, hbegins⟩ := Head.call?_eq_some_iff.mp hcall
  cases hbegins with
  | unbalanced hround hclose => exact absurd rfl hfault
  | parenthesized hround hclose => exact .parenthesized hround hclose rfl rfl rfl
  | @bare gap rest hafter hgap hblank hrest hname =>
    refine .bare hafter hgap hblank ?_ rfl rfl rfl
    -- what stands behind the blanks is no blank, so it is shown
    obtain ⟨hstands, htext⟩ := standsAt_of_mem_heads hmem
    obtain ⟨stretch, -, hpass⟩ := hstands.exists_passes
    have hshown : (mask text).drop (head.last.offset + gap.length) = rest := by
      rw [← htext, ← hpass.text, Cursor.drop_offset_add, hafter, List.drop_left]
    rw [← hshown]
    refine beginsName_of_masks (List.forall₂_drop _ (mask_forall₂ text)) ?_ hname
    rw [hshown]
    intro hhead
    rw [hhead] at hrest
    cases hrest

/-- No word goes on into a method name, and neither a sigil nor a colon stands before it. -/
theorem Head.StandsAt.follows_callee {h : Head} {c stop : Cursor} (hstands : h.StandsAt c stop) :
    h.callee.follows Invocation.spoilsName = false := by
  obtain ⟨lead, hlead, hpass⟩ := exists_isLead_of_mem_receiver hstands.receiver
  cases hlead with
  | bare =>
    rw [hpass.unique (.refl c)]
    refine any_eq_false_of_imp (fun x hx => ?_) hstands.unspoiled
    simp only [Invocation.spoilsName, Bool.or_eq_true] at hx
    simp only [spoilsBefore, List.contains_cons, Bool.or_eq_true]
    tauto
  | @library name before behind hname hbefore hbehind =>
    have hlast : h.callee.before = behind.reverse ++ '.' :: (before.reverse ++
        (name.reverse ++ c.before)) := by simp [hpass.before]
    rw [Cursor.follows, hlast]
    cases hreverse : behind.reverse with
    | nil => exact (by decide : Invocation.spoilsName '.' = false)
    | cons x more =>
      have hblank : CharClass.isBlank x = true :=
        hbehind x (List.mem_reverse.mp (hreverse ▸ List.mem_cons_self))
      have hother : x ≠ '@' ∧ x ≠ '$' ∧ x ≠ ':' := by
        refine ⟨?_, ?_, ?_⟩ <;>
        · rintro rfl
          exact absurd hblank (by decide)
      have hword := CharClass.isWord_eq_false_of_isBlank hblank
      simp [Invocation.spoilsName, hword, hother]

end CallSite

/-! ### Names -/

namespace Invocation

variable {c d : Cursor}

/-- A name passes a word, and a mark behind it or none. -/
theorem exists_passes_of_mem_anyName (h : d ∈ anyName.ends c) : ∃ word mark,
    (∀ x ∈ word, CharClass.isWord x = true) ∧ mark.length ≤ 1 ∧ c.Passes (word ++ mark) d := by
  obtain ⟨first, hfirst, hname⟩ := mem_ends_seq.mp h
  rw [ends_notAfter, ← ite_not] at hfirst
  obtain ⟨-, rfl⟩ := eq_of_mem_condition hfirst
  obtain ⟨begun, hbegun, hrest⟩ := mem_ends_seq.mp hname
  obtain ⟨worded, hworded, htail⟩ := mem_ends_seq.mp hrest
  obtain ⟨marked, hmarked, hend⟩ := mem_ends_seq.mp htail
  obtain rfl := List.mem_singleton.mp hend
  obtain ⟨x, more, hx, hmore, hword⟩ :=
    mem_ends_one_run.mp (mem_ends_seq.mpr ⟨begun, hbegun, hworded⟩)
  have hall : ∀ y ∈ x :: more, CharClass.isWord y = true := by
    intro y hy
    rcases List.mem_cons.mp hy with rfl | hy
    · exact CharClass.isWord_of_isNameStart hx
    · exact hmore y hy
  rcases List.mem_append.mp hmarked with hmark | hnone
  · obtain ⟨y, -, hmark⟩ := mem_ends_one.mp hmark
    exact ⟨_, [y], hall, Nat.le_refl 1, hword.trans hmark⟩
  · obtain rfl := List.mem_singleton.mp hnone
    exact ⟨_, [], hall, Nat.zero_le 1, by simpa using hword⟩

/-- A name is among those of a text if no word goes on into it. -/
theorem mem_allMatches_anyName (hfree : c.follows spoilsName = false)
    (hmatch : anyName.match? c = some d) : (c, d) ∈ anyName.allMatches c.text := by
  have hread : anyName.reading c = some ((c, d), d) := by rw [reading, hmatch]; rfl
  have hreach : (Cursor.start c.text).Passes c.before.reverse c :=
    ⟨rfl, by simp [Cursor.start]⟩
  rw [allMatches, matchesFrom_eq_readAll takesSome_anyName]
  refine Cursor.mem_readAll (isProgressive_reading takesSome_anyName) hreach hread
    fun first behind hsplit hbehind e e' other he hother => ?_
  -- an earlier name that went on into this one would have a word character right before it
  obtain ⟨stop, hstop, hpair⟩ := Option.map_eq_some_iff.mp hother
  obtain ⟨-, rfl⟩ := Prod.mk.inj hpair
  obtain ⟨word, mark, hword, hmark, hpass⟩ :=
    exists_passes_of_mem_anyName (List.mem_of_head? hstop)
  have hrest : e.Passes behind c := by
    rw [hsplit] at hreach
    obtain ⟨e', he', hrest⟩ := hreach.split
    exact he.unique he' ▸ hrest
  by_contra hover
  rw [hpass.offset, hrest.offset, List.length_append] at hover
  have hfront : behind <+: word := by
    refine List.prefix_of_prefix_length_le ⟨c.after, hrest.after.symm⟩
      ⟨mark ++ stop.after, ?_⟩ (by omega)
    rw [hpass.after, List.append_assoc]
  have hlast : c.before.head? = behind.getLast? := by
    rw [hrest.before, List.head?_append_of_ne_nil _ (by simpa using hbehind), List.head?_reverse]
  rw [Cursor.follows, hlast, List.getLast?_eq_some_getLast hbehind] at hfree
  have hletter := hword _ (hfront.subset (List.getLast_mem hbehind))
  rw [Option.any_some, spoilsName, hletter] at hfree
  cases hfree

/-- A run goes as far as accepted characters do. -/
theorem afterRun_skip_of_passes {accepts : Char → Bool} {x : Char} {more : Text}
    (hpass : c.Passes (x :: more) d) (hmore : ∀ y ∈ more, accepts y = true)
    (hend : d.precedes accepts = false) : afterRun accepts (c.skip 1) = d := by
  obtain ⟨before, after⟩ := c
  obtain ⟨before', after'⟩ := d
  obtain rfl : after = x :: (more ++ after') := hpass.after
  obtain rfl : before' = (x :: more).reverse ++ before := hpass.before
  rw [Cursor.skip, Cursor.skip, afterRun_append hmore hend]
  simp

/-- The method name at the head of a call is a whole name. -/
theorem match?_callee {h : CallSite.Head} {stop : Cursor} (hstands : h.StandsAt c stop) :
    anyName.match? h.callee = some stop := by
  have hcallee := hstands.callee
  have hword : ∀ x ∈ h.variant.method.toList, CharClass.isWord x = true :=
    CallSite.isWord_of_mem_method
  have hextends := CallSite.precedes_extendsName_of_mem_notKey hstands.notKey
  obtain ⟨x, more, hmethod, hstart⟩ : ∃ x more, h.variant.method.toList = x :: more ∧
      CharClass.isNameStart x = true := by
    cases h.variant <;> exact ⟨_, _, rfl, by decide⟩
  rw [hmethod] at hcallee hword
  have hbegins : h.callee.precedes CharClass.isNameStart = true := by
    rw [Cursor.precedes, hcallee.after]
    exact hstart
  have hrun : afterRun CharClass.isWord (h.callee.skip 1) = stop :=
    afterRun_skip_of_passes hcallee (fun y hy => hword y (List.mem_cons_of_mem _ hy))
      (CallSite.precedes_isWord_of_mem_notKey hstands.notKey)
  have hmark : afterMark stop = stop := by
    refine if_neg (Bool.not_eq_true _ ▸ any_eq_false_of_imp (fun y hy => ?_) hextends)
    rcases List.mem_pair.mp (List.contains_iff_mem.mp hy) with rfl | rfl <;> rfl
  rw [match?_anyName, if_neg (by simp [hstands.follows_callee]), if_pos hbegins, hrun, hmark]

/-- Names of a text stand one behind the other. -/
theorem pairwise_allMatches_anyName (text : Text) :
    (anyName.allMatches text).Pairwise fun a b => a.1.offset < b.1.offset := by
  have hread := isProgressive_reading takesSome_anyName
  have hplace (c : Cursor) (value : Cursor × Cursor) (stop : Cursor)
      (h : anyName.reading c = some (value, stop)) : value.1 = c ∧ value.2 = stop := by
    obtain ⟨last, -, hpair⟩ := Option.map_eq_some_iff.mp h
    obtain ⟨rfl, rfl⟩ := Prod.mk.inj hpair
    exact ⟨rfl, rfl⟩
  rw [allMatches, matchesFrom_eq_readAll takesSome_anyName]
  refine (Cursor.pairwise_readAll hread hplace _).imp_of_mem fun {a b} ha _ hab => ?_
  obtain ⟨-, c, stop, -, hc⟩ := Cursor.exists_read_of_mem_readAll hread ha
  obtain ⟨stretch, hstretch, hpass⟩ := hread c a stop hc
  obtain ⟨rfl, rfl⟩ := hplace c a stop hc
  have hpos := List.length_pos_iff.mpr hstretch
  rw [hpass.offset] at hab
  omega

/-- A factory name is an argument. -/
theorem beginsArgument_of_beginsName {text : Text} (h : CallSite.beginsName text = true) :
    beginsArgument text = true := by
  cases text with
  | nil => cases h
  | cons c rest =>
    rw [CallSite.beginsName_cons, Bool.and_eq_true, Bool.not_eq_true', Bool.and_eq_false_iff] at h
    obtain ⟨hcolons, hsign⟩ := h
    rw [beginsArgument_cons]
    split
    · rename_i hcolon
      have hnext := hcolons.resolve_left (by simp [hcolon])
      cases rest with
      | nil => rfl
      | cons d rest =>
        have hd : (d == ':') = false := hnext
        simpa using hd
    · rename_i hcolon
      have hquote : c = '"' ∨ c = '\'' := by simpa [hcolon] using hsign
      rcases hquote with rfl | rfl <;> rfl

/-- Whether an invocation has its name between two offsets. -/
def isNamedAt (i : Invocation) (start stop : Nat) : Bool :=
  i.nameStart == start && i.nameStop == stop

/-- An invocation has its name where the name was read. -/
theorem isNamedAt_ofName (first last : Cursor) (start stop : Nat) :
    (ofName first last).isNamedAt start stop = (first.offset == start && last.offset == stop) := by
  unfold ofName
  dsimp only
  split
  · rfl
  · split <;> rfl

/-- The invocation of a method name behind which a call is cut has the arguments of the call. -/
theorem ofName_of_isCutBehind {call : CallSite.Call} {h : CallSite.Head}
    (hcut : call.IsCutBehind h) : (ofName h.callee h.last).argsStart = call.argsStart ∧
      (ofName h.callee h.last).argsStop = call.argsStop := by
  cases hcut with
  | parenthesized hround hclose hstart hargs hstop =>
    unfold ofName
    rw [if_pos hround]
    exact ⟨hstart.symm, by simp only [parenthesizedStop, hclose, hargs]⟩
  | @bare gap rest hafter hgap hblank hname hstart hargs hstop =>
    have hround : h.last.after.head? ≠ some '(' := by
      obtain ⟨x, gap, rfl⟩ := List.exists_cons_of_ne_nil hgap
      rw [hafter]
      rintro heq
      obtain rfl : x = '(' := Option.some.inj heq
      exact absurd (hblank '(' List.mem_cons_self) (by decide)
    have hstop : rest.head?.any CharClass.isSpaceOrTab = false := by
      cases rest with
      | nil => rfl
      | cons c rest =>
        have hsign : c = ':' ∨ c = '"' ∨ c = '\'' := by
          rw [CallSite.beginsName_cons, Bool.and_eq_true] at hname
          simpa [or_assoc] using hname.2
        rcases hsign with rfl | rfl | rfl <;> rfl
    have htake : h.last.after.takeWhile CharClass.isSpaceOrTab = gap := by
      rw [hafter, (takeWhile_append_stop hblank hstop).1]
    have hdrop : h.last.after.drop gap.length = rest := by rw [hafter, List.drop_left]
    have hbegins : (!gap.isEmpty && beginsArgument rest) = true := by
      simp [hgap, beginsArgument_of_beginsName hname]
    unfold ofName
    rw [if_neg hround]
    simp only [htake, hdrop, hbegins, if_true, hargs, hstart, and_self]

end Invocation

/-! ### The agreement -/

namespace CallSite

/-- Of things that do not fit in pairs, the one that fits is all that is left of them. -/
theorem filter_eq_singleton {α : Type} {fits : α → Bool} {things : List α}
    (hpairs : things.Pairwise fun a b => fits a = true → fits b = false) {x : α}
    (hmem : x ∈ things) (hfits : fits x = true) : things.filter fits = [x] := by
  have hleft := hpairs.filter fits
  have hx : x ∈ things.filter fits := List.mem_filter.mpr ⟨hmem, hfits⟩
  have hall : ∀ y ∈ things.filter fits, fits y = true := fun y hy => (List.mem_filter.mp hy).2
  generalize things.filter fits = left at *
  obtain _ | ⟨y, _ | ⟨z, left⟩⟩ := left
  · cases hx
  · rw [List.mem_singleton.mp hx]
  · have hfirst := hall y List.mem_cons_self
    have hsecond := hall z (by simp)
    have hnot := List.rel_of_pairwise_cons hleft List.mem_cons_self hfirst
    rw [hsecond] at hnot
    cases hnot

/-- Every site whose parentheses are closed has its method name in one invocation, which has the
arguments of the site. The detectors find it around all calls that stand in these arguments. -/
theorem exists_invocation_of_mem_extract {text : Text} {s : CallSite} (hs : s ∈ extract text)
    (hfault : s.fault ≠ some .unbalancedArguments) :
    ∃ call ∈ calls text (mask text), ∃ i, s = siteOf text call ∧
      (SpecText.ofText text).invocations.filter
        (·.isNamedAt s.calleeSpan.start s.calleeSpan.stop) = [i] ∧
      i.argsStart = call.argsStart ∧ i.argsStop = call.argsStop ∧
      text.slice i.argsStart i.argsStop = s.argumentText ∧
      ∀ inner ∈ calls text (mask text), call.holds inner = true →
        i ∈ (SpecText.ofText text).around (siteOf text inner) := by
  rw [extract_eq_map] at hs
  obtain ⟨call, hcall, rfl⟩ := List.mem_map.mp hs
  obtain ⟨head, hmem, hhead, hcut⟩ := exists_isCutBehind_of_mem_calls hcall hfault
  obtain ⟨hstands, htext⟩ := standsAt_of_mem_heads hmem
  obtain ⟨lead, hlead⟩ := hstands.exists_passes_callee
  obtain ⟨hstart, hstop⟩ := Invocation.ofName_of_isCutBehind hcut
  have hname := Invocation.mem_allMatches_anyName hstands.follows_callee
    (Invocation.match?_callee hstands)
  rw [hlead.text, htext] at hname
  have hinvoked : Invocation.ofName head.callee head.last ∈ (SpecText.ofText text).invocations :=
    List.mem_map.mpr ⟨_, hname, rfl⟩
  refine ⟨call, hcall, Invocation.ofName head.callee head.last, rfl, ?_, hstart, hstop,
    by rw [hstart, hstop]; rfl, fun inner _ hholds => List.mem_filter.mpr ⟨hinvoked, ?_⟩⟩
  · refine filter_eq_singleton (List.pairwise_map.mpr
      ((Invocation.pairwise_allMatches_anyName _).imp fun {a b} hab hfits => ?_)) hinvoked ?_
    · rw [Invocation.isNamedAt_ofName, Bool.and_eq_true, beq_iff_eq] at hfits
      rw [Invocation.isNamedAt_ofName, Bool.and_eq_false_iff, beq_eq_false_iff_ne]
      omega
    · rw [Invocation.isNamedAt_ofName, ← hhead.calleeStart, ← hhead.calleeStop]
      simp [siteOf, ofCall, LineIndex.span]
  · rw [Invocation.holds, hstart, hstop]
    exact hholds

/-- A call on a library, from which blanks separate it, in the arguments of a call without
parentheses. -/
def nestedCreation : Text :=
  "post = create :post, author: FactoryBot . create(:user)\n".toList

/-- The outer call is invoked around the inner one. -/
theorem exists_invocation_of_mem_extract_nested :
    ∃ s ∈ extract nestedCreation, s.fault ≠ some .unbalancedArguments ∧
      ∃ call ∈ calls nestedCreation (mask nestedCreation), ∃ i, s = siteOf nestedCreation call ∧
        (SpecText.ofText nestedCreation).invocations.filter
          (·.isNamedAt s.calleeSpan.start s.calleeSpan.stop) = [i] ∧
        i.argsStart = call.argsStart ∧ i.argsStop = call.argsStop ∧
        nestedCreation.slice i.argsStart i.argsStop = s.argumentText ∧
        ∀ inner ∈ calls nestedCreation (mask nestedCreation), call.holds inner = true →
          i ∈ (SpecText.ofText nestedCreation).around (siteOf nestedCreation inner) := by
  have hsome : (extract nestedCreation).head?.isSome = true := by decide +kernel
  have hreadable : ∀ s ∈ (extract nestedCreation).head?, s.fault ≠ some .unbalancedArguments := by
    decide +kernel
  obtain ⟨outer, hhead⟩ := Option.isSome_iff_exists.mp hsome
  have hmem := List.mem_of_head? hhead
  exact ⟨outer, hmem, hreadable outer hhead,
    exists_invocation_of_mem_extract hmem (hreadable outer hhead)⟩

end CallSite

end FactoryDowngrade
