import FactoryDowngrade.Proofs.CallInvocations
import FactoryDowngrade.Proofs.PlanSafety
import FactoryDowngrade.Proofs.Ruby.ArgumentLists

/-!
# Calls in the arguments of calls

Of two calls whose parentheses are closed, one stands behind the other or in its arguments, whatever
their shapes: a group closes before the group around it, an argument list in a group ends with it,
and an argument list that comes to a call goes over all of it. There is one exception. A call may
have a line break between its library and its method name, and such a line break ends an argument
list without parentheses, so that the two calls cross.
-/

namespace FactoryDowngrade

open FactoryDowngrade.Bracket BracketRole Statement

namespace CallSite

/-- Of two calls in a text, the later one stands behind the earlier, or in its arguments. Otherwise
the arguments of the earlier end at a line break between the receiver and the method name of the
later. -/
inductive Call.Precedes (masked : Text) (outer inner : Call) : Prop where
  | apart (h : outer.stop ≤ inner.start)
  | holding (h : outer.holds inner = true)
  | broken (hstart : inner.start < outer.stop) (hstop : outer.stop ≤ inner.calleeStart)
    (hbreak : '\n' ∈ masked.slice inner.start inner.calleeStart)

/-! ### The later call -/

namespace Call.IsCutBehind

variable {call : Call} {h : Head}

/-- A call ends with a character that is no blank, and an argument list that comes to what stands
behind its method name goes over that character. -/
theorem exists_last (hcut : call.IsCutBehind h) :
    ∃ n c, call.stop = h.last.offset + (n + 1) ∧ h.last.after[n]? = some c ∧
      isTrailing c = false ∧ ∀ passed depth, n < reach passed depth h.last.after := by
  cases hcut with
  | @parenthesized distance hround hclose hstart hargs hstop =>
    obtain ⟨rest, hafter⟩ := List.head?_eq_some_iff.mp hround
    obtain ⟨c, kind, hc, hkind⟩ := closes_of_closeDistance hclose
    refine ⟨distance, c, by omega, hc, ?_, fun passed depth => ?_⟩
    · rw [Bool.eq_false_iff]
      intro htrailing
      have hrole : ∀ x ∈ [' ', '\t', '\r', '\n'], ofChar x = .plain := by decide
      have hplain := hrole c (by simpa [isTrailing, or_assoc] using htrailing)
      rw [hkind] at hplain
      cases hplain
    · rw [hafter] at hclose ⊢
      exact lt_reach_group rfl hclose
  | @bare gap rest hafter hgap hblank hname hstart hargs hstop =>
    obtain ⟨x, rest, rfl⟩ : ∃ x more, rest = x :: more := by
      cases rest with
      | nil => cases hname
      | cons x more => exact ⟨x, more, rfl⟩
    have hsign : x ∈ [':', '"', '\''] := by
      rw [beginsName_cons, Bool.and_eq_true] at hname
      simpa [or_assoc] using hname.2
    have hchar : ∀ y ∈ [':', '"', '\''], ofChar y = .plain ∧ y ≠ ';' ∧
        CharClass.isBlank y = false ∧ CharClass.isSpaceOrTab y = false ∧
        y ∉ ['i', 'u', 'w', 'r', 'd'] := by decide
    obtain ⟨hplain, hend, hsolid, hspace, hletter⟩ := hchar x hsign
    have hspaces (y : Char) (hy : y ∈ gap) : CharClass.isBlank y = true ∧ y ≠ '\n' := by
      have hall : ∀ z ∈ [' ', '\t'], CharClass.isBlank z = true ∧ z ≠ '\n' := by decide
      exact hall y (CharClass.mem_of_isSpaceOrTab (hblank y hy))
    have hpos : 0 < argumentLength (x :: rest) := argumentLength_pos hplain hend hsolid
    obtain hnone | ⟨taken, c, hfront, hlast, hlength⟩ := exists_argumentLength_eq (x :: rest)
    · omega
    · refine ⟨gap.length + taken.length, c, by omega, ?_, hlast, fun passed depth => ?_⟩
      · obtain ⟨more, hmore⟩ := hfront
        rw [hafter, List.getElem?_append_right (Nat.le_add_right _ _), Nat.add_sub_cancel_left,
          ← hmore, List.append_assoc, List.getElem?_append_right (Nat.le_refl _), Nat.sub_self]
        rfl
      · rw [hafter, reach_blanks (fun y hy => (hspaces y hy).1)
          (fun hbreak => (hspaces _ hbreak).2 rfl) hspace hletter]
        have hreach := argumentLength_le_reach (x :: rest)
        have houter : reach [] 0 (x :: rest) ≤ reach (gap.reverse ++ passed) depth (x :: rest) :=
          reach_le_reach hplain hend hsolid _ _
        omega

/-- A call that begins in groups ends before the last of them is closed. -/
theorem stop_le_of_closeDistance (hcut : call.IsCutBehind h) {kinds : List BracketKind}
    (hkinds : kinds ≠ []) {distance : Nat}
    (hclose : closeDistance ofChar kinds h.last.after = some distance) :
    call.stop ≤ h.last.offset + distance := by
  cases hcut with
  | @parenthesized inner hround hinner hstart hargs hstop =>
    obtain ⟨rest, hafter⟩ := List.head?_eq_some_iff.mp hround
    rw [hafter] at hclose hinner
    have hlt := closeDistance_lt_of_opens rfl hinner hkinds hclose
    omega
  | @bare gap rest hafter hgap hblank hname hstart hargs hstop =>
    have hspaces : IsNested gap := .of_plain fun y hy =>
      ofChar_of_isBlank (CharClass.isBlank_of_isSpaceOrTab (hblank y hy))
    rw [hafter, hspaces kinds rest hkinds] at hclose
    obtain ⟨more, hmore, rfl⟩ := Option.map_eq_some_iff.mp hclose
    have hreach : reach [] 0 rest ≤ more :=
      reach_le_of_closeDistance hmore (List.length_pos_iff.mpr hkinds)
    have hlength := argumentLength_le_reach rest
    omega

/-- An argument list that comes to what stands behind the method name of a call keeps all of the
call. -/
theorem stop_le_of_reach (hcut : call.IsCutBehind h) {front passed : Text} {depth : Nat}
    (hreach : reach [] 0 (front ++ h.last.after) = front.length + reach passed depth h.last.after) :
    call.stop + front.length ≤ h.last.offset + argumentLength (front ++ h.last.after) := by
  obtain ⟨n, c, hstop, hc, htrailing, hover⟩ := hcut.exists_last
  have hn := hover passed depth
  have hkept : front.length + n < argumentLength (front ++ h.last.after) := by
    refine lt_argumentLength (by omega) ?_ htrailing
    rw [List.getElem?_append_right (Nat.le_add_right _ _), Nat.add_sub_cancel_left]
    exact hc
  omega

end Call.IsCutBehind

/-! ### The way to its method name -/

/-- A call begins with a word character. -/
theorem IsLead.exists_cons {lead : Text} (hlead : IsLead lead) (v : Variant) :
    ∃ x more, lead ++ v.method.toList = x :: more ∧ CharClass.isWord x = true := by
  cases hlead with
  | bare => cases v <;> exact ⟨_, _, rfl, by decide⟩
  | library hname hbefore hbehind =>
    simp only [List.mem_cons, List.not_mem_nil, or_false] at hname
    rcases hname with rfl | rfl <;> exact ⟨_, _, rfl, by decide⟩

/-- Nothing in front of a method name is a bracket. -/
theorem IsLead.ofChar_eq {lead : Text} (hlead : IsLead lead) {c : Char} (hc : c ∈ lead) :
    ofChar c = .plain := by
  cases hlead with
  | bare => cases hc
  | library hname hbefore hbehind =>
    simp only [List.mem_append, List.mem_cons] at hc
    rcases hc with (hc | hc) | rfl | hc
    · have hletters : ∀ name ∈ ["FactoryBot".toList, "FactoryGirl".toList], ∀ x ∈ name,
          ofChar x = .plain := by decide
      exact hletters _ hname c hc
    · exact ofChar_of_isBlank (hbefore c hc)
    · rfl
    · exact ofChar_of_isBlank (hbehind c hc)

/-- An argument list goes over what stands in a line in front of a method name. -/
theorem IsLead.reach_append {lead : Text} (hlead : IsLead lead) (hline : '\n' ∉ lead)
    (v : Variant) (passed : Text) (depth : Nat) (more : Text) :
    reach passed depth (lead ++ (v.method.toList ++ more)) =
      lead.length + reach (lead.reverse ++ passed) depth (v.method.toList ++ more) := by
  cases hlead with
  | bare => simp
  | @library name before behind hname hbefore hbehind =>
    obtain ⟨x, method, hmethod, hx⟩ :
        ∃ x method, v.method.toList = x :: method ∧ x ∈ ['b', 'c'] := by
      cases v <;> exact ⟨_, _, rfl, by decide⟩
    have hletter : ∀ y ∈ ['b', 'c'],
        CharClass.isSpaceOrTab y = false ∧ y ∉ ['i', 'u', 'w', 'r', 'd'] := by decide
    have hword : ∀ y ∈ name, CharClass.isWord y = true := by
      have hletters : ∀ name ∈ ["FactoryBot".toList, "FactoryGirl".toList], ∀ y ∈ name,
          CharClass.isWord y = true := by decide
      exact hletters name hname
    simp only [List.mem_append, List.mem_cons, not_or] at hline
    obtain ⟨⟨-, hfirst⟩, -, hlast⟩ := hline
    have hdot (passed : Text) (rest : Text) :
        reach passed depth ('.' :: rest) = reach ('.' :: passed) depth rest + 1 :=
      reach_solid rfl (by decide) (by decide) passed depth rest
    have hsplit : name ++ before ++ '.' :: behind ++ (v.method.toList ++ more) =
        name ++ (before ++ '.' :: (behind ++ x :: (method ++ more))) := by simp [hmethod]
    rw [hsplit, reach_word hword, reach_blanks hbefore hfirst (by decide) (by decide), hdot,
      reach_blanks hbehind hlast (hletter x hx).1 (hletter x hx).2, hmethod]
    simp only [List.length_append, List.length_cons, List.reverse_append, List.reverse_cons,
      List.append_assoc, List.cons_append, List.nil_append]
    omega

/-- A list that comes to the head of a call goes over the method name, unless it ends at a line
break in front of it. -/
theorem IsLead.exists_reach_append {lead : Text} (hlead : IsLead lead) (v : Variant)
    {passed more : Text} {depth : Nat}
    (hgoes : '\n' ∈ lead → lead.length ≤ reach passed depth (lead ++ (v.method.toList ++ more))) :
    ∃ before behind, reach passed depth (lead ++ (v.method.toList ++ more)) =
      lead.length + (v.method.toList.length + reach before behind more) := by
  by_cases hline : '\n' ∈ lead
  · obtain ⟨behind, hreach⟩ := Statement.exists_reach_append (hgoes hline)
    exact ⟨_, behind, by rw [hreach, reach_word isWord_of_mem_method]⟩
  · exact ⟨_, depth, by rw [hlead.reach_append hline, reach_word isWord_of_mem_method]⟩

/-! ### The earlier call -/

/-- What begins with a character that does not stand in a stretch begins behind the stretch. -/
theorem exists_append_of_notMem {gap rest between more : Text} {x : Char} (hx : x ∉ gap)
    (hsplit : gap ++ rest = between ++ x :: more) :
    ∃ inside, between = gap ++ inside ∧ rest = inside ++ x :: more := by
  rcases List.append_eq_append_iff.mp hsplit with hbehind | ⟨inside, rfl, hrest⟩
  · exact hbehind
  · cases inside with
    | nil => exact ⟨[], by simp, hrest.symm⟩
    | cons y inside =>
      obtain ⟨rfl, -⟩ := List.cons.inj hrest
      exact absurd (by simp) hx

section Precedes

variable {outer inner : Call} {h h' : Head} {between lead : Text}

/-- A call that begins in a group ends before the group is closed. -/
theorem Call.IsCutBehind.stop_le_of_group (hinner : inner.IsCutBehind h') (hlead : IsLead lead)
    {inside : Text} {distance : Nat}
    (hclose : closeDistance ofChar []
      ('(' :: (inside ++ (lead ++ (h'.variant.method.toList ++ h'.last.after)))) = some distance)
    (hinside : inside.length < distance) :
    inner.stop + (inside.length + 1 + lead.length + h'.variant.method.toList.length) ≤
      h'.last.offset + distance := by
  rw [closeDistance] at hclose
  obtain ⟨more, hmore, rfl⟩ := Option.map_eq_some_iff.mp hclose
  obtain ⟨kinds, hkinds, hwalk⟩ := exists_closeDistance_append (List.cons_ne_nil _ _) hmore
    (Nat.le_of_lt_succ hinside)
  have hword : IsNested h'.variant.method.toList :=
    .of_plain fun c hc => ofChar_of_isWord (isWord_of_mem_method c hc)
  have hnested := (IsNested.of_plain fun c hc => hlead.ofChar_eq hc).append hword
  rw [← List.append_assoc, hnested kinds _ hkinds, List.length_append] at hwalk
  obtain ⟨rest, hrest, hsum⟩ := Option.map_eq_some_iff.mp hwalk
  have hle := hinner.stop_le_of_closeDistance hkinds hrest
  omega

/-- A call to whose head an argument list comes stands in the list, unless the list ends at a line
break in front of the method name. -/
theorem Call.IsCutBehind.stop_le_of_list (hinner : inner.IsCutBehind h') (hlead : IsLead lead)
    (inside : Text)
    (hcomes : inside.length ≤
      reach [] 0 (inside ++ (lead ++ (h'.variant.method.toList ++ h'.last.after))))
    (hgoes : '\n' ∈ lead → inside.length + lead.length ≤
      reach [] 0 (inside ++ (lead ++ (h'.variant.method.toList ++ h'.last.after)))) :
    inner.stop + (inside.length + lead.length + h'.variant.method.toList.length) ≤
      h'.last.offset +
        argumentLength (inside ++ (lead ++ (h'.variant.method.toList ++ h'.last.after))) := by
  obtain ⟨depth, hinside⟩ := exists_reach_append hcomes
  obtain ⟨passed, behind, hmethod⟩ := hlead.exists_reach_append h'.variant fun hline => by
    have hover := hgoes hline
    rw [hinside] at hover
    exact Nat.le_of_add_le_add_left hover
  have hsplit : inside ++ (lead ++ (h'.variant.method.toList ++ h'.last.after)) =
      (inside ++ (lead ++ h'.variant.method.toList)) ++ h'.last.after := by
    simp only [List.append_assoc]
  have hlength : (inside ++ (lead ++ h'.variant.method.toList)).length =
      inside.length + (lead.length + h'.variant.method.toList.length) := by
    simp only [List.length_append]
  have hreach : reach [] 0 ((inside ++ (lead ++ h'.variant.method.toList)) ++ h'.last.after) =
      (inside ++ (lead ++ h'.variant.method.toList)).length +
        reach passed behind h'.last.after := by
    rw [← hsplit, hinside, hmethod, hlength]
    omega
  have hend := hinner.stop_le_of_reach hreach
  rw [hsplit]
  omega

/-- A call stands behind an earlier one, or in its arguments, or the arguments of the earlier one
end at a line break in front of its method name. -/
theorem Call.IsCutBehind.precedes (houter : outer.IsCutBehind h) (hinner : inner.IsCutBehind h')
    (hhead : inner.HasHead h') (hstands : h'.StandsAt h'.first h'.last)
    (hbetween : h.last.Passes between h'.first) : outer.Precedes h.last.text inner := by
  obtain ⟨lead, hlead, hpass⟩ := exists_isLead_of_mem_receiver hstands.receiver
  obtain ⟨x, method, hfirst, hx⟩ := hlead.exists_cons h'.variant
  have hcallee := hstands.callee
  have hstart := hbetween.offset
  have hname := hpass.offset
  have hlast := hcallee.offset
  have hcons : lead ++ (h'.variant.method.toList ++ h'.last.after) =
      x :: (method ++ h'.last.after) := by
    rw [← List.append_assoc, hfirst]
    rfl
  have hafter : h.last.after =
      between ++ (lead ++ (h'.variant.method.toList ++ h'.last.after)) := by
    rw [hbetween.after, hpass.after, hcallee.after]
  by_cases hapart : outer.stop ≤ inner.start
  · exact .apart hapart
  have hbefore : h'.first.offset < outer.stop := by
    rw [← hhead.start]
    exact Nat.lt_of_not_le hapart
  have hholds (hargs : outer.argsStart ≤ h'.first.offset) (hstop : inner.stop ≤ outer.argsStop) :
      outer.Precedes h.last.text inner := by
    refine .holding (Bool.and_eq_true_iff.mpr ⟨decide_eq_true ?_, decide_eq_true hstop⟩)
    rw [hhead.start]
    exact hargs
  cases houter with
  | @parenthesized distance hround hclose hargs hargsStop hstop =>
    -- the later call begins behind the opening bracket, inside its group
    obtain ⟨group, hgroup⟩ := List.head?_eq_some_iff.mp hround
    have hround : x ∉ ['('] := by
      rw [List.mem_singleton]
      rintro rfl
      exact absurd hx (by decide)
    obtain ⟨inside, rfl, hinside⟩ := @exists_append_of_notMem ['('] group between
      (method ++ h'.last.after) x hround (by rw [← hcons, ← hafter, hgroup]; rfl)
    rw [hgroup, hinside, ← hcons] at hclose
    rw [List.length_append, List.length_singleton] at hstart
    have hend := hinner.stop_le_of_group hlead hclose (by omega)
    exact hholds (by omega) (by omega)
  | @bare gap rest hgapped hgap hblank hbegins hargs hargsStop hstop =>
    -- the later call begins behind the blanks, with the list underway
    have hsolid : x ∉ gap := fun hmem => by
      rw [CharClass.isWord_eq_false_of_isBlank
        (CharClass.isBlank_of_isSpaceOrTab (hblank x hmem))] at hx
      cases hx
    obtain ⟨inside, rfl, rfl⟩ := exists_append_of_notMem hsolid
      (show gap ++ rest = between ++ x :: (method ++ h'.last.after) by
        rw [← hgapped, hafter, hcons])
    rw [← hcons] at hargsStop
    rw [List.length_append] at hstart
    have hlength := argumentLength_le_reach
      (inside ++ (lead ++ (h'.variant.method.toList ++ h'.last.after)))
    by_cases hbreak : '\n' ∈ lead ∧ outer.stop ≤ h'.callee.offset
    · refine .broken (hhead.start ▸ hbefore) (hhead.calleeStart ▸ hbreak.2) ?_
      rw [hhead.start, hhead.calleeStart, ← hbetween.text, hpass.slice]
      exact hbreak.1
    -- otherwise the list goes over the method name and what stands behind it
    have hend := hinner.stop_le_of_list hlead inside (by omega) fun hline => by
      have hover := Nat.lt_of_not_le fun hle => hbreak ⟨hline, hle⟩
      omega
    exact hholds (by omega) (by omega)

end Precedes

/-! ### All calls of a text -/

/-- Of any two calls of a text whose parentheses are closed, the later one stands behind the earlier
or in its arguments, or a line break parts it from its library and ends these arguments. -/
theorem pairwise_precedes (text : Text) :
    (calls text (mask text)).Pairwise fun outer inner =>
      outer.fault ≠ some .unbalancedArguments → inner.fault ≠ some .unbalancedArguments →
        outer.Precedes (mask text) inner := by
  refine (pairwise_calls text (mask text)).imp_of_mem
    fun {outer inner} houter hinner hbehind hfault hfault' => ?_
  obtain ⟨h, hmem, hhead, hcut⟩ := exists_isCutBehind_of_mem_calls houter hfault
  obtain ⟨h', hmem', hhead', hcut'⟩ := exists_isCutBehind_of_mem_calls hinner hfault'
  obtain ⟨hstands, htext⟩ := standsAt_of_mem_heads hmem
  obtain ⟨hstands', htext'⟩ := standsAt_of_mem_heads hmem'
  obtain ⟨stretch, -, hpass⟩ := hstands.exists_passes
  rw [hhead.calleeStop, hhead'.start] at hbehind
  have hlast : h.last.text = mask text := hpass.text.trans htext
  obtain ⟨between, hbetween⟩ := Cursor.exists_passes (hlast.trans htext'.symm) hbehind
  exact hlast ▸ hcut.precedes hcut' hhead' hstands' hbetween

/-- Whether a line break parts the method name of a site from its library. -/
def isBroken (masked : Text) (s : CallSite) : Bool :=
  (masked.slice s.sourceSpan.start s.calleeSpan.start).contains '\n'

/-- The sites of a text whose parentheses are closed stand apart or in each other, and one that
stands in another is enclosed by a call; unless a line break parts its method name from its library,
and the other one ends before the method name. -/
theorem pairwise_extract (text : Text) :
    (extract text).Pairwise fun outer inner =>
      outer.fault ≠ some .unbalancedArguments → inner.fault ≠ some .unbalancedArguments →
        outer.sourceSpan.stop ≤ inner.sourceSpan.start ∨
        (outer.sourceSpan.contains inner.sourceSpan = true ∧
          inner.enclosingVariant.isSome = true) ∨
        (inner.isBroken (mask text) = true ∧ inner.sourceSpan.start < outer.sourceSpan.stop ∧
          outer.sourceSpan.stop ≤ inner.calleeSpan.start) := by
  rw [extract_eq_map, List.pairwise_map]
  refine ((pairwise_precedes text).and (pairwise_start_calls text)).imp_of_mem
    fun {outer inner} houter _ hboth hfault hfault' => ?_
  obtain ⟨hprecedes, hstart⟩ := hboth
  cases hprecedes hfault hfault' with
  | apart h => exact .inl h
  | broken hoverlap hstop hbreak =>
    exact .inr (.inr ⟨List.contains_iff_mem.mpr hbreak, hoverlap, hstop⟩)
  | holding h =>
    refine .inr (.inl ⟨?_, (isSome_enclosingVariant_iff text inner).mpr
      ⟨outer, houter, Nat.ne_of_lt hstart, h⟩⟩)
    have hframed := (isFramed_of_mem_calls houter).argsStop_le
    have hargs := Bool.and_eq_true_iff.mp h
    have hstop : inner.stop ≤ outer.argsStop := of_decide_eq_true hargs.2
    exact Bool.and_eq_true_iff.mpr ⟨decide_eq_true hstart.le, decide_eq_true (hstop.trans hframed)⟩

/-- A line break behind the library crosses the two calls, and no evidence of nesting is left. -/
theorem spans_extract_crossing :
    (extract "create :post, author: FactoryBot\n  .create(:user)\n".toList).map
      (fun s => (s.sourceSpan.start, s.sourceSpan.stop, s.enclosingVariant)) =
        [(0, 32, none), (22, 49, none)] := by
  decide +kernel

end CallSite

end FactoryDowngrade
