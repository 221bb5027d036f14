import FactoryDowngrade.Proofs.CallSiteSpans
import FactoryDowngrade.Proofs.Text.CharClasses

/-!
# Receivers of construction calls

What stands in a call in front of its method name is nothing, or one of the two factory libraries
with a dot. And no character stands directly before a call that would make its first word a part of
something longer, a dot among them. A dot that blanks separate from the call is not seen.
-/

namespace FactoryDowngrade

namespace CallSite

open Cursor

/-- What may stand in a call in front of its method name: nothing, or a library with a dot behind
it, which blanks may surround. -/
inductive IsLead : Text → Prop where
  | bare : IsLead []
  | library {name before behind : Text} (hname : name ∈ ["FactoryBot".toList, "FactoryGirl".toList])
    (hbefore : ∀ c ∈ before, CharClass.isBlank c = true)
    (hbehind : ∀ c ∈ behind, CharClass.isBlank c = true) :
    IsLead (name ++ before ++ '.' :: behind)

/-- A receiver is a library with a dot. -/
theorem exists_isLead_of_mem_receiver {c d : Cursor} (h : d ∈ (Pattern.maybe receiver).ends c) :
    ∃ lead, IsLead lead ∧ c.Passes lead d := by
  rcases List.mem_append.mp h with h | h
  · obtain ⟨named, hnamed, h⟩ := Pattern.mem_ends_seq.mp h
    obtain ⟨spaced, hspaced, h⟩ := Pattern.mem_ends_seq.mp h
    obtain ⟨dotted, hdotted, h⟩ := Pattern.mem_ends_seq.mp h
    obtain ⟨last, hlast, hend⟩ := Pattern.mem_ends_seq.mp h
    obtain rfl : d = last := List.mem_singleton.mp hend
    obtain ⟨name, hname, hpassName⟩ : ∃ name ∈ ["FactoryBot".toList, "FactoryGirl".toList],
        c.Passes name named := by
      rcases List.mem_append.mp hnamed with hbot | hgirl
      · exact ⟨_, by simp, Pattern.mem_ends_literal.mp hbot⟩
      · exact ⟨_, by simp, Pattern.mem_ends_literal.mp hgirl⟩
    obtain ⟨before, hbefore, hpassBefore⟩ := Pattern.mem_ends_run.mp hspaced
    obtain ⟨dot, hdot, hpassDot⟩ := Pattern.mem_ends_one.mp hdotted
    obtain rfl : dot = '.' := by simpa using hdot
    obtain ⟨behind, hbehind, hpassBehind⟩ := Pattern.mem_ends_run.mp hlast
    exact ⟨_, .library hname hbefore hbehind,
      (hpassName.trans hpassBefore).trans (hpassDot.trans hpassBehind)⟩
  · obtain rfl : d = c := List.mem_singleton.mp h
    exact ⟨[], .bare, .refl d⟩

/-- A line that begins in a call in front of its method name begins behind the dot. -/
theorem IsLead.exists_dot {lead method behind rest : Text} {x : Char} (hlead : IsLead lead)
    (hmethod : '\n' ∉ method) (hsplit : behind ++ x :: rest = lead ++ method)
    (hbreak : behind.getLast? = some '\n') (hx : CharClass.isWord x = true) :
    ∃ front gap, behind = front ++ '.' :: gap ∧ ∀ c ∈ gap, CharClass.isBlank c = true := by
  have hmem : '\n' ∈ behind := List.mem_of_getLast? hbreak
  -- the line break belongs to what stands before the method name
  have hinside : ∀ inner, behind = lead ++ inner → inner = [] := by
    rintro inner rfl
    rw [List.append_assoc] at hsplit
    have hfront : inner ++ x :: rest = method := List.append_cancel_left hsplit
    by_contra hinner
    rw [List.getLast?_append_of_ne_nil _ hinner] at hbreak
    exact hmethod (hfront ▸ List.mem_append_left _ (List.mem_of_getLast? hbreak))
  have hdot : x ≠ '.' := by
    rintro rfl
    exact absurd hx (by decide)
  cases hlead with
  | bare =>
    rw [hinside behind rfl] at hmem
    cases hmem
  | @library name before after hname hbefore hafter =>
    have hnone : ∀ name ∈ ["FactoryBot".toList, "FactoryGirl".toList], '\n' ∉ name := by decide
    have hparts : behind ++ x :: rest = (name ++ before) ++ '.' :: (after ++ method) := by
      rw [hsplit]
      simp
    rcases List.append_eq_append_iff.mp hparts with ⟨gap, hfront, hgap⟩ | ⟨gap, hfront, hgap⟩
    · -- it would stand before the dot, with a blank or the dot behind it
      exfalso
      cases gap with
      | nil => exact hdot (List.cons.inj hgap).1
      | cons y gap =>
        obtain rfl : x = y := (List.cons.inj hgap).1
        have hblank : x ∈ before := by
          rcases List.append_eq_append_iff.mp hfront with ⟨inner, -, hinner⟩ | ⟨inner, hinner, -⟩
          · rw [hinner]
            simp
          · exact absurd (hinner ▸ List.mem_append_left _ hmem) (hnone name hname)
        rw [CharClass.isWord_eq_false_of_isBlank (hbefore x hblank)] at hx
        cases hx
    · cases gap with
      | nil => exact absurd (List.cons.inj hgap).1.symm hdot
      | cons y gap =>
        obtain ⟨rfl, hmore⟩ := List.cons.inj hgap
        refine ⟨name ++ before, gap, hfront, fun c hc => hafter c ?_⟩
        rcases List.append_eq_append_iff.mp hmore with ⟨inner, hinner, -⟩ | ⟨inner, hinner, -⟩
        · obtain rfl := hinside inner (by rw [hfront, hinner]; simp)
          rwa [hinner, List.append_nil] at hc
        · exact hinner ▸ List.mem_append_left _ hc

/-- A head that goes on over the start of a line, where a word begins, has passed a dot before
it. -/
theorem Head.StandsAt.head?_dropWhile_of_lineBreak {h : Head} {c d stop : Cursor} {behind : Text}
    (hstands : h.StandsAt c stop) (hpass : c.Passes behind d) (hbreak : behind.getLast? = some '\n')
    (hword : d.precedes CharClass.isWord = true) (hover : d.offset < stop.offset) :
    (d.before.dropWhile CharClass.isBlank).head? = some '.' := by
  have hmethod : '\n' ∉ h.variant.method.toList := by
    cases h.variant <;> decide
  obtain ⟨lead, hlead, hcallee⟩ := exists_isLead_of_mem_receiver hstands.receiver
  have hall := hcallee.trans hstands.callee
  have hlength : behind.length < (lead ++ h.variant.method.toList).length := by
    have hstop := hall.offset
    have hplace := hpass.offset
    omega
  obtain ⟨rest, hrest⟩ : behind <+: lead ++ h.variant.method.toList :=
    List.prefix_of_prefix_length_le ⟨d.after, hpass.after.symm⟩ ⟨stop.after, hall.after.symm⟩
      hlength.le
  have hahead : d.after = rest ++ stop.after := by
    have hafter := hpass.after.symm.trans hall.after
    rw [← hrest, List.append_assoc] at hafter
    exact List.append_cancel_left hafter
  cases rest with
  | nil =>
    rw [← hrest, List.append_nil] at hlength
    exact absurd hlength (Nat.lt_irrefl _)
  | cons x rest =>
    rw [Cursor.precedes, hahead] at hword
    obtain ⟨front, gap, rfl, hgap⟩ := hlead.exists_dot hmethod hrest hbreak hword
    rw [hpass.before, List.reverse_append, List.reverse_cons, List.append_assoc, List.append_assoc,
      List.dropWhile_append_of_pos fun z hz => hgap z (List.mem_reverse.mp hz)]
    rfl

/-- Every site is a call without a receiver or on one of the libraries, and the character directly
before it is no part of a word, no sigil, no colon and no dot. -/
theorem isLead_of_mem_extract {text : Text} {s : CallSite} (h : s ∈ extract text) :
    IsLead ((mask text).slice s.sourceSpan.start s.calleeSpan.start) ∧
      ∀ index c, index + 1 = s.sourceSpan.start → (mask text)[index]? = some c →
        spoilsBefore c = false := by
  rw [extract_eq_map] at h
  obtain ⟨call, hcall, rfl⟩ := List.mem_map.mp h
  obtain ⟨head, hmem, hhead⟩ := exists_head_of_mem_calls hcall
  obtain ⟨hstands, htext⟩ := standsAt_of_mem_heads hmem
  obtain ⟨lead, hlead, hpass⟩ := exists_isLead_of_mem_receiver hstands.receiver
  change IsLead ((mask text).slice call.start call.calleeStart) ∧
    ∀ index c, index + 1 = call.start → (mask text)[index]? = some c → spoilsBefore c = false
  rw [hhead.start, hhead.calleeStart, ← htext, hpass.slice]
  refine ⟨hlead, fun index c hindex hc => ?_⟩
  rw [← Cursor.head?_before hindex] at hc
  have hunspoiled := hstands.unspoiled
  rw [Cursor.follows, hc] at hunspoiled
  exact hunspoiled

/-- A call on a library, with a line break before the dot. -/
theorem isLead_of_mem_extract_library :
    ∃ s ∈ extract "user = FactoryBot\n  .create(:user)\n".toList,
      IsLead ((mask "user = FactoryBot\n  .create(:user)\n".toList).slice s.sourceSpan.start
        s.calleeSpan.start) ∧
      ∀ index c, index + 1 = s.sourceSpan.start →
        (mask "user = FactoryBot\n  .create(:user)\n".toList)[index]? = some c →
        spoilsBefore c = false := by
  obtain ⟨s, hs⟩ := List.exists_mem_of_ne_nil _ (by decide +kernel :
    extract "user = FactoryBot\n  .create(:user)\n".toList ≠ [])
  exact ⟨s, hs, isLead_of_mem_extract hs⟩

/-- A call on an association is taken for a call without a receiver if a line break stands behind
the dot. -/
theorem exists_mem_extract_behind_dot :
    ∃ s ∈ extract "post.comments.\n  create(:comment)\n".toList,
      (((mask "post.comments.\n  create(:comment)\n".toList).take
        s.sourceSpan.start).reverse.dropWhile CharClass.isBlank).head? = some '.' := by
  decide +kernel

end CallSite

end FactoryDowngrade
