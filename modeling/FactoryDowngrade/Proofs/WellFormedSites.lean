import FactoryDowngrade.Proofs.CallSiteSpans
import FactoryDowngrade.Proofs.Ruby.Extents

/-!
# Call sites are well formed

However a call ends, at its closing parenthesis, with its statement or with its line, its
arguments stand behind its method name and inside its range. So the sites of every text stand in
order, spell out their strategies, hold their arguments and have names of their own.
-/

namespace FactoryDowngrade

namespace CallSite

/-- The arguments of a call stand behind its method name and inside its range, which ends at or
before a limit, and a call without a factory name is told to be faulty. -/
structure Call.IsFramed (call : Call) (limit : Nat) : Prop where
  calleeStop_lt : call.calleeStop < call.argsStart
  argsStart_le : call.argsStart ≤ call.argsStop
  argsStop_le : call.argsStop ≤ call.stop
  stop_le : call.stop ≤ limit
  fault : call.fault.isSome = true ↔ call.schemaName = none

/-- A call whose factory name is read is faulty just when there is none. -/
theorem Head.fault_call (h : Head) (text : Text) (argsStart argsStop stop : Nat) :
    (h.call text argsStart argsStop stop).fault.isSome = true ↔
      (h.call text argsStart argsStop stop).schemaName = none := by
  unfold Head.call
  cases factoryName? (text.slice argsStart argsStop) <;> simp

/-- A call ends inside the text that its head stands in. -/
theorem isFramed_of_call? {h : Head} {text : Text} {call : Call}
    (hcall : h.call? text = some call) :
    call.IsFramed (h.last.offset + h.last.after.length) := by
  obtain ⟨-, hbegins⟩ := Head.call?_eq_some_iff.mp hcall
  cases hbegins with
  | unbalanced hround hclose =>
    -- the line is not empty, as the parenthesis stands on it
    obtain ⟨rest, hafter⟩ := List.head?_eq_some_iff.mp hround
    have hline : 1 ≤ h.last.after.firstLine.length := by simp [hafter, Text.firstLine]
    have hend : h.last.after.firstLine.length ≤ h.last.after.length :=
      (List.takeWhile_prefix _).length_le
    constructor
    case fault => simp [Head.unbalanced]
    all_goals simp only [Head.unbalanced]; omega
  | @parenthesized distance hround hclose =>
    obtain ⟨rest, hafter⟩ := List.head?_eq_some_iff.mp hround
    have hend := Bracket.closeDistance_lt hclose
    rw [hafter] at hclose
    have hpos := Bracket.closeDistance_pos rfl hclose
    constructor
    case fault => exact h.fault_call text _ _ _
    all_goals simp only [Head.call]; omega
  | @bare gap rest hafter hgap hblank hrest hname =>
    have hpos := List.length_pos_iff.mpr hgap
    have hargs := Statement.argumentLength_le rest
    have hlength := congrArg List.length hafter
    rw [List.length_append] at hlength
    constructor
    case fault => exact h.fault_call text _ _ _
    all_goals simp only [Head.call]; omega

/-- Every call of a text ends inside it. -/
theorem isFramed_of_mem_calls {text : Text} {call : Call} (h : call ∈ calls text (mask text)) :
    call.IsFramed text.length := by
  obtain ⟨head, hmem, hcall⟩ := List.mem_filterMap.mp h
  obtain ⟨hstands, htext⟩ := standsAt_of_mem_heads hmem
  obtain ⟨stretch, -, hpass⟩ := hstands.exists_passes
  have hlength : head.last.offset + head.last.after.length = text.length := by
    rw [← length_mask text, ← htext, ← hpass.text, Cursor.text, Cursor.offset, List.length_append,
      List.length_reverse]
  exact hlength ▸ isFramed_of_call? hcall

/-- What a site of a text has to satisfy by itself: it spells its strategy and goes on behind it,
its arguments stand behind the strategy and inside the site, it is faulty just when it names no
factory, and nothing is bound to it when it is faulty or stands in the arguments of another. -/
structure IsWellFormed (text : Text) (s : CallSite) : Prop where
  spelled : text.slice s.calleeSpan.start s.calleeSpan.stop = s.variant.method.toList
  contains : s.sourceSpan.contains s.calleeSpan = true
  behind : s.calleeSpan.stop < s.sourceSpan.stop
  inside : s.sourceSpan.stop ≤ text.length
  arguments : ∃ start stop, s.calleeSpan.stop < start ∧ start ≤ stop ∧ stop ≤ s.sourceSpan.stop ∧
    s.argumentText = text.slice start stop
  faulty : s.fault.isSome = true ↔ s.schemaName = none
  unbound : s.fault.isSome = true ∨ s.enclosingVariant.isSome = true → s.bindingName = none

/-- What the sites of a text have to satisfy together. -/
structure AreWellFormed (text : Text) (sites : List CallSite) : Prop where
  ordered : sites.Pairwise fun a b => a.sourceSpan.start < b.sourceSpan.start
  disjoint : sites.Pairwise fun a b => a.calleeSpan.overlaps b.calleeSpan = false
  named : sites.Pairwise fun a b => a.id ≠ b.id
  each : ∀ s ∈ sites, s.IsWellFormed text

/-- The site of a call is well formed. -/
theorem isWellFormed_siteOf {text : Text} {call : Call} (h : call ∈ calls text (mask text)) :
    (siteOf text call).IsWellFormed text := by
  have hspelled := isSpelled_of_mem_calls h
  have hframed := isFramed_of_mem_calls h
  have hbehind : call.calleeStop < call.stop :=
    hframed.calleeStop_lt.trans_le (hframed.argsStart_le.trans hframed.argsStop_le)
  constructor
  case spelled => exact hspelled.slice
  case contains =>
    have hends : call.start ≤ call.calleeStart ∧ call.calleeStop ≤ call.stop :=
      ⟨hspelled.start_le, hbehind.le⟩
    simpa [siteOf, ofCall, LineIndex.span, SourceSpan.contains] using hends
  case behind => exact hbehind
  case inside => exact hframed.stop_le
  case arguments =>
    exact ⟨call.argsStart, call.argsStop, hframed.calleeStop_lt, hframed.argsStart_le,
      hframed.argsStop_le, rfl⟩
  case faulty => exact hframed.fault
  case unbound =>
    intro hloose
    simp only [siteOf, ofCall, Option.isSome_map] at hloose ⊢
    rw [if_neg]
    rcases hloose with hfault | hinner
    · simp [Option.isSome_iff_ne_none.mp hfault]
    · simp [Option.isSome_iff_ne_none.mp hinner]

/-- The sites of every text are well formed. -/
theorem areWellFormed_extract (text : Text) : AreWellFormed text (extract text) := by
  constructor
  case ordered =>
    rw [extract_eq_map, List.pairwise_map]
    exact pairwise_start_calls text
  case disjoint =>
    rw [extract_eq_map, List.pairwise_map]
    refine (pairwise_calls text (mask text)).imp_of_mem fun {a b} _ hb hab => ?_
    -- the method name of the second call stands behind its start, and so behind the first one
    have hlater := hab.trans (isSpelled_of_mem_calls hb).start_le
    rw [SourceSpan.overlaps, Bool.and_eq_false_iff]
    exact .inr (decide_eq_false (Nat.not_lt.mpr hlater))
  case named => exact pairwise_id_extract text
  case each =>
    intro s hs
    rw [extract_eq_map] at hs
    obtain ⟨call, hcall, rfl⟩ := List.mem_map.mp hs
    exact isWellFormed_siteOf hcall

end CallSite

end FactoryDowngrade
