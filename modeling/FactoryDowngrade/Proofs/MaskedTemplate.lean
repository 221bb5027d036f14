import FactoryDowngrade.Proofs.PlanSafety
import FactoryDowngrade.Proofs.Receivers
import FactoryDowngrade.Proofs.Template.Calls
import FactoryDowngrade.Proofs.Template.Heredocs

/-!
# The template of a masked text

The method names that are to change stand in the masked text as they do in the text itself, so the
masked text is a template with the same slots. Every slot is the method name of a call, which is
why the template is orderly: nothing that belongs to a word stands before a slot, and the arguments
of the call stand behind it.
-/

namespace FactoryDowngrade

open Template

namespace CallSite

/-- Blanks do not stain. -/
theorem stains_eq_false_of_isBlank {c : Char} (h : CharClass.isBlank c = true) :
    stains c = false := by
  have hmarks : ∀ mark ∈ ['?', '!', ':', '@', '$'], CharClass.isBlank mark = false := by decide
  rw [stains, CharClass.isWord_eq_false_of_isBlank h, Bool.false_or, Bool.eq_false_iff]
  intro hmark
  have hclean := hmarks c (List.contains_iff_mem.mp hmark)
  rw [h] at hclean
  cases hclean

/-- What stains a slot spoils a call without a receiver. -/
theorem stains_eq_false_of_spoilsBefore {c : Char} (h : spoilsBefore c = false) :
    stains c = false := by
  simp only [spoilsBefore, stains, List.contains_cons, Bool.or_eq_false_iff] at h ⊢
  tauto

/-- No character that would stain a slot stands directly before a method name. -/
theorem Head.StandsAt.not_stains_before {h : Head} {c stop : Cursor} (hstands : h.StandsAt c stop)
    {x : Char} (hx : h.callee.before.head? = some x) : stains x = false := by
  obtain ⟨lead, hlead, hpass⟩ := exists_isLead_of_mem_receiver hstands.receiver
  cases hlead with
  | bare =>
    obtain rfl := hpass.unique (.refl c)
    have hunspoiled := hstands.unspoiled
    rw [Cursor.follows, hx] at hunspoiled
    exact stains_eq_false_of_spoilsBefore hunspoiled
  | @library name before behind _ _ hbehind =>
    -- the nearest character is a blank behind the dot, or the dot
    rw [hpass.before] at hx
    cases hreverse : behind.reverse with
    | nil =>
      obtain rfl : '.' = x := by simpa [hreverse] using hx
      decide
    | cons y rest =>
      obtain rfl : y = x := by simpa [hreverse] using hx
      refine stains_eq_false_of_isBlank (hbehind y (List.mem_reverse.mp ?_))
      rw [hreverse]
      exact List.mem_cons_self

/-- A name that begins in the text where a template is shown begins in the template, too. -/
theorem opensName_of_beginsName {text : Text} {offset : Nat} {t : Template}
    (hshown : (mask text).drop offset = fill Filling.created.word t)
    (hspace : t.head?.any (onItem false CharClass.isSpaceOrTab) = false)
    (hname : beginsName (text.drop offset) = true) : opensName t = true := by
  -- where the masked text shows a character that is no blank, the text has it
  have hopens {x : Char} (hx : (fill Filling.created.word t).head? = some x) (hvisible : x ≠ ' ') :
      (x == ':' || x == '"' || x == '\'') = true := by
    rw [← hshown, List.head?_drop] at hx
    have hraw := getElem?_of_getElem?_mask hx hvisible
    rw [← List.head?_drop] at hraw
    obtain ⟨more, hmore⟩ := List.head?_eq_some_iff.mp hraw
    rw [hmore, beginsName_cons, Bool.and_eq_true] at hname
    exact hname.2
  cases t with
  | nil => rfl
  | cons item rest =>
    cases item with
    | none => exact absurd (hopens (x := 'c') rfl (by decide)) (by decide)
    | some c =>
      refine hopens rfl ?_
      rintro rfl
      cases hspace

/-- Where a head begins a call, its arguments begin in every template of what follows. -/
theorem opensArguments_of_call? {h : Head} {text : Text} {call : Call}
    (hcall : h.call? text = some call) (htext : h.last.text = mask text) {after : Template}
    (hafter : h.last.after = fill Filling.created.word after) : opensArguments after = true := by
  have hspace : Ignores CharClass.isSpaceOrTab false := by decide
  have hword := Filling.created.isSlotWord_word
  obtain ⟨-, hbegins⟩ := Head.call?_eq_some_iff.mp hcall
  have hparenthesis (hround : h.last.after.head? = some '(') : opensArguments after = true := by
    rw [hafter, head?_fill_eq_some_iff (by decide) hword] at hround
    obtain ⟨rest, rfl⟩ := List.head?_eq_some_iff.mp hround
    simp [opensArguments]
  cases hbegins with
  | unbalanced hround _ => exact hparenthesis hround
  | parenthesized hround _ => exact hparenthesis hround
  | @bare gap rest hgapped hgap hblank hrest hname =>
    have hdrop : rest = fill Filling.created.word
        (after.dropWhile (onItem false CharClass.isSpaceOrTab)) := by
      rw [← dropWhile_fill hspace hword, ← hafter, hgapped, (takeWhile_append_stop hblank hrest).2]
    have hshown : (mask text).drop (h.last.offset + gap.length) = fill Filling.created.word
        (after.dropWhile (onItem false CharClass.isSpaceOrTab)) := by
      rw [← htext, Cursor.drop_offset_add, hgapped, List.drop_left, hdrop]
    have hopens : opensName (after.dropWhile (onItem false CharClass.isSpaceOrTab)) = true :=
      opensName_of_beginsName hshown
        (by rwa [← any_head?_fill hspace hword, ← hdrop]) hname
    obtain ⟨x, gap, rfl⟩ := List.exists_cons_of_ne_nil hgap
    have hx := hblank x List.mem_cons_self
    rw [hafter] at hgapped
    cases after with
    | nil => rfl
    | cons item after =>
      cases item with
      | none =>
        obtain ⟨c, hc, more, -, hfill⟩ := exists_fill_none_eq hword after
        rw [hfill] at hgapped
        obtain ⟨rfl, -⟩ := List.cons.inj hgapped
        exact absurd hx ((by decide : ∀ c ∈ letters, ¬CharClass.isSpaceOrTab c = true) c hc)
      | some c =>
        obtain rfl : c = x := (List.cons.inj hgapped).1
        rw [List.dropWhile_cons_of_pos (by rwa [onItem_some])] at hopens
        simp [opensArguments, hx, hopens]

/-- A site whose method name stands where a heredoc with a flag has its tag. -/
def IsTag (text : Text) (s : CallSite) : Prop :=
  (mask text).slice (s.calleeSpan.start - 3) s.calleeSpan.start ∈ ["<<-".toList, "<<~".toList]

instance (text : Text) (s : CallSite) : Decidable (s.IsTag text) :=
  inferInstanceAs (Decidable (_ ∈ ["<<-".toList, "<<~".toList]))

end CallSite

namespace Analysis

open CallSite

variable {text : Text} {granularity : Option Text} {config : Config}

/-- The masked text with a slot for each method name that is to change. -/
def maskedTemplate (text : Text) (granularity : Option Text) (config : Config) : Template :=
  ofSpans (mask text) 0 (proposedSpans text granularity config)

/-- A site that is to change has its head in the masked text. -/
theorem exists_head_of_mem_proposedSites {s : CallSite}
    (h : s ∈ proposedSites text granularity config) :
    ∃ head ∈ heads (mask text), ∃ call, head.call? text = some call ∧ head.variant = .create ∧
      s.sourceSpan.start = head.first.offset ∧ s.calleeSpan.start = head.callee.offset ∧
      s.calleeSpan.stop = head.last.offset := by
  obtain ⟨call, hcall, rfl, hcreate⟩ := exists_call_of_mem_proposedSites h
  obtain ⟨head, hmem, hhead⟩ := List.mem_filterMap.mp hcall
  have hparts := hasHead_of_call? hhead
  exact ⟨head, hmem, call, hhead, hparts.variant ▸ hcreate, hparts.start, hparts.calleeStart,
    hparts.calleeStop⟩

/-- The method names that are to change spell `create` in the masked text. -/
theorem isSpelling_proposedSpans_mask (text : Text) (granularity : Option Text) (config : Config) :
    IsSpelling Filling.created.word (mask text) 0 (proposedSpans text granularity config) where
  ordered := (isSpelling_proposedSpans text granularity config).ordered
  behind := (isSpelling_proposedSpans text granularity config).behind
  long := (isSpelling_proposedSpans text granularity config).long
  inside := by
    rw [length_mask]
    exact (isSpelling_proposedSpans text granularity config).inside
  slice := by
    intro span hspan
    obtain ⟨s, hs, rfl⟩ := List.mem_map.mp hspan
    obtain ⟨head, hmem, -, -, hcreate, -, hstart, hstop⟩ := exists_head_of_mem_proposedSites hs
    obtain ⟨hstands, htext⟩ := standsAt_of_mem_heads hmem
    obtain ⟨lead, hlead⟩ := hstands.exists_passes_callee
    have hslice := hstands.callee.slice
    rwa [hlead.text, htext, hcreate, ← hstart, ← hstop] at hslice

/-- The masked text is its template filled with `create`. -/
theorem fill_created_maskedTemplate (text : Text) (granularity : Option Text) (config : Config) :
    fill Filling.created.word (maskedTemplate text granularity config) = mask text :=
  fill_ofSpans (isSpelling_proposedSpans_mask text granularity config)

/-- The text and the masked text have their slots at the same items. -/
theorem sameSlots_maskedTemplate (text : Text) (granularity : Option Text) (config : Config) :
    SameSlots (template text granularity config) (maskedTemplate text granularity config) :=
  sameSlots_ofSpans (length_mask text).symm 0 _

/-- The method names that are to change stand at the slots. -/
theorem exists_mem_proposedSites_iff {start : Nat} :
    (∃ s ∈ proposedSites text granularity config, s.calleeSpan.start = start) ↔
      ∃ index, (maskedTemplate text granularity config)[index]? = some none ∧
        start = offsetOf Filling.created.word (maskedTemplate text granularity config) index := by
  have hslots : slots Filling.created.word 0 (maskedTemplate text granularity config) =
      proposedSpans text granularity config :=
    slots_ofSpans (isSpelling_proposedSpans_mask text granularity config)
  constructor
  · rintro ⟨s, hs, rfl⟩
    have hspan : (s.calleeSpan.start, s.calleeSpan.stop) ∈
        proposedSpans text granularity config := List.mem_map_of_mem hs
    rw [← hslots, mem_slots_iff] at hspan
    obtain ⟨index, hindex, hplace⟩ := hspan
    exact ⟨index, hindex, (Prod.mk.inj hplace).1.trans (Nat.zero_add _)⟩
  · rintro ⟨index, hindex, rfl⟩
    have hspan : (0 + offsetOf Filling.created.word (maskedTemplate text granularity config) index,
        _) ∈ slots Filling.created.word 0 (maskedTemplate text granularity config) :=
      mem_slots_iff.mpr ⟨index, hindex, rfl⟩
    rw [hslots] at hspan
    obtain ⟨s, hs, hplace⟩ := List.mem_map.mp hspan
    exact ⟨s, hs, (Prod.mk.inj hplace).1.trans (Nat.zero_add _)⟩

/-- At every slot stands the head of a call that is to change. -/
theorem exists_head_of_slot {before after : Template}
    (h : maskedTemplate text granularity config = before ++ none :: after) :
    ∃ s ∈ proposedSites text granularity config, ∃ head ∈ heads (mask text), ∃ call,
      head.call? text = some call ∧ s.sourceSpan.start = head.first.offset ∧
        s.calleeSpan.start = (fill Filling.created.word before).length ∧
        head.callee.before = (fill Filling.created.word before).reverse ∧
        head.last.after = fill Filling.created.word after := by
  have hslot : (maskedTemplate text granularity config)[before.length]? = some none := by
    simp [h]
  obtain ⟨s, hs, hstart⟩ := exists_mem_proposedSites_iff.mpr ⟨before.length, hslot, rfl⟩
  rw [h, offsetOf, List.take_left] at hstart
  obtain ⟨head, hmem, call, hcall, hcreate, hfirst, hcallee, -⟩ :=
    exists_head_of_mem_proposedSites hs
  obtain ⟨hstands, htext⟩ := standsAt_of_mem_heads hmem
  obtain ⟨lead, hlead⟩ := hstands.exists_passes_callee
  have hplace : head.callee = ⟨(fill Filling.created.word before).reverse,
      Filling.created.word ++ fill Filling.created.word after⟩ := by
    refine Cursor.eq_of_offset ?_ ?_
    · rw [hlead.text, htext, ← fill_created_maskedTemplate, h, Cursor.text, List.reverse_reverse,
        fill_append, fill_none]
    · rw [← hcallee, hstart, Cursor.offset, List.length_reverse]
  have hbehind := hstands.callee.after
  rw [hplace, hcreate] at hbehind
  exact ⟨s, hs, head, hmem, call, hcall, hfirst, hstart, by rw [hplace],
    (List.append_cancel_left hbehind).symm⟩

/-- The template of the masked text is orderly. -/
theorem isOrderly_maskedTemplate (text : Text) (granularity : Option Text) (config : Config) :
    IsOrderly (maskedTemplate text granularity config) where
  unstained := by
    intro before c after h
    have hslot : maskedTemplate text granularity config =
        (before ++ [some c]) ++ none :: after := by simpa using h
    obtain ⟨-, -, head, hmem, -, -, -, -, hbefore, -⟩ := exists_head_of_slot hslot
    exact (standsAt_of_mem_heads hmem).1.not_stains_before (by simp [hbefore])
  arguments := by
    intro before after h
    obtain ⟨-, -, head, hmem, call, hcall, -, -, -, hafter⟩ := exists_head_of_slot h
    obtain ⟨hstands, htext⟩ := standsAt_of_mem_heads hmem
    obtain ⟨stretch, -, hpass⟩ := hstands.exists_passes
    exact opensArguments_of_call? hcall (hpass.text.trans htext) hafter

/-- No slot follows the flag of a heredoc if no tag is to change. -/
theorem isUntagged_maskedTemplate
    (htags : ∀ s ∈ proposedSites text granularity config, ¬s.IsTag text) :
    Heredoc.IsUntagged (maskedTemplate text granularity config) := by
  intro before flag after h
  have hslot : maskedTemplate text granularity config =
      (before ++ [some '<', some '<', some flag]) ++ none :: after := by simpa using h
  obtain ⟨s, hs, -, -, -, -, -, hstart, -, -⟩ := exists_head_of_slot hslot
  have hshown : (mask text).slice (s.calleeSpan.start - 3) s.calleeSpan.start =
      ['<', '<', flag] := by
    have hlength : (fill Filling.created.word (before ++ [some '<', some '<', some flag])).length =
        (fill Filling.created.word before).length + 3 := by simp
    rw [← fill_created_maskedTemplate text granularity config, hslot, hstart, hlength,
      Nat.add_sub_cancel, fill_append, fill_append, List.append_assoc, Text.slice,
      List.take_length_add_append, List.drop_left]
    rfl
  have htag := htags s hs
  rw [IsTag, hshown] at htag
  refine ⟨?_, ?_⟩
  · rintro rfl
    exact htag (by decide)
  · rintro rfl
    exact htag (by decide)

end Analysis

end FactoryDowngrade
