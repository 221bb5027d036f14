import FactoryDowngrade.Evidence.Basic
import FactoryDowngrade.Proofs.SiteIdentity
import Mathlib.Data.List.DropRight

/-!
# Positions are exact

The line of an offset is one more than the number of line breaks before it, and its column one more
than the number of characters behind the last of them. An index finds both from the starts of the
lines alone: those at or before the offset are the first ones, so that every search for the place
where they end gives the same position.

The line is also the one that descriptions show, and the names of call sites tell their positions.
-/

namespace FactoryDowngrade

namespace LineIndex

/-! ### Line starts -/

section Starts

variable {offset start : Nat} {text : Text}

/-- The line starts of two texts in a row are those of the first and those of the second. -/
theorem startsFrom_append (offset : Nat) (s t : Text) :
    startsFrom offset (s ++ t) = startsFrom offset s ++ startsFrom (offset + s.length) t := by
  induction s generalizing offset with
  | nil => rfl
  | cons c s ih =>
    have hnext : offset + (c :: s).length = offset + 1 + s.length := by
      rw [List.length_cons]
      omega
    rw [List.cons_append, startsFrom, startsFrom, ih, hnext]
    split <;> rfl

/-- A line start lies behind the beginning of the text and not behind its end. -/
theorem bounds_of_mem_startsFrom (h : start ∈ startsFrom offset text) :
    offset < start ∧ start ≤ offset + text.length := by
  induction text generalizing offset with
  | nil => cases h
  | cons c text ih =>
    rw [startsFrom] at h
    rw [List.length_cons]
    split at h
    · rcases List.mem_cons.mp h with rfl | h
      · omega
      · have hbounds := ih h
        omega
    · have hbounds := ih h
      omega

/-- Every line break starts a line. -/
theorem length_startsFrom (offset : Nat) (text : Text) :
    (startsFrom offset text).length = text.count '\n' := by
  induction text generalizing offset with
  | nil => rfl
  | cons c text ih =>
    rw [startsFrom]
    split
    · rename_i hc
      rw [hc, List.count_cons_self, List.length_cons, ih]
    · rename_i hc
      rw [List.count_cons_of_ne hc, ih]

/-- The last line has the characters behind the last line break. -/
theorem exists_getLast?_startsFrom (text : Text) :
    ∃ start, (0 :: startsFrom 0 text).getLast? = some start ∧
      start + (text.rtakeWhile (· ≠ '\n')).length = text.length := by
  induction text using List.reverseRecOn with
  | nil => exact ⟨0, rfl, rfl⟩
  | append_singleton text c ih =>
    obtain ⟨start, hstart, hlength⟩ := ih
    rw [startsFrom_append, Nat.zero_add, List.length_append, List.length_singleton]
    by_cases hc : c = '\n'
    · refine ⟨text.length + 1, ?_, ?_⟩
      · rw [hc, startsFrom, if_pos rfl, startsFrom, ← List.cons_append, List.getLast?_concat]
      · rw [List.rtakeWhile_concat_neg _ _ _ (by simpa using hc)]
        rfl
    · refine ⟨start, ?_, ?_⟩
      · rw [startsFrom, if_neg hc, startsFrom, List.append_nil, hstart]
      · rw [List.rtakeWhile_concat_pos _ _ _ (by simpa using hc), List.length_append,
          List.length_singleton]
        omega

end Starts

/-! ### Positions -/

/-- Wherever the line starts are cut in those at or before an offset and those behind it, the cut
tells the position. -/
theorem position_eq_of_cut {passed ahead : List Nat} {last offset : Nat}
    (hlast : passed.getLast? = some last) (hpassed : ∀ start ∈ passed, start ≤ offset)
    (hahead : ∀ start ∈ ahead, offset < start) :
    (LineIndex.mk (passed ++ ahead)).position offset = ⟨passed.length, offset - last + 1⟩ := by
  have hstop : ahead.head?.any (· ≤ offset) = false := by
    rw [Option.any_eq_false]
    intro start hstart
    simpa using hahead start (List.mem_of_head? hstart)
  have hrun : ∀ start ∈ passed, decide (start ≤ offset) = true := by simpa using hpassed
  rw [position]
  dsimp only
  rw [(takeWhile_append_stop hrun hstop).1, hlast, Option.getD_some]

/-- The position of an offset, by counting. -/
theorem position_ofText {text : Text} {offset : Nat} (h : offset ≤ text.length) :
    (ofText text).position offset =
      ⟨1 + (text.take offset).count '\n',
        1 + ((text.take offset).rtakeWhile (· ≠ '\n')).length⟩ := by
  have hlength : (text.take offset).length = offset := List.length_take_of_le h
  have hcut : 0 :: startsFrom 0 text =
      (0 :: startsFrom 0 (text.take offset)) ++ startsFrom offset (text.drop offset) := by
    conv_lhs => rw [← List.take_append_drop offset text, startsFrom_append]
    rw [hlength, Nat.zero_add]
    rfl
  obtain ⟨last, hlast, hcolumn⟩ := exists_getLast?_startsFrom (text.take offset)
  have hpassed : ∀ start ∈ 0 :: startsFrom 0 (text.take offset), start ≤ offset := by
    intro start hstart
    rcases List.mem_cons.mp hstart with rfl | hstart
    · exact Nat.zero_le offset
    · have hbounds := bounds_of_mem_startsFrom hstart
      omega
  have hahead : ∀ start ∈ startsFrom offset (text.drop offset), offset < start :=
    fun start hstart => (bounds_of_mem_startsFrom hstart).1
  rw [ofText, hcut, position_eq_of_cut hlast hpassed hahead, List.length_cons, length_startsFrom]
  congr 1 <;> omega

/-- At line breaks, on an empty line and at the end of a text. -/
example : (List.range 8).map (ofText "ab\n\ncd\n".toList).position =
    [⟨1, 1⟩, ⟨1, 2⟩, ⟨1, 3⟩, ⟨2, 1⟩, ⟨3, 1⟩, ⟨3, 2⟩, ⟨3, 3⟩, ⟨4, 1⟩] := by
  decide

/-- What positions tell about a text. They count its line breaks and the characters behind the last
one; they grow with the offset; spans that start apart give call sites different names, whatever
their strategies and factories are; and descriptions show the line at which they start. -/
structure IsExact (text : Text) : Prop where
  counts : ∀ offset ≤ text.length, (ofText text).position offset =
    ⟨1 + (text.take offset).count '\n',
      1 + ((text.take offset).rtakeWhile (· ≠ '\n')).length⟩
  increases : StrictMono fun offset =>
    toLex (((ofText text).position offset).line, ((ofText text).position offset).column)
  names : ∀ (start stop start' stop' : Nat) (variant variant' : String)
    (schema schema' : Option String), start ≠ start' →
      CallSite.idOf ((ofText text).span start stop).startPosition variant schema ≠
        CallSite.idOf ((ofText text).span start' stop').startPosition variant' schema'
  shows : ∀ start ≤ text.length, ∀ stop, Evidence.describe text start stop =
    "`" ++ String.ofList (Evidence.snippet (text.slice start stop)) ++ "` at line " ++
      toString ((ofText text).position start).line

/-- The index of a text is exact. -/
theorem isExact_ofText (text : Text) : IsExact text where
  counts _ hoffset := position_ofText hoffset
  increases := position_strictMono _
  names _ _ _ _ _ _ _ _ hstart hid :=
    hstart (position_injective _ (CallSite.position_eq_of_idOf_eq hid))
  shows start hstart stop := by
    rw [position_ofText hstart]
    dsimp only
    rw [Nat.add_comm]
    rfl

end LineIndex

end FactoryDowngrade
