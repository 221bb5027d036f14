import FactoryDowngrade.Patch
import Mathlib.Data.List.Basic

/-!
# Templates

A template is a text with slots. Filling all slots with one word gives a text, in which every slot
becomes a range of offsets. Replacing those ranges by another word is the same as filling the
template with the other word, whichever of the two words is longer, and every character outside the
ranges moves by the difference that the ranges before it make.
-/

namespace FactoryDowngrade

/-- A text with slots; `none` is a slot. -/
abbrev Template := List (Option Char)

namespace Template

/-- What a word puts in the place of one item. -/
def fillItem (word : Text) : Option Char → Text
  | some c => [c]
  | none => word

/-- The text with the word in every slot. -/
def fill (word : Text) (t : Template) : Text :=
  t.flatMap (fillItem word)

/-- The ranges that the slots take when the word fills them and the text begins at an offset. -/
def slots (word : Text) : Nat → Template → List (Nat × Nat)
  | _, [] => []
  | offset, some _ :: t => slots word (offset + 1) t
  | offset, none :: t => (offset, offset + word.length) :: slots word (offset + word.length) t

/-- The template of a text from an offset on whose slots are the given ranges. -/
def ofSpans (text : Text) (offset : Nat) : List (Nat × Nat) → Template
  | [] => (text.drop offset).map some
  | span :: rest => (text.slice offset span.1).map some ++ none :: ofSpans text span.2 rest

/-- An empty template is filled to an empty text. -/
@[simp] theorem fill_nil (word : Text) : fill word [] = [] := rfl

/-- A character is filled to itself. -/
@[simp] theorem fill_some (word : Text) (c : Char) (t : Template) :
    fill word (some c :: t) = c :: fill word t := rfl

/-- A slot is filled to the word. -/
@[simp] theorem fill_none (word : Text) (t : Template) :
    fill word (none :: t) = word ++ fill word t := rfl

/-- Templates that follow each other are filled to texts that do. -/
@[simp] theorem fill_append (word : Text) (s t : Template) :
    fill word (s ++ t) = fill word s ++ fill word t :=
  List.flatMap_append

/-- A text without slots fills to itself. -/
@[simp] theorem fill_map_some (word text : Text) : fill word (text.map some) = text := by
  induction text with
  | nil => rfl
  | cons c text ih => simp [ih]

/-- Every slot is one word long. -/
theorem length_fill (word : Text) (t : Template) :
    (fill word t).length = (t.filter Option.isSome).length + t.count none * word.length := by
  induction t with
  | nil => simp
  | cons item t ih =>
    cases item with
    | none => simp [ih, Nat.add_mul]; omega
    | some c => simp [ih]; omega

/-- There are as many ranges as slots. -/
theorem length_slots (word : Text) (offset : Nat) (t : Template) :
    (slots word offset t).length = t.count none := by
  induction t generalizing offset with
  | nil => rfl
  | cons item t ih => cases item <;> simp [slots, ih]

/-- Slots lie at or behind the offset where the text begins, and none is longer than the word. -/
theorem mem_slots {word : Text} {offset : Nat} {t : Template} {span : Nat × Nat}
    (h : span ∈ slots word offset t) : offset ≤ span.1 ∧ span.2 = span.1 + word.length := by
  induction t generalizing offset with
  | nil => simp [slots] at h
  | cons item t ih =>
    cases item with
    | some c =>
      obtain ⟨hstart, hstop⟩ := ih h
      exact ⟨by omega, hstop⟩
    | none =>
      rw [slots, List.mem_cons] at h
      rcases h with rfl | h
      · exact ⟨Nat.le_refl _, rfl⟩
      · obtain ⟨hstart, hstop⟩ := ih h
        exact ⟨by omega, hstop⟩

/-- In the filled text every range holds the word. -/
theorem slice_slots {word text : Text} {offset : Nat} {t : Template} {span : Nat × Nat}
    (htext : text.drop offset = fill word t) (h : span ∈ slots word offset t) :
    text.slice span.1 span.2 = word := by
  induction t generalizing offset with
  | nil => simp [slots] at h
  | cons item t ih =>
    cases item with
    | some c =>
      refine ih ?_ h
      rw [← List.drop_drop, htext]
      rfl
    | none =>
      rw [slots, List.mem_cons] at h
      rcases h with rfl | h
      · rw [Text.slice, List.drop_take, htext]
        simp
      · refine ih ?_ h
        rw [← List.drop_drop, htext]
        simp

/-! ### Replacing the word -/

/-- The patch that puts a word in the place of a range. -/
def patch (word : Text) (span : Nat × Nat) : Patch :=
  ⟨span.1, span.2, word⟩

/-- Replacing every slot's word fills the template with the other word. -/
theorem splice_slots {old new text : Text} {cursor offset : Nat} {t : Template}
    (hcursor : cursor ≤ offset) (hoffset : offset ≤ text.length)
    (htext : text.drop offset = fill old t) :
    Patch.splice text cursor ((slots old offset t).map (patch new)) =
      .ok (text.slice cursor offset ++ fill new t) := by
  induction t generalizing cursor offset with
  | nil =>
    simp only [slots, List.map_nil, Patch.splice, fill_nil, List.append_nil] at htext ⊢
    have hend : text.length ≤ offset := by simpa using htext
    rw [Text.slice, List.take_of_length_le hend]
  | cons item t ih =>
    have hlength := congrArg List.length htext
    cases item with
    | some c =>
      simp only [fill_some, List.length_drop, List.length_cons] at hlength htext
      have hrest : text.drop (offset + 1) = fill old t := by
        rw [← List.drop_drop, htext, List.drop_succ_cons, List.drop_zero]
      rw [slots, ih (by omega) (by omega) hrest]
      have hslice : text.slice cursor (offset + 1) = text.slice cursor offset ++ [c] := by
        have hget : text[offset]? = some c := by
          rw [← List.head?_drop, htext, List.head?_cons]
        rw [Text.slice, List.take_add_one, hget, List.drop_append_of_le_length (by simp; omega)]
        rfl
      rw [hslice, List.append_assoc, fill_some]
      rfl
    | none =>
      simp only [fill_none, List.length_drop, List.length_append] at hlength htext
      have hrest : text.drop (offset + old.length) = fill old t := by
        rw [← List.drop_drop, htext, List.drop_left]
      have hbounds : (0 : Int) ≤ offset ∧ (offset : Int) ≤ (offset + old.length : Nat) ∧
          ((offset + old.length : Nat) : Int) ≤ text.length := by omega
      rw [slots, List.map_cons, Patch.splice, patch]
      simp only [hbounds, not_true_eq_false, if_false, and_self]
      rw [if_neg (by omega), Int.toNat_natCast, Int.toNat_natCast,
        ih (Nat.le_refl _) (by omega) hrest]
      have hempty : text.slice (offset + old.length) (offset + old.length) = [] := by
        rw [Text.slice, List.drop_eq_nil_iff, List.length_take]
        exact Nat.min_le_left _ _
      simp only [hempty, List.nil_append, fill_none, List.append_assoc]

/-- The patches of the slots are in ascending order. -/
theorem pairwise_patch_slots {old : Text} (new : Text) (hold : old ≠ []) (offset : Nat)
    (t : Template) : ((slots old offset t).map (patch new)).Pairwise fun p q => Patch.le p q := by
  have hlength := List.length_pos_iff.mpr hold
  induction t generalizing offset with
  | nil => exact List.Pairwise.nil
  | cons item t ih =>
    cases item with
    | some c => exact ih (offset + 1)
    | none =>
      rw [slots, List.map_cons]
      refine List.Pairwise.cons (fun p hp => ?_) (ih _)
      obtain ⟨span, hspan, rfl⟩ := List.mem_map.mp hp
      have hstart := (mem_slots hspan).1
      have hlt : (patch new (offset, offset + old.length)).start < (patch new span).start := by
        simp only [patch]
        omega
      simp [Patch.le, hlt]

/-- Applying the patches of all slots fills the template with the other word. -/
theorem applyAll_slots {old : Text} (new : Text) (hold : old ≠ []) (t : Template) :
    Patch.applyAll (fill old t) ((slots old 0 t).map (patch new)) = .ok (fill new t) := by
  have htext : (fill old t).drop 0 = fill old t := rfl
  rw [Patch.applyAll, List.mergeSort_of_pairwise (pairwise_patch_slots new hold 0 t),
    splice_slots (Nat.le_refl 0) (Nat.zero_le _) htext]
  rfl

/-- The number of ranges that end at or before an offset. -/
def passed (spans : List (Nat × Nat)) (offset : Nat) : Nat :=
  spans.countP fun span => span.2 ≤ offset

/-- A character outside the slots moves by what the slots before it gain. -/
theorem getElem?_fill_of_outside {old new : Text} {gain offset index : Nat} {t : Template}
    (hgain : new.length = old.length + gain) (hold : old ≠ []) (hindex : offset ≤ index)
    (houtside : ∀ span ∈ slots old offset t, ¬(span.1 ≤ index ∧ index < span.2)) :
    (fill new t)[index - offset + gain * passed (slots old offset t) index]? =
      (fill old t)[index - offset]? := by
  have hlength := List.length_pos_iff.mpr hold
  induction t generalizing offset with
  | nil => rfl
  | cons item t ih =>
    cases item with
    | some c =>
      rcases Nat.eq_or_lt_of_le hindex with rfl | hlt
      · have hnone : passed (slots old (offset + 1) t) offset = 0 := by
          rw [passed, List.countP_eq_zero]
          intro span hspan
          have := mem_slots hspan
          simp only [decide_eq_true_eq]
          omega
        simp [slots, hnone]
      · have hstep := ih hlt houtside
        have hshift : index - offset = index - (offset + 1) + 1 := by omega
        rw [slots, fill_some, fill_some, hshift, List.getElem?_cons_succ, Nat.add_right_comm,
          List.getElem?_cons_succ, hstep]
    | none =>
      have hhead := houtside _ List.mem_cons_self
      have hbehind : offset + old.length ≤ index := by
        simp only at hhead
        omega
      have hstep := ih hbehind
        (fun span hspan => houtside span (List.mem_cons_of_mem _ hspan))
      have hcount : passed (slots old offset (none :: t)) index =
          passed (slots old (offset + old.length) t) index + 1 := by
        rw [slots, passed, List.countP_cons_of_pos (by simpa using hbehind)]
        rfl
      rw [hcount, fill_none, fill_none, List.getElem?_append_right (by
          rw [Nat.mul_add]; omega), List.getElem?_append_right (by omega)]
      have hnew : index - offset + gain * (passed (slots old (offset + old.length) t) index + 1) -
          new.length = index - (offset + old.length) +
            gain * passed (slots old (offset + old.length) t) index := by
        rw [Nat.mul_add]
        omega
      rw [hnew, hstep]
      congr 1
      omega

/-- Where an offset moves to when every range before it gains some characters. -/
def shift (gain : Nat) (spans : List (Nat × Nat)) (offset : Nat) : Nat :=
  offset + gain * passed spans offset

/-- Where a range moves to. -/
def shiftSpan (gain : Nat) (spans : List (Nat × Nat)) (span : Nat × Nat) : Nat × Nat :=
  (shift gain spans span.1, shift gain spans span.2)

/-- No range that begins behind an offset, or at it, ends there. -/
theorem passed_eq_zero {spans : List (Nat × Nat)} {offset : Nat}
    (h : ∀ span ∈ spans, offset < span.2) : passed spans offset = 0 := by
  rw [passed, List.countP_eq_zero]
  intro span hspan
  have := h span hspan
  simp only [decide_eq_true_eq]
  omega

/-- The slots of the template filled with the longer word are the moved ones. -/
theorem slots_eq_map_shiftSpan {old new : Text} {gain : Nat}
    (hgain : new.length = old.length + gain) (hold : old ≠ []) (base offset : Nat) (t : Template) :
    slots new (base + offset) t = (slots old offset t).map fun span =>
      let moved := shiftSpan gain (slots old offset t) span
      (base + moved.1, base + moved.2) := by
  have hlength := List.length_pos_iff.mpr hold
  induction t generalizing base offset with
  | nil => rfl
  | cons item t ih =>
    cases item with
    | some c => exact ih base (offset + 1)
    | none =>
      have hbehind (span : Nat × Nat) (hspan : span ∈ slots old (offset + old.length) t) :
          offset + old.length ≤ span.1 ∧ offset + old.length < span.2 := by
        have := mem_slots hspan
        omega
      have hstart : passed ((offset, offset + old.length) ::
          slots old (offset + old.length) t) offset = 0 := by
        refine passed_eq_zero fun span hspan => ?_
        rcases List.mem_cons.mp hspan with rfl | hspan
        · exact Nat.lt_add_of_pos_right hlength
        · exact Nat.lt_of_le_of_lt (Nat.le_add_right _ _) (hbehind span hspan).2
      have hcons (index : Nat) (hindex : offset + old.length ≤ index) :
          passed ((offset, offset + old.length) :: slots old (offset + old.length) t) index =
            passed (slots old (offset + old.length) t) index + 1 := by
        rw [passed, List.countP_cons_of_pos (by simpa using hindex)]
        rfl
      have hstop := hcons (offset + old.length) (Nat.le_refl _)
      rw [passed_eq_zero fun span hspan => (hbehind span hspan).2] at hstop
      have hrest := ih (base + gain) (offset + old.length)
      have hnext : base + gain + (offset + old.length) = base + offset + new.length := by omega
      rw [hnext] at hrest
      simp only [slots, List.map_cons]
      rw [hrest]
      congr 1
      · simp only [shiftSpan, shift, hstart, hstop, Prod.mk.injEq]
        omega
      · refine List.map_congr_left fun span hspan => ?_
        have hspans := hbehind span hspan
        simp only [shiftSpan, shift, hcons span.1 hspans.1,
          hcons span.2 (Nat.le_of_lt hspans.2), Nat.mul_add, Prod.mk.injEq]
        omega

/-! ### Templates of texts -/

/-- Ranges of a text that hold a word and stand one behind the other from an offset on. -/
structure IsSpelling (word text : Text) (offset : Nat) (spans : List (Nat × Nat)) : Prop where
  ordered : spans.Pairwise fun a b => a.2 ≤ b.1
  behind : ∀ span ∈ spans, offset ≤ span.1
  long : ∀ span ∈ spans, span.2 = span.1 + word.length
  inside : ∀ span ∈ spans, span.2 ≤ text.length
  slice : ∀ span ∈ spans, text.slice span.1 span.2 = word

/-- The ranges behind the first one stand behind its end. -/
theorem IsSpelling.tail {word text : Text} {offset : Nat} {span : Nat × Nat}
    {spans : List (Nat × Nat)} (h : IsSpelling word text offset (span :: spans)) :
    IsSpelling word text span.2 spans where
  ordered := h.ordered.of_cons
  behind := fun _ hs => List.rel_of_pairwise_cons h.ordered hs
  long := fun s hs => h.long s (List.mem_cons_of_mem _ hs)
  inside := fun s hs => h.inside s (List.mem_cons_of_mem _ hs)
  slice := fun s hs => h.slice s (List.mem_cons_of_mem _ hs)

/-- A slice and what stands behind it. -/
theorem slice_append_drop {text : Text} {start stop : Nat} (hle : start ≤ stop) :
    text.slice start stop ++ text.drop stop = text.drop start := by
  have hsplit := List.take_append_drop (stop - start) (text.drop start)
  rw [List.drop_drop, Nat.add_sub_cancel' hle] at hsplit
  rw [Text.slice, List.drop_take, hsplit]

/-- Filling the template of a text with the word that was taken out gives the text. -/
theorem fill_ofSpans {word text : Text} {offset : Nat} {spans : List (Nat × Nat)}
    (h : IsSpelling word text offset spans) :
    fill word (ofSpans text offset spans) = text.drop offset := by
  induction spans generalizing offset with
  | nil => rw [ofSpans, fill_map_some]
  | cons span spans ih =>
    have hbehind := h.behind span List.mem_cons_self
    have hlong := h.long span List.mem_cons_self
    have hslice := h.slice span List.mem_cons_self
    rw [ofSpans, fill_append, fill_map_some, fill_none, ih h.tail]
    calc
      text.slice offset span.1 ++ (word ++ text.drop span.2)
        = text.slice offset span.1 ++ (text.slice span.1 span.2 ++ text.drop span.2) := by
          rw [hslice]
      _ = text.slice offset span.1 ++ text.drop span.1 := by
          rw [slice_append_drop (by omega)]
      _ = text.drop offset := slice_append_drop hbehind

/-- Characters that are no slots only move the ranges behind them. -/
theorem slots_map_some_append (word stretch : Text) (offset : Nat) (t : Template) :
    slots word offset (stretch.map some ++ t) = slots word (offset + stretch.length) t := by
  induction stretch generalizing offset with
  | nil => rfl
  | cons c stretch ih =>
    rw [List.map_cons, List.cons_append, slots, ih, List.length_cons, Nat.add_right_comm]
    rfl

/-- The slots of the template of a text are the ranges it was made from. -/
theorem slots_ofSpans {word text : Text} {offset : Nat} {spans : List (Nat × Nat)}
    (h : IsSpelling word text offset spans) :
    slots word offset (ofSpans text offset spans) = spans := by
  induction spans generalizing offset with
  | nil =>
    have hplain := slots_map_some_append word (text.drop offset) offset []
    rwa [List.append_nil] at hplain
  | cons span spans ih =>
    have hbehind := h.behind span List.mem_cons_self
    have hinside := h.inside span List.mem_cons_self
    have hlong := h.long span List.mem_cons_self
    have hstart : offset + (text.slice offset span.1).length = span.1 := by
      rw [Text.slice, List.length_drop, List.length_take]
      omega
    rw [ofSpans, slots_map_some_append, hstart, slots, ← hlong, ih h.tail]

end Template

end FactoryDowngrade
