import FactoryDowngrade.Proofs.Template.Letters
import FactoryDowngrade.Proofs.Text.Passage

/-!
# Spots of a template

A spot splits a template in two as a cursor splits a text, and every filling puts a cursor there.
In an orderly template a slot is a word of its own with an argument list behind it, so whoever
stands behind a word character does not stand before a slot.
-/

namespace FactoryDowngrade

namespace Template

/-- A place between two items of a template; the nearest item before it comes first. -/
structure Spot where
  before : Template
  after : Template

namespace Spot

/-- The place in front of a whole template. -/
def start (t : Template) : Spot :=
  ⟨[], t⟩

/-- The cursor that a filling puts at the spot. -/
def cursor (s : Spot) (f : Filling) : Cursor :=
  ⟨fill f.word.reverse s.before, fill f.word s.after⟩

/-- The template that the spot stands in. -/
def whole (s : Spot) : Template :=
  s.before.reverse ++ s.after

/-- The spot some items further on. -/
def move (s : Spot) (count : Nat) : Spot :=
  ⟨(s.after.take count).reverse ++ s.before, s.after.drop count⟩

/-- Whether a slot comes next. -/
def AtSlot (s : Spot) : Prop :=
  s.after.head? = some none

instance (s : Spot) : Decidable s.AtSlot :=
  inferInstanceAs (Decidable (s.after.head? = some none))

/-- A move of the spot keeps the template. -/
@[simp] theorem whole_move (s : Spot) (count : Nat) : (s.move count).whole = s.whole := by
  simp [whole, move]

/-- Moving on twice is moving on by both counts together. -/
theorem move_move (s : Spot) (m n : Nat) : (s.move m).move n = s.move (m + n) := by
  simp only [move, List.take_add, List.reverse_append, List.append_assoc, List.drop_drop]

/-- The first spot has the cursor at the start of every filling. -/
theorem cursor_start (t : Template) (f : Filling) :
    (start t).cursor f = Cursor.start (fill f.word t) := rfl

/-- The cursor stands at the offset of the spot's index. -/
theorem offset_cursor (s : Spot) (f : Filling) :
    (s.cursor f).offset = offsetOf f.word s.whole s.before.length := by
  rw [cursor, Cursor.offset, length_fill_reverse, offsetOf, whole,
    List.take_left' (List.length_reverse), ← List.length_reverse,
    fill_reverse, length_fill_reverse]

/-- The items between the last line break before the spot and the spot. -/
def line (s : Spot) : Template :=
  (s.before.takeWhile (onItem true fun c => decide (c ≠ '\n'))).reverse

/-- The line of a spot is a part of the template. -/
theorem line_infix (s : Spot) : s.line <:+: s.whole := by
  have hprefix := List.takeWhile_prefix (l := s.before) (onItem true fun c => decide (c ≠ '\n'))
  exact (List.reverse_suffix.mpr hprefix).isInfix.trans (List.prefix_append _ _).isInfix

/-- The line up to the cursor is the filled line up to the spot. -/
theorem lineHead_cursor (s : Spot) (f : Filling) : (s.cursor f).lineHead = fill f.word s.line := by
  have hline : Ignores (fun c => decide (c ≠ '\n')) true := by decide
  rw [Cursor.lineHead, cursor, takeWhile_fill hline f.isSlotWord_reverse, fill_reverse,
    List.reverse_reverse, line]

/-- The items passed by moving on fill to the stretch that the cursor passes. -/
theorem passes_move (s : Spot) (f : Filling) (count : Nat) :
    (s.cursor f).Passes (fill f.word (s.after.take count)) ((s.move count).cursor f) where
  after := by rw [cursor, cursor, move, ← fill_append, List.take_append_drop]
  before := by rw [cursor, cursor, move, fill_reverse, ← fill_append]

/-- Passing characters passes items. -/
theorem length_after_move_lt {s : Spot} {count : Nat} {f : Filling}
    (h : ((s.move count).cursor f).after.length < (s.cursor f).after.length) :
    (s.move count).after.length < s.after.length := by
  by_contra hnot
  have hsame : s.after.drop count = s.after :=
    (List.drop_suffix count s.after).eq_of_length_le (Nat.le_of_not_lt hnot)
  have hafter : ((s.move count).cursor f).after = (s.cursor f).after :=
    congrArg (fill f.word) hsame
  rw [hafter] at h
  exact Nat.lt_irrefl _ h

/-- Some items behind the spot, offsets count from the start of the whole template. -/
theorem offset_cursor_add (s : Spot) (f : Filling) (count : Nat) :
    (s.cursor f).offset + offsetOf f.word s.after count =
      offsetOf f.word s.whole (s.before.length + count) := by
  have hdrop : s.whole.drop s.before.length = s.after :=
    List.drop_left' List.length_reverse
  rw [offsetOf, offsetOf, offset_cursor, offsetOf, List.take_add, hdrop, length_fill_append]

end Spot

/-! ### Orderly templates -/

/-- Characters before a word that make it something other than a slot. -/
def stains (c : Char) : Bool :=
  CharClass.isWord c || ['?', '!', ':', '@', '$'].contains c

/-- Word characters spoil a slot behind them. -/
theorem stains_of_isWord {c : Char} (h : CharClass.isWord c = true) : stains c = true := by
  simp [stains, h]

/-- Whether a factory name, or nothing at all, begins here. -/
def opensName : Template → Bool
  | [] => true
  | some c :: _ => c == ':' || c == '"' || c == '\''
  | none :: _ => false

/-- Whether the arguments of a call begin here; a template may end anywhere in front of them. -/
def opensArguments : Template → Bool
  | [] => true
  | some c :: t =>
    c == '(' || (CharClass.isSpaceOrTab c &&
      opensName (t.dropWhile (onItem false CharClass.isSpaceOrTab)))
  | none :: _ => false

/-- A template in which every slot is a word of its own with arguments behind it. -/
structure IsOrderly (t : Template) : Prop where
  unstained : ∀ before c after, t = before ++ some c :: none :: after → stains c = false
  arguments : ∀ before after, t = before ++ none :: after → opensArguments after = true

/-- What begins here still does when the template ends earlier. -/
theorem opensName_of_append {t u : Template} (h : opensName (t ++ u) = true) :
    opensName t = true := by
  cases t with
  | nil => rfl
  | cons item t => cases item <;> exact h

/-- Arguments that open within the front of a template open there. -/
theorem opensArguments_of_append {t u : Template} (h : opensArguments (t ++ u) = true) :
    opensArguments t = true := by
  cases t with
  | nil => rfl
  | cons item t =>
    cases item with
    | none => exact h
    | some c =>
      simp only [List.cons_append, opensArguments, Bool.or_eq_true, Bool.and_eq_true] at h ⊢
      refine h.imp_right fun ⟨hspace, hname⟩ => ⟨hspace, ?_⟩
      rw [List.dropWhile_append] at hname
      split at hname
      · rename_i hempty
        rw [List.isEmpty_iff.mp hempty]
        rfl
      · exact opensName_of_append hname

/-- Parts of an orderly template are orderly. -/
theorem IsOrderly.of_isInfix {s t : Template} (ht : IsOrderly t) (h : s <:+: t) : IsOrderly s := by
  obtain ⟨front, back, rfl⟩ := h
  constructor
  · intro before c after hs
    refine ht.unstained (front ++ before) c (after ++ back) ?_
    rw [hs]
    simp
  · intro before after hs
    refine opensArguments_of_append (u := back) (ht.arguments (front ++ before) _ ?_)
    rw [hs]
    simp

namespace Spot

variable {s : Spot}

/-- Behind a word character, or another that spoils a word, there is no slot. -/
theorem not_atSlot_of_stains (hs : IsOrderly s.whole) {c : Char} {before : Template}
    (hbefore : s.before = some c :: before) (hc : stains c = true) : ¬s.AtSlot := by
  intro hslot
  obtain ⟨before', after⟩ := s
  obtain rfl : before' = some c :: before := hbefore
  cases after with
  | nil => cases hslot
  | cons item after =>
    obtain rfl : item = none := by simpa [AtSlot] using hslot
    have hclean := hs.unstained before.reverse c after (by simp [whole])
    rw [hc] at hclean
    cases hclean

/-- Behind a slot its arguments begin. -/
theorem opensArguments_of_before (hs : IsOrderly s.whole) {before : Template}
    (hbefore : s.before = none :: before) : opensArguments s.after = true :=
  hs.arguments before.reverse s.after (by simp [whole, hbefore])

/-- At a slot its arguments begin behind it. -/
theorem opensArguments_of_after (hs : IsOrderly s.whole) {after : Template}
    (hafter : s.after = none :: after) : opensArguments after = true :=
  hs.arguments s.before.reverse after (by simp [whole, hafter])

/-- Directly behind a slot there is no other. -/
theorem not_atSlot_of_before (hs : IsOrderly s.whole) {before : Template}
    (hbefore : s.before = none :: before) : ¬s.AtSlot := by
  have harguments := opensArguments_of_before hs hbefore
  intro hslot
  cases hafter : s.after with
  | nil => simp [AtSlot, hafter] at hslot
  | cons item after =>
    obtain rfl : item = none := by simpa [AtSlot, hafter] using hslot
    rw [hafter] at harguments
    cases harguments

end Spot

/-- A stretch of characters that stain holds no slot unless it begins with one. -/
theorem exists_take_eq_map_some {s : Spot} (hs : IsOrderly s.whole) (hslot : ¬s.AtSlot)
    {count : Nat} {f : Filling}
    (hstains : ∀ c ∈ fill f.word (s.after.take count), stains c = true) :
    ∃ text : Text, s.after.take count = text.map some := by
  refine exists_map_some_of_none_notMem fun hmem => ?_
  obtain ⟨front, back, hsplit⟩ := List.append_of_mem hmem
  obtain ⟨rest, hafter⟩ : ∃ rest, s.after = front ++ none :: rest :=
    ⟨back ++ s.after.drop count, by
      conv_lhs => rw [← List.take_append_drop count s.after, hsplit]
      simp⟩
  rcases List.eq_nil_or_concat front with rfl | ⟨lead, item, rfl⟩
  · exact hslot (by rw [Spot.AtSlot, hafter]; rfl)
  · cases item with
    | none =>
      have hargs := hs.arguments (s.before.reverse ++ lead) (none :: rest)
        (by simp [Spot.whole, hafter])
      cases hargs
    | some c =>
      have hclean := hs.unstained (s.before.reverse ++ lead) c rest
        (by simp [Spot.whole, hafter])
      have hstain := hstains c (by rw [hsplit]; simp)
      rw [hclean] at hstain
      cases hstain

/-- A name between two spots is the same in every filling. -/
theorem exists_upTo_cursor {s : Spot} (hs : IsOrderly s.whole) (hslot : ¬s.AtSlot) {count : Nat}
    (hstains : ∃ stretch, (∀ c ∈ stretch, stains c = true) ∧
      (s.cursor .created).Passes stretch ((s.move count).cursor .created)) :
    ∃ text : Text, ∀ f : Filling, (s.cursor f).upTo ((s.move count).cursor f) = text := by
  obtain ⟨stretch, hstretch, hpass⟩ := hstains
  have hitems : stretch = fill Filling.created.word (s.after.take count) := by
    rw [← hpass.upTo, (s.passes_move .created count).upTo]
  obtain ⟨text, htext⟩ := exists_take_eq_map_some hs hslot (hitems ▸ hstretch)
  refine ⟨text, fun f => ?_⟩
  rw [(s.passes_move f count).upTo, htext, fill_map_some]

end Template

end FactoryDowngrade
