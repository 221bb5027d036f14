import FactoryDowngrade.Proofs.Template.Basic
import FactoryDowngrade.Proofs.Text.CharClasses
import Mathlib.Data.List.Infix

/-!
# The letters of the two words

Slots are filled with `create` or `build_stubbed`, read forwards or backwards. A test that cannot
tell the letters of these words apart, as most tests of a scanner cannot, cuts every filling of a
template at the same item.
-/

namespace FactoryDowngrade

namespace Template

/-- The two words that a slot is filled with. -/
inductive Filling where
  | created
  | stubbed
deriving DecidableEq, Repr

namespace Filling

/-- The strategy that the word names. -/
def variant : Filling → Variant
  | created => .create
  | stubbed => .buildStubbed

/-- The word itself. -/
def word (f : Filling) : Text :=
  f.variant.method.toList

instance decidableForall (p : Filling → Prop) [∀ f, Decidable (p f)] : Decidable (∀ f, p f) :=
  decidable_of_iff (p .created ∧ p .stubbed)
    ⟨fun h f => match f with
      | .created => h.1
      | .stubbed => h.2, fun h => ⟨h .created, h .stubbed⟩⟩

end Filling

/-- Every letter of both words. -/
def letters : List Char :=
  Filling.created.word ++ Filling.stubbed.word

/-- A word that may stand in a slot, read in either direction. -/
structure IsSlotWord (w : Text) : Prop where
  nonempty : w ≠ []
  letters : ∀ c ∈ w, c ∈ letters

namespace Filling

/-- The word of a filling may fill slots. -/
theorem isSlotWord_word (f : Filling) : IsSlotWord f.word := by
  cases f with
  | created => exact ⟨by decide, fun c hc => List.mem_append_left _ hc⟩
  | stubbed => exact ⟨by decide, fun c hc => List.mem_append_right _ hc⟩

/-- So may the word read backwards. -/
theorem isSlotWord_reverse (f : Filling) : IsSlotWord f.word.reverse where
  nonempty := List.reverse_ne_nil_iff.mpr f.isSlotWord_word.nonempty
  letters := fun c hc => f.isSlotWord_word.letters c (List.mem_reverse.mp hc)

end Filling

/-- What is asked of the characters of a list is tested on these and not on all characters. -/
instance decidableForallMem (chars : List Char) (p : Char → Prop) [DecidablePred p] :
    Decidable (∀ c ∈ chars, p c) :=
  List.decidableBAll p chars

/-- It has word characters only. -/
theorem Filling.isWord_of_mem_word (f : Filling) : ∀ c ∈ f.word, CharClass.isWord c = true :=
  fun c hc => (by decide : ∀ c ∈ letters, CharClass.isWord c = true) c
    (f.isSlotWord_word.letters c hc)

/-- A test that gives one answer about all letters of the words. -/
def Ignores (p : Char → Bool) (answer : Bool) : Prop :=
  ∀ c ∈ letters, p c = answer

instance (p : Char → Bool) (answer : Bool) : Decidable (Ignores p answer) :=
  inferInstanceAs (Decidable (∀ c ∈ letters, p c = answer))

/-- The test of an item whose slots have a given answer. -/
def onItem (answer : Bool) (p : Char → Bool) : Option Char → Bool
  | some c => p c
  | none => answer

/-- A character of a template is tested as it is. -/
@[simp] theorem onItem_some (answer : Bool) (p : Char → Bool) (c : Char) :
    onItem answer p (some c) = p c := rfl

/-- A slot gets the given answer. -/
@[simp] theorem onItem_none (answer : Bool) (p : Char → Bool) : onItem answer p none = answer := rfl

variable {w : Text} {p : Char → Bool} {answer : Bool}

/-- All characters of the word are answered alike. -/
theorem Ignores.on_word (hp : Ignores p answer) (hw : IsSlotWord w) : ∀ c ∈ w, p c = answer :=
  fun c hc => hp c (hw.letters c hc)

/-- Read backwards, a filled template is filled with the word read backwards. -/
theorem fill_reverse (w : Text) (t : Template) : (fill w t).reverse = fill w.reverse t.reverse := by
  induction t with
  | nil => rfl
  | cons item t ih => cases item <;> simp [ih]

/-- A filled template is empty only if it has no items. -/
theorem fill_eq_nil_iff (hw : IsSlotWord w) {t : Template} : fill w t = [] ↔ t = [] := by
  have hnonempty := hw.nonempty
  cases t with
  | nil => simp
  | cons item t => cases item <;> simp [hnonempty]

/-- Only the empty template is filled to the empty text. -/
theorem isEmpty_fill (hw : IsSlotWord w) (t : Template) : (fill w t).isEmpty = t.isEmpty := by
  rw [Bool.eq_iff_iff, List.isEmpty_iff, List.isEmpty_iff, fill_eq_nil_iff hw]

/-- The first character of a filled template is that of its first item. -/
theorem any_head?_fill (hp : Ignores p answer) (hw : IsSlotWord w) (t : Template) :
    (fill w t).head?.any p = t.head?.any (onItem answer p) := by
  cases t with
  | nil => rfl
  | cons item t =>
    cases item with
    | some c => rfl
    | none =>
      obtain ⟨c, rest, rfl⟩ := List.exists_cons_of_ne_nil hw.nonempty
      exact hp.on_word hw c List.mem_cons_self

/-- What begins a filling is tested as what begins the template. -/
theorem all_head?_fill (hp : Ignores p answer) (hw : IsSlotWord w) (t : Template) :
    (fill w t).head?.all p = t.head?.all (onItem answer p) := by
  cases t with
  | nil => rfl
  | cons item t =>
    cases item with
    | some c => rfl
    | none =>
      obtain ⟨c, rest, rfl⟩ := List.exists_cons_of_ne_nil hw.nonempty
      exact hp.on_word hw c List.mem_cons_self

/-- A character that is no letter of the words comes first only as an item. -/
theorem head?_fill_eq_some_iff {c : Char} (hc : c ∉ letters) (hw : IsSlotWord w) (t : Template) :
    (fill w t).head? = some c ↔ t.head? = some (some c) := by
  cases t with
  | nil => simp
  | cons item t =>
    cases item with
    | some d => simp
    | none =>
      obtain ⟨d, rest, rfl⟩ := List.exists_cons_of_ne_nil hw.nonempty
      have hd := hw.letters d List.mem_cons_self
      simp only [fill_none, List.cons_append, List.head?_cons, Option.some.injEq]
      constructor
      · rintro rfl
        exact absurd hd hc
      · intro h
        cases h

/-- A slot at the front gives letters at the front. -/
theorem exists_fill_none_eq (hw : IsSlotWord w) (t : Template) :
    ∃ c ∈ letters, ∃ more, (∀ d ∈ more, d ∈ letters) ∧
      fill w (none :: t) = c :: (more ++ fill w t) := by
  obtain ⟨c, more, rfl⟩ := List.exists_cons_of_ne_nil hw.nonempty
  exact ⟨c, hw.letters c List.mem_cons_self, more,
    fun d hd => hw.letters d (List.mem_cons_of_mem _ hd), rfl⟩

/-- The accepted items at the front fill to the accepted characters at the front. -/
theorem takeWhile_fill (hp : Ignores p answer) (hw : IsSlotWord w) (t : Template) :
    (fill w t).takeWhile p = fill w (t.takeWhile (onItem answer p)) := by
  induction t with
  | nil => rfl
  | cons item t ih =>
    cases item with
    | some c => cases hc : p c <;> simp [hc, ih]
    | none =>
      have hword := hp.on_word hw
      cases answer with
      | true =>
        rw [fill_none, List.takeWhile_append_of_pos hword, ih, List.takeWhile_cons_of_pos rfl,
          fill_none]
      | false =>
        obtain ⟨c, rest, rfl⟩ := List.exists_cons_of_ne_nil hw.nonempty
        simp [hword c List.mem_cons_self]

/-- What follows the accepted items fills to what follows the accepted characters. -/
theorem dropWhile_fill (hp : Ignores p answer) (hw : IsSlotWord w) (t : Template) :
    (fill w t).dropWhile p = fill w (t.dropWhile (onItem answer p)) := by
  have htext := List.takeWhile_append_dropWhile (p := p) (l := fill w t)
  rw [takeWhile_fill hp hw] at htext
  have hitems : fill w (t.takeWhile (onItem answer p)) ++
      fill w (t.dropWhile (onItem answer p)) = fill w t := by
    rw [← fill_append, List.takeWhile_append_dropWhile]
  exact List.append_cancel_left (htext.trans hitems.symm)

/-- A text whose suffixes neither begin one of the two words nor begin with one stands at the front
of every filling or of none. -/
theorem exists_startsWith_fill {head : Text}
    (hclash : ∀ tail ∈ head.tails, tail ≠ [] → ∀ f : Filling, ¬tail <+: f.word ∧ ¬f.word <+: tail)
    (t : Template) : ∃ b, ∀ f : Filling, (fill f.word t).startsWith head = b := by
  induction head generalizing t with
  | nil => exact ⟨true, fun f => by cases fill f.word t <;> rfl⟩
  | cons c head ih =>
    cases t with
    | nil => exact ⟨false, fun f => rfl⟩
    | cons item t =>
      cases item with
      | some d =>
        have htails {tail : Text} (htail : tail ∈ head.tails) : tail ∈ (c :: head).tails :=
          (List.mem_tails _ _).mpr (((List.mem_tails _ _).mp htail).trans (List.suffix_cons c head))
        obtain ⟨b, hb⟩ := ih (fun tail htail => hclash tail (htails htail)) t
        refine ⟨c == d && b, fun f => ?_⟩
        rw [← hb f]
        rfl
      | none =>
        refine ⟨false, fun f => ?_⟩
        obtain ⟨hbegins, hlonger⟩ := hclash (c :: head) (by simp) (by simp) f
        rw [Bool.eq_false_iff]
        intro hstarts
        have hprefix : (c :: head) <+: f.word ++ fill f.word t :=
          List.isPrefixOf_iff_prefix.mp hstarts
        rcases List.prefix_or_prefix_of_prefix hprefix (List.prefix_append f.word _) with h | h
        · exact hbegins h
        · exact hlonger h

/-! ### Word characters -/

/-- Items that may stand in a word. -/
def isWordItem : Option Char → Bool :=
  onItem true CharClass.isWord

/-- An item gives a first character, which tests of letters cannot tell apart, and word
characters behind it. -/
theorem exists_fill_cons_eq (item : Option Char) (f : Filling) :
    ∃ first more, (∀ c ∈ more, CharClass.isWord c = true) ∧
      (∀ t, fill f.word (item :: t) = first :: (more ++ fill f.word t)) ∧
      ∀ p answer, Ignores p answer → p first = onItem answer p item := by
  cases item with
  | some c => exact ⟨c, [], by simp, fun t => rfl, fun p answer _ => rfl⟩
  | none =>
    obtain ⟨first, more, hword⟩ := List.exists_cons_of_ne_nil f.isSlotWord_word.nonempty
    have hletters := f.isSlotWord_word.letters
    rw [hword] at hletters
    have hisWord : Ignores CharClass.isWord true := by decide
    refine ⟨first, more, fun c hc => hisWord c (hletters c (List.mem_cons_of_mem _ hc)),
      fun t => by rw [fill_none, hword]; rfl, fun p answer hp => ?_⟩
    exact hp first (hletters first List.mem_cons_self)

/-- The word characters behind an item are those of the word items behind it. -/
theorem takeWhile_isWord_append {more : Text} (hmore : ∀ c ∈ more, CharClass.isWord c = true)
    (f : Filling) (t : Template) : (more ++ fill f.word t).takeWhile CharClass.isWord =
      more ++ fill f.word (t.takeWhile isWordItem) := by
  have hisWord : Ignores CharClass.isWord true := by decide
  rw [List.takeWhile_append_of_pos hmore, takeWhile_fill hisWord f.isSlotWord_word]
  rfl

/-- Dropping the rest of a word drops slots as well. -/
theorem dropWhile_isWord_append {more : Text} (hmore : ∀ c ∈ more, CharClass.isWord c = true)
    (f : Filling) (t : Template) : (more ++ fill f.word t).dropWhile CharClass.isWord =
      fill f.word (t.dropWhile isWordItem) := by
  have hisWord : Ignores CharClass.isWord true := by decide
  rw [List.dropWhile_append_of_pos hmore, dropWhile_fill hisWord f.isSlotWord_word]
  rfl

/-- A template without slots is a text. -/
theorem exists_map_some_of_none_notMem {t : Template} (h : none ∉ t) :
    ∃ text : Text, t = text.map some := by
  induction t with
  | nil => exact ⟨[], rfl⟩
  | cons item t ih =>
    obtain ⟨text, rfl⟩ := ih fun hmem => h (List.mem_cons_of_mem _ hmem)
    cases item with
    | none => exact absurd List.mem_cons_self h
    | some c => exact ⟨c :: text, rfl⟩

/-! ### Offsets of items -/

/-- The offset of an item when the word fills the slots. -/
def offsetOf (w : Text) (t : Template) (index : Nat) : Nat :=
  (fill w (t.take index)).length

/-- Both begin at the same place. -/
@[simp] theorem offsetOf_zero (w : Text) (t : Template) : offsetOf w t 0 = 0 := by
  simp [offsetOf]

/-- A character takes one place. -/
theorem offsetOf_some_succ (w : Text) (c : Char) (t : Template) (index : Nat) :
    offsetOf w (some c :: t) (index + 1) = offsetOf w t index + 1 := by
  simp [offsetOf]

/-- A slot takes as many as the word has. -/
theorem offsetOf_none_succ (w : Text) (t : Template) (index : Nat) :
    offsetOf w (none :: t) (index + 1) = w.length + offsetOf w t index := by
  simp [offsetOf]

/-- The slots are the ranges that the word takes at the items that are slots. -/
theorem mem_slots_iff {w : Text} {offset : Nat} {t : Template} {span : Nat × Nat} :
    span ∈ slots w offset t ↔ ∃ index, t[index]? = some none ∧
      span = (offset + offsetOf w t index, offset + offsetOf w t index + w.length) := by
  induction t generalizing offset with
  | nil => simp [slots]
  | cons item t ih =>
    -- an item behind the first one, seen from the first one and from the one behind it
    have hlater (width : Nat)
        (hwidth : ∀ index, offsetOf w (item :: t) (index + 1) = width + offsetOf w t index) :
        span ∈ slots w (offset + width) t ↔ ∃ index, (item :: t)[index + 1]? = some none ∧
          span = (offset + offsetOf w (item :: t) (index + 1),
            offset + offsetOf w (item :: t) (index + 1) + w.length) := by
      simp only [ih, hwidth, List.getElem?_cons_succ, Nat.add_assoc]
    cases item with
    | some c =>
      rw [slots, hlater 1 fun index => by rw [offsetOf_some_succ, Nat.add_comm]]
      constructor
      · rintro ⟨index, h⟩
        exact ⟨index + 1, h⟩
      · rintro ⟨index | index, h⟩
        · exact absurd h.1 (by simp)
        · exact ⟨index, h⟩
    | none =>
      rw [slots, List.mem_cons, hlater w.length fun index => offsetOf_none_succ w t index]
      constructor
      · rintro (rfl | ⟨index, h⟩)
        · exact ⟨0, rfl, by rw [offsetOf_zero, Nat.add_zero]⟩
        · exact ⟨index + 1, h⟩
      · rintro ⟨index | index, h⟩
        · exact .inl (by rw [h.2, offsetOf_zero, Nat.add_zero])
        · exact .inr ⟨index, h⟩

/-- Reading a word backwards does not change its length. -/
theorem length_fill_reverse (w : Text) (t : Template) :
    (fill w.reverse t).length = (fill w t).length := by
  rw [length_fill, length_fill, List.length_reverse]

/-- The lengths of two fillings add up. -/
theorem length_fill_append (w : Text) (s t : Template) :
    (fill w (s ++ t)).length = (fill w s).length + (fill w t).length := by
  rw [fill_append, List.length_append]

/-- Every item takes at least one character. -/
theorem length_le_length_fill (hw : IsSlotWord w) (t : Template) :
    t.length ≤ (fill w t).length := by
  have hnonempty := List.length_pos_iff.mpr hw.nonempty
  induction t with
  | nil => exact Nat.le_refl _
  | cons item t ih => cases item <;> simp <;> omega

/-- Later items have greater offsets. -/
theorem offsetOf_le_offsetOf_iff (hw : IsSlotWord w) (t : Template) {i j : Nat}
    (hi : i ≤ t.length) : offsetOf w t i ≤ offsetOf w t j ↔ i ≤ j := by
  have hadd (a b : Nat) (hab : a ≤ b) : offsetOf w t b =
      offsetOf w t a + (fill w ((t.take b).drop a)).length := by
    have hsplit := List.take_append_drop a (t.take b)
    rw [List.take_take, Nat.min_eq_left hab] at hsplit
    rw [offsetOf, offsetOf, ← length_fill_append, hsplit]
  constructor
  · intro h
    by_contra hlt
    have hji : j ≤ i := by omega
    have hgap := length_le_length_fill hw ((t.take i).drop j)
    rw [List.length_drop, List.length_take] at hgap
    have := hadd j i hji
    omega
  · intro h
    have := hadd i j h
    omega

/-- Different items have different offsets. -/
theorem offsetOf_inj (hw : IsSlotWord w) {t : Template} {i j : Nat} (hi : i ≤ t.length)
    (hj : j ≤ t.length) : offsetOf w t i = offsetOf w t j ↔ i = j := by
  rw [Nat.eq_iff_le_and_ge, Nat.eq_iff_le_and_ge, offsetOf_le_offsetOf_iff hw t hi,
    offsetOf_le_offsetOf_iff hw t hj]

/-- Dropping as many characters as some items take leaves the other items. -/
theorem drop_offsetOf (w : Text) (t : Template) (index : Nat) :
    (fill w t).drop (offsetOf w t index) = fill w (t.drop index) := by
  conv_lhs => rw [← List.take_append_drop index t, fill_append]
  rw [offsetOf, List.take_append_drop, List.drop_left]

/-- Taking as many characters as some items take leaves these items. -/
theorem take_offsetOf (w : Text) (t : Template) (index : Nat) :
    (fill w t).take (offsetOf w t index) = fill w (t.take index) := by
  conv_lhs => rw [← List.take_append_drop index t, fill_append]
  rw [offsetOf, List.take_append_drop, List.take_left]

/-- The accepted characters at the front are those of the accepted items. -/
theorem length_takeWhile_fill (hp : Ignores p answer) (hw : IsSlotWord w) (t : Template) :
    ((fill w t).takeWhile p).length = offsetOf w t (t.takeWhile (onItem answer p)).length := by
  rw [takeWhile_fill hp hw, offsetOf, ← List.prefix_iff_eq_take.mp (List.takeWhile_prefix _)]

/-- Behind the last item there is nothing more to count. -/
theorem offsetOf_min (w : Text) (t : Template) (index : Nat) :
    offsetOf w t (min index t.length) = offsetOf w t index := by
  rw [offsetOf, offsetOf, ← List.take_eq_take_min]

/-- A slice between two items holds the items between them. -/
theorem slice_fill (w : Text) (t : Template) (i j : Nat) :
    (fill w t).slice (offsetOf w t i) (offsetOf w t j) = fill w ((t.take j).drop i) := by
  rw [Text.slice, take_offsetOf]
  rcases Nat.le_total i j with hij | hij
  · have hstart : offsetOf w t i = offsetOf w (t.take j) i := by
      rw [offsetOf, offsetOf, List.take_take, Nat.min_eq_left hij]
    rw [hstart, drop_offsetOf]
  · have hsplit : (t.take i).take j = t.take j := by
      rw [List.take_take, Nat.min_eq_left hij]
    have hlength := length_fill_append w ((t.take i).take j) ((t.take i).drop j)
    rw [List.take_append_drop, hsplit] at hlength
    rw [List.drop_eq_nil_iff.mpr (by rw [offsetOf]; omega), List.drop_eq_nil_iff.mpr (by
      rw [List.length_take]
      omega), fill_nil]

/-- Templates with their slots at the same items. -/
def SameSlots (s t : Template) : Prop :=
  s.map Option.isSome = t.map Option.isSome

/-- The offset of an item depends on the slots before it only. -/
theorem SameSlots.offsetOf_eq {s t : Template} (h : SameSlots s t) (w : Text) (index : Nat) :
    offsetOf w s index = offsetOf w t index := by
  induction s generalizing t index with
  | nil =>
    cases t with
    | nil => rfl
    | cons item t => cases h
  | cons item s ih =>
    cases t with
    | nil => cases h
    | cons item' t =>
      obtain ⟨hitem, hrest⟩ := List.cons.inj h
      cases index with
      | zero => simp [offsetOf]
      | succ index =>
        have htail : SameSlots s t := hrest
        have hmore := ih htail index
        rw [offsetOf, offsetOf] at hmore
        cases item <;> cases item'
        · simp [offsetOf, hmore]
        · cases hitem
        · cases hitem
        · simp [offsetOf, hmore]

section SameSlots

variable {s t : Template}

/-- Fronts of one length have slots at the same items. -/
theorem SameSlots.take (h : SameSlots s t) (count : Nat) :
    SameSlots (s.take count) (t.take count) := by
  rw [SameSlots, List.map_take, h, List.map_take]

/-- So have the rests behind them. -/
theorem SameSlots.drop (h : SameSlots s t) (count : Nat) :
    SameSlots (s.drop count) (t.drop count) := by
  rw [SameSlots, List.map_drop, h, List.map_drop]

/-- One template has slots just when the other has. -/
theorem SameSlots.none_mem_iff (h : SameSlots s t) : none ∈ s ↔ none ∈ t := by
  have hmem (t : Template) : none ∈ t ↔ false ∈ t.map Option.isSome := by
    simp [List.mem_map]
  rw [hmem, hmem, h]

/-- Where the one begins with a slot, so does the other. -/
theorem SameSlots.exists_cons_none (h : SameSlots (none :: s) t) :
    ∃ t', t = none :: t' ∧ SameSlots s t' := by
  cases t with
  | nil => cases h
  | cons item t =>
    obtain ⟨hitem, hrest⟩ := List.cons.inj h
    cases item with
    | none => exact ⟨t, rfl, hrest⟩
    | some c => cases hitem

/-- Templates with the same slots and the same filling are equal. -/
theorem SameSlots.eq_of_fill_eq {w : Text} (h : SameSlots s t) (hfill : fill w s = fill w t) :
    s = t := by
  induction s generalizing t with
  | nil =>
    cases t with
    | nil => rfl
    | cons item t => cases h
  | cons item s ih =>
    cases t with
    | nil => cases h
    | cons item' t =>
      obtain ⟨hitem, hrest⟩ := List.cons.inj h
      cases item with
      | none =>
        cases item' with
        | none => rw [ih hrest (List.append_cancel_left hfill)]
        | some c => cases hitem
      | some c =>
        cases item' with
        | none => cases hitem
        | some d =>
          obtain ⟨rfl, htail⟩ := List.cons.inj hfill
          rw [ih hrest htail]

/-- Texts of one length have the same slots where the same ranges are taken out. -/
theorem sameSlots_ofSpans {text text' : Text} (hlength : text.length = text'.length) (offset : Nat)
    (spans : List (Nat × Nat)) :
    SameSlots (ofSpans text offset spans) (ofSpans text' offset spans) := by
  have hsome (stretch : Text) :
      (stretch.map some).map Option.isSome = List.replicate stretch.length true := by
    rw [List.map_map]
    exact List.map_const
  induction spans generalizing offset with
  | nil =>
    rw [SameSlots, ofSpans, ofSpans, hsome, hsome, List.length_drop, List.length_drop, hlength]
  | cons span spans ih =>
    have hslice : (text.slice offset span.1).length = (text'.slice offset span.1).length := by
      simp [Text.slice, hlength]
    rw [SameSlots, ofSpans, ofSpans, List.map_append, List.map_append, hsome, hsome, hslice,
      List.map_cons, List.map_cons, ih span.2]

end SameSlots

end Template

end FactoryDowngrade
