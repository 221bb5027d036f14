import FactoryDowngrade.Proofs.Ruby.Comments
import FactoryDowngrade.Proofs.Ruby.Extents
import FactoryDowngrade.Proofs.Template.Calls

/-!
# Calls around a comment

Two comments of one length that may stand at the same place in top-level code leave the mask as it
is, and with it the heads of all calls. Only factory names are read from the text itself. No range
that is read begins or ends inside the comment, and reading a name stops at the number sign, with
one exception: a quoted symbol that a call's arguments open in front of the comment, as they can in
the body of a heredoc, runs on to the next quote.
-/

namespace FactoryDowngrade

/-- Two comments of one length, each of which may stand at a place in top-level code. -/
structure AreCommentsAt (front back comment comment' : Text) : Prop where
  topLevel : IsTopLevelAt (commented front comment back) front.length
  unbroken : '\n' ∉ comment
  unbroken' : '\n' ∉ comment'
  length : comment'.length = comment.length

namespace AreCommentsAt

variable {front back comment comment' : Text} (h : AreCommentsAt front back comment comment')
include h

/-- The texts with either comment are masked alike. -/
theorem mask_eq : mask (commented front comment' back) = mask (commented front comment back) :=
  mask_commented h.topLevel h.unbroken h.unbroken' h.length

/-- They are equally long. -/
theorem length_eq :
    (commented front comment' back).length = (commented front comment back).length := by
  simp only [commented, List.length_append, List.length_cons, h.length]

end AreCommentsAt

/-! ### Places around a comment -/

section Places

variable {front back comment comment' : Text} {index start stop : Nat}

/-- An offset that does not cut the comment behind its number sign. -/
def IsOutside (front comment : Text) (offset : Nat) : Prop :=
  offset ≤ front.length ∨ front.length + comment.length < offset

/-- What the mask shows is not in the comment. -/
theorem isOutside_of_getElem?_mask (h : IsTopLevelAt (commented front comment back) front.length)
    (hbreak : '\n' ∉ comment) {c : Char}
    (hc : (mask (commented front comment back))[index]? = some c) (hblank : c ≠ ' ') :
    IsOutside front comment index ∧ IsOutside front comment (index + 1) := by
  obtain ⟨before, behind, hbefore, hmask⟩ := exists_mask_commented h hbreak
  have houter : index < front.length ∨ front.length + comment.length < index := by
    by_contra hinner
    rw [not_or, Nat.not_lt, Nat.not_lt] at hinner
    have hin : index - before.length < comment.length + 1 := by omega
    have hblanks : index - before.length < (List.replicate (comment.length + 1) ' ').length := by
      rwa [List.length_replicate]
    rw [hmask, List.getElem?_append_right (by omega), List.getElem?_append_left hblanks,
      List.getElem?_replicate_of_lt hin] at hc
    exact hblank (Option.some.inj hc).symm
  unfold IsOutside
  omega

/-- A line break ends the comment. -/
theorem commented_eq_append : commented front comment back =
    (front ++ '#' :: comment) ++ '\n' :: back := by
  simp only [commented, List.append_assoc, List.cons_append]

/-- Behind the comment nothing of it is left. -/
theorem drop_commented (h : front.length + comment.length < start) :
    (commented front comment back).drop start =
      ('\n' :: back).drop (start - (front.length + comment.length + 1)) := by
  have hlead : (front ++ '#' :: comment).length ≤ start := by
    rw [List.length_append, List.length_cons]
    omega
  rw [commented_eq_append, List.drop_append, List.drop_eq_nil_of_le hlead, List.nil_append,
    List.length_append, List.length_cons]
  rfl

/-- A slice from before the comment to behind it. -/
theorem slice_commented (hstart : start ≤ front.length)
    (hstop : front.length + comment.length < stop) :
    (commented front comment back).slice start stop = front.drop start ++ '#' ::
      (comment ++ ('\n' :: back).take (stop - (front.length + comment.length + 1))) := by
  have hlead : (front ++ '#' :: comment).length ≤ stop := by
    rw [List.length_append, List.length_cons]
    omega
  rw [Text.slice, commented_eq_append, List.take_append, List.take_of_length_le hlead,
    List.append_assoc, List.drop_append_of_le_length hstart, List.length_append, List.length_cons]
  rfl

/-- A slice that stays in front of the comment or behind it does not show it. -/
theorem slice_eq_of_isOutside (hlength : comment'.length = comment.length)
    (h : stop ≤ front.length ∨ front.length + comment.length < start) :
    (commented front comment' back).slice start stop =
      (commented front comment back).slice start stop := by
  rcases h with hstop | hstart
  · simp only [Text.slice, commented, List.take_append_of_le_length hstop]
  · rw [Text.slice, Text.slice, List.drop_take, List.drop_take, drop_commented hstart,
      drop_commented (hlength ▸ hstart), hlength]

end Places

namespace CallSite

open Template

/-! ### Factory names in front of a comment -/

/-- No blanks before a comment are lost but those that begin the text. -/
theorem trimLeft_append_hash (front back : Text) :
    Text.trimLeft (front ++ '#' :: back) = front.trimLeft ++ '#' :: back :=
  dropWhile_append_seam (by decide) front back

/-- A text that begins with a quoted symbol and leaves it open. -/
def LeavesSymbolOpen (text : Text) : Prop :=
  ∃ name, text.trimLeft = ':' :: '"' :: name ∧ '"' ∉ name

/-- With a symbol left open a factory is named just when the symbol is closed later. -/
theorem isNone_factoryName?_of_open {front : Text} (h : LeavesSymbolOpen front) (back : Text) :
    (factoryName? (front ++ '#' :: back)).isNone = true ↔ '"' ∉ back := by
  obtain ⟨name, hfront, hopen⟩ := h
  have hlead : Text.trimLeft (front ++ '#' :: back) = ':' :: '"' :: (name ++ '#' :: back) := by
    rw [trimLeft_append_hash, hfront]
    rfl
  have hname := forall_ne_of_notMem hopen
  rw [isNone_factoryName?_of_cons_cons hlead, if_pos rfl, if_pos rfl,
    List.takeWhile_append_of_pos hname, List.dropWhile_append_of_pos hname]
  have hsome : (name ++ ('#' :: back).takeWhile fun c => decide (c ≠ '"')).isEmpty = false := by
    simp
  rw [hsome, Bool.false_or, List.isEmpty_iff, List.dropWhile_eq_nil_iff]
  constructor
  · intro hall hmem
    simpa using hall '"' (List.mem_cons_of_mem _ hmem)
  · intro hnone c hc
    rcases List.mem_cons.mp hc with rfl | hc
    · decide
    · exact decide_eq_true fun heq => hnone (heq ▸ hc)

/-- Otherwise a factory is named in front of the number sign or not at all. -/
theorem isNone_factoryName?_of_closed {front : Text} (h : ¬LeavesSymbolOpen front) (back : Text) :
    (factoryName? (front ++ '#' :: back)).isNone = (factoryName? (front ++ ['#'])).isNone := by
  have hstart : CharClass.isNameStart '#' = false := by decide
  have hchar : isFactoryChar '#' = false := by decide
  have htrim := trimLeft_append_hash front
  cases hlead : front.trimLeft with
  | nil =>
    simp only [hlead, List.nil_append] at htrim
    rw [isNone_factoryName?_of_plain (htrim back) (by decide),
      isNone_factoryName?_of_plain (htrim []) (by decide)]
  | cons c more =>
    simp only [hlead, List.cons_append] at htrim
    cases more with
    | nil =>
      rw [isNone_factoryName?_of_cons_cons (htrim back),
        isNone_factoryName?_of_cons_cons (htrim []), hstart]
      simp
    | cons d name =>
      simp only [List.cons_append] at htrim
      rw [isNone_factoryName?_of_cons_cons (htrim back),
        isNone_factoryName?_of_cons_cons (htrim [])]
      by_cases hcolon : c = ':'
      · rw [if_pos hcolon, if_pos hcolon]
        by_cases hquote : d = '"'
        · rw [if_pos hquote, if_pos hquote]
          have hclosed : '"' ∈ name := by
            by_contra hopen
            exact h ⟨name, by rw [hlead, hcolon, hquote], hopen⟩
          obtain ⟨before, behind, rfl, hbefore⟩ := List.eq_append_cons_of_mem hclosed
          have hname := forall_ne_of_notMem hbefore
          simp only [List.append_assoc, List.takeWhile_append_of_pos hname,
            List.dropWhile_append_of_pos hname]
          simp
        · rw [if_neg hquote, if_neg hquote]
      · rw [if_neg hcolon, if_neg hcolon, dropWhile_append_seam hchar, dropWhile_append_seam hchar,
          stopsAt_head? '#']

/-- The arguments of a call leave a quoted symbol open in front of an offset and go on behind it. -/
def Call.LeavesSymbolOpen (call : Call) (text : Text) (offset : Nat) : Prop :=
  offset < call.argsStop ∧ CallSite.LeavesSymbolOpen (text.slice call.argsStart offset)

section Commented

variable {front back comment comment' : Text} {start stop : Nat}

/-- Whether a factory is named does not depend on a comment, unless it closes a symbol. -/
theorem isNone_factoryName?_commented (hlength : comment'.length = comment.length)
    (hstart : IsOutside front comment start) (hstop : IsOutside front comment stop)
    (hquotes : front.length < stop → LeavesSymbolOpen (front.drop start) →
      ('"' ∈ comment ↔ '"' ∈ comment')) :
    (factoryName? ((commented front comment' back).slice start stop)).isNone =
      (factoryName? ((commented front comment back).slice start stop)).isNone := by
  rcases hstop with hbefore | hstop
  · rw [slice_eq_of_isOutside hlength (.inl hbefore)]
  rcases hstart with hstart | hbehind
  · rw [slice_commented hstart hstop, slice_commented hstart (hlength ▸ hstop), hlength]
    by_cases hopen : LeavesSymbolOpen (front.drop start)
    · have hsame := hquotes (by omega) hopen
      rw [Bool.eq_iff_iff, isNone_factoryName?_of_open hopen, isNone_factoryName?_of_open hopen,
        List.mem_append, List.mem_append, hsame]
    · rw [isNone_factoryName?_of_closed hopen, isNone_factoryName?_of_closed hopen (comment ++ _)]
  · rw [slice_eq_of_isOutside hlength (.inr hbehind)]

/-- Whether a name begins is seen without what stands behind a comment sign. -/
theorem stopsAt_beginsName : StopsAt '#' beginsName := by
  intro front back
  cases front with
  | nil => rfl
  | cons c front =>
    rw [List.cons_append, List.cons_append, beginsName_cons, beginsName_cons, stopsAt_head? '#']

/-- Whether a factory name begins at an offset does not depend on a comment. -/
theorem beginsName_drop_commented (hlength : comment'.length = comment.length)
    (hstart : IsOutside front comment start) :
    beginsName ((commented front comment' back).drop start) =
      beginsName ((commented front comment back).drop start) := by
  rcases hstart with hstart | hbehind
  · rw [commented, commented, List.drop_append_of_le_length hstart,
      List.drop_append_of_le_length hstart, stopsAt_beginsName,
      stopsAt_beginsName _ (comment ++ _)]
  · rw [drop_commented hbehind, drop_commented (hlength ▸ hbehind), hlength]

/-- What the text of a cursor has behind its offset. -/
theorem getElem?_text (c : Cursor) (count : Nat) : c.text[c.offset + count]? = c.after[count]? := by
  rw [← List.getElem?_drop, ← Nat.add_zero c.offset, Cursor.drop_offset_add]
  rfl

section Heads

variable (h : IsTopLevelAt (commented front comment back) front.length) (hbreak : '\n' ∉ comment)
  {last : Cursor} (hlast : last.text = mask (commented front comment back))
include h hbreak hlast

/-- What the mask shows behind a place is not in the comment. -/
theorem isOutside_of_getElem?_after {count : Nat} {c : Char} (hc : last.after[count]? = some c)
    (hblank : c ≠ ' ') : IsOutside front comment (last.offset + count) ∧
      IsOutside front comment (last.offset + count + 1) := by
  rw [← getElem?_text, hlast] at hc
  exact isOutside_of_getElem?_mask h hbreak hc hblank

/-- Arguments in parentheses begin and end outside the comment. -/
theorem isOutside_of_closeDistance (hround : last.after.head? = some '(') {distance : Nat}
    (hclose : Bracket.closeDistance BracketRole.ofChar [] last.after = some distance) :
    IsOutside front comment (last.offset + 1) ∧
      IsOutside front comment (last.offset + distance) := by
  obtain ⟨rest, hafter⟩ := List.head?_eq_some_iff.mp hround
  obtain ⟨c, kind, hc, hcloses⟩ := Bracket.closes_of_closeDistance hclose
  have hopener : last.after[0]? = some '(' := by
    rw [hafter]
    rfl
  have hblank : c ≠ ' ' := by
    rintro rfl
    cases hcloses
  exact ⟨(isOutside_of_getElem?_after h hbreak hlast hopener (by decide)).2,
    (isOutside_of_getElem?_after h hbreak hlast hc hblank).1⟩

/-- Arguments without parentheses end outside the comment if they begin there. -/
theorem isOutside_of_argumentLength {gap : Nat}
    (hstart : IsOutside front comment (last.offset + gap)) : IsOutside front comment
      (last.offset + gap + Statement.argumentLength (last.after.drop gap)) := by
  rcases Statement.exists_argumentLength_eq (last.after.drop gap) with
    hnone | ⟨taken, c, ⟨more, hmore⟩, hkept, hlength⟩
  · rwa [hnone]
  · have hc : last.after[gap + taken.length]? = some c := by
      rw [← List.getElem?_drop, ← hmore]
      simp
    have hblank : c ≠ ' ' := by
      rintro rfl
      cases hkept
    rw [hlength, ← Nat.add_assoc, Nat.add_assoc last.offset]
    exact (isOutside_of_getElem?_after h hbreak hlast hc hblank).2

/-- Behind the gap in front of arguments without parentheses nothing is left, or it is outside the
comment. -/
theorem isOutside_of_gap :
    (commented front comment back).length ≤
        last.offset + (last.after.takeWhile CharClass.isSpaceOrTab).length ∨
      IsOutside front comment
        (last.offset + (last.after.takeWhile CharClass.isSpaceOrTab).length) := by
  have hfirst := List.head?_dropWhile_not CharClass.isSpaceOrTab last.after
  rw [← drop_length_takeWhile] at hfirst
  generalize last.after.takeWhile CharClass.isSpaceOrTab = gap at hfirst ⊢
  cases hrest : last.after.drop gap.length with
  | nil =>
    left
    rw [← length_mask, ← hlast, ← List.drop_eq_nil_iff, Cursor.drop_offset_add, hrest]
  | cons c rest =>
    have hc : last.after[gap.length]? = some c := by
      rw [← Nat.add_zero gap.length, ← List.getElem?_drop, hrest]
      rfl
    have hblank : c ≠ ' ' := by
      rintro rfl
      rw [hrest] at hfirst
      cases hfirst
    exact .inr (isOutside_of_getElem?_after h hbreak hlast hc hblank).1

end Heads

/-- A head begins the same call whatever a comment says, apart from what is read of its arguments,
which begin and end outside the comment. -/
theorem Head.call?_commented (h : AreCommentsAt front back comment comment') {head : Head}
    (hhead : head.last.text = mask (commented front comment back)) :
    head.call? (commented front comment' back) = head.call? (commented front comment back) ∨
      ∃ start stop last, IsOutside front comment start ∧ IsOutside front comment stop ∧
        head.call? (commented front comment back) =
          some (head.call (commented front comment back) start stop last) ∧
        head.call? (commented front comment' back) =
          some (head.call (commented front comment' back) start stop last) := by
  unfold Head.call?
  by_cases hdefinition : head.isDefinition = true
  · exact .inl (by rw [if_pos hdefinition, if_pos hdefinition])
  rw [if_neg hdefinition, if_neg hdefinition]
  dsimp only
  by_cases hround : head.last.after.head? = some '('
  · rw [if_pos hround, if_pos hround]
    cases hclose : Bracket.closeDistance BracketRole.ofChar [] head.last.after with
    | none => exact .inl rfl
    | some distance =>
      obtain ⟨hstart, hstop⟩ := isOutside_of_closeDistance h.topLevel h.unbroken hhead hround hclose
      exact .inr ⟨_, _, _, hstart, hstop, rfl, rfl⟩
  · rw [if_neg hround, if_neg hround]
    rcases isOutside_of_gap h.topLevel h.unbroken hhead with hend | hstart
    · -- where the text ends no name begins
      have hend' : (commented front comment' back).length ≤
          head.last.offset + (head.last.after.takeWhile CharClass.isSpaceOrTab).length :=
        h.length_eq.trans_le hend
      left
      rw [List.drop_eq_nil_of_le hend, List.drop_eq_nil_of_le hend']
      simp only [beginsName, Bool.and_false, Bool.false_eq_true, if_false]
    · have hstop := isOutside_of_argumentLength h.topLevel h.unbroken hhead hstart
      rw [beginsName_drop_commented h.length hstart]
      split
      · exact .inr ⟨_, _, _, hstart, hstop, rfl, rfl⟩
      · exact .inl rfl

/-- The calls of both texts look the same in every view that takes from their arguments no more than
their places, or besides whether a factory is named if no symbol is left open. -/
theorem map_calls_commented {α : Type} (view : Call → α)
    (h : AreCommentsAt front back comment comment')
    (hview : ∀ (head : Head) (start stop last : Nat), IsOutside front comment start →
      IsOutside front comment stop →
      head.call (commented front comment back) start stop last ∈
        calls (commented front comment back) (mask (commented front comment back)) →
      view (head.call (commented front comment' back) start stop last) =
        view (head.call (commented front comment back) start stop last)) :
    (calls (commented front comment' back) (mask (commented front comment' back))).map view =
      (calls (commented front comment back) (mask (commented front comment back))).map view := by
  rw [h.mask_eq]
  unfold calls
  rw [List.map_filterMap, List.map_filterMap]
  refine List.filterMap_congr fun head hmem => ?_
  obtain ⟨hstands, htext⟩ := standsAt_of_mem_heads hmem
  obtain ⟨stretch, -, hpass⟩ := hstands.exists_passes
  rcases Head.call?_commented h (hpass.text.trans htext) with
    hsame | ⟨start, stop, last, hstart, hstop, hcall, hcall'⟩
  · rw [hsame]
  · rw [hcall, hcall', Option.map_some, Option.map_some,
      hview head start stop last hstart hstop (List.mem_filterMap.mpr ⟨head, hmem, hcall⟩)]

end Commented

end CallSite

end FactoryDowngrade
