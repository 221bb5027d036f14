import FactoryDowngrade.Proofs.AssignedCreation
import FactoryDowngrade.Proofs.Ruby.LineStarts
import FactoryDowngrade.Proofs.Ruby.ShownCode

/-!
# Arguments are captured as they stand

A call that begins a line of top-level code has one site with everything between its parentheses for
arguments, letter for letter. Whatever brackets stand in strings and comments are blanked, those of
the code and of its interpolations are closed, and so the bracket matcher lands on the parenthesis
that closes the call, whatever follows it.
-/

namespace FactoryDowngrade

open Scan

/-- A call with a factory name and more arguments between its parentheses, and what follows. -/
def parenthesized (name tail back : Text) : Text :=
  "create(:".toList ++ (name ++ (tail ++ ')' :: back))

/-- The factory name stands between the opening of the call and its other arguments. -/
theorem parenthesized_eq (name tail back : Text) :
    parenthesized name tail back = ("create(:".toList ++ name) ++ (tail ++ ')' :: back) := by
  unfold parenthesized
  simp only [List.append_assoc]

/-- Word characters are plain and break no line. -/
theorem Phrase.isPlain_of_isWord {c : Char} (hc : CharClass.isWord c = true) :
    Phrase.isPlain c = true ∧ c ≠ '\n' := by
  have hothers : ∀ x ∈ ['"', '\'', '\x60', '#', '%', '<', '\x7b', '\x7d', '\n'],
      CharClass.isWord x = false := by decide
  have hnot := notMem_of_accepted hothers hc
  simp only [List.mem_cons, List.not_mem_nil, or_false, not_or] at hnot
  simp [Phrase.isPlain, hnot]

/-- A text that has no characters, or ends a line, has no other last character. -/
theorem getLast?_all_lineBreak {front : Text} (h : front = [] ∨ front.getLast? = some '\n') :
    front.getLast?.all (· == '\n') = true := by
  rcases h with rfl | h
  · rfl
  · rw [h]
    rfl

/-- Balanced code that goes on a line of top-level code is shown by the mask, with what leads to it
and the character behind it. -/
theorem exists_mask_of_isShownAs {front lead tail image back : Text} {c : Char}
    (hline : front = [] ∨ front.getLast? = some '\n')
    (htop : IsTopLevelAt (front ++ (lead ++ (tail ++ c :: back))) front.length)
    (hlead : ∀ x ∈ lead, Phrase.isPlain x = true ∧ x ≠ '\n') (hnonempty : lead ≠ [])
    (hsign : lead.head? ≠ some '=') (htail : Code.IsShownAs none tail image)
    (hbegin : ¬"\n=begin".toList <:+: image) (hc : c ∉ "=begin".toList)
    (hshown : ∀ before, Crosses [] [] before [c] [c] back) :
    ∃ more, mask (front ++ (lead ++ (tail ++ c :: back))) =
      mask front ++ (lead ++ (image ++ c :: more)) := by
  have hreach := exists_reaches_clear (getLast?_all_lineBreak hline)
    (htop.isClearAt (by simp [hnonempty]) hline)
  have hcall : Crosses [] [] front.reverse lead lead ((tail ++ [c]) ++ back) :=
    crosses_stretch isCode_nil (fun x hx => (hlead x hx).1)
      (.of_line (fun hmem => (hlead _ (List.dropLast_subset _ hmem)).2 rfl) hsign)
  -- the code goes on in its line, so only lines of its own are in question
  have hlast : (lead.reverse ++ front.reverse).head?.all (· == '\n') = false := by
    rw [List.head?_append_of_ne_nil _ (by simpa using hnonempty), List.head?_reverse,
      List.getLast?_eq_some_getLast hnonempty]
    simpa using (hlead _ (List.getLast_mem hnonempty)).2
  have htail : Crosses [] [] (lead.reverse ++ front.reverse) tail image ([c] ++ back) :=
    htail.crosses isCode_nil (.of_rest hlast hbegin hc)
  have hcross := (hcall.append (htail.append (hshown _))) (mask front).reverse
  have hsplit : lead ++ (tail ++ [c]) ++ back = lead ++ (tail ++ c :: back) := by simp
  rw [hsplit] at hcross
  obtain ⟨more, hmore⟩ := exists_mask_of_reaches (hreach.trans hcross)
  exact ⟨more, by rw [hmore]; simp⟩

section Mask

variable {front name tail image back : Text}

/-- The mask of the call is the image of its arguments in its parentheses. -/
theorem exists_mask_parenthesized (hline : front = [] ∨ front.getLast? = some '\n')
    (htop : IsTopLevelAt (front ++ parenthesized name tail back) front.length)
    (hname : ∀ c ∈ name, CharClass.isWord c = true) (htail : Code.IsShownAs none tail image)
    (hbegin : ¬"\n=begin".toList <:+: image) :
    ∃ more, mask (front ++ parenthesized name tail back) =
      mask front ++ parenthesized name image more := by
  have hletter : ∀ c ∈ "create(:".toList, Phrase.isPlain c = true ∧ c ≠ '\n' := by decide
  rw [parenthesized_eq] at htop ⊢
  obtain ⟨more, hmore⟩ := exists_mask_of_isShownAs hline htop (fun c hc =>
    (List.mem_append.mp hc).elim (hletter c) fun hc => Phrase.isPlain_of_isWord (hname c hc))
    (by simp) (by simp) htail hbegin (by decide) fun _ => crosses_bracket isCode_nil (by decide)
  exact ⟨more, by rw [hmore, parenthesized_eq]⟩

end Mask

namespace CallSite

/-- The head of a call of `create` without a receiver that stands between two texts. -/
def creatingHead (before after : Text) : Head where
  first := ⟨before, "create".toList ++ after⟩
  callee := ⟨before, "create".toList ++ after⟩
  last := ⟨"create".toList.reverse ++ before, after⟩
  variant := .create

/-- A call of `create` is read where nothing before it makes it something else. -/
theorem headAt?_creatingHead {before after : Text}
    (hbefore : before.head?.any spoilsBefore = false)
    (hafter : after.head? = some '(' ∨ after.head? = some ' ') :
    headAt? (creatingHead before after).first =
      some (creatingHead before after, (creatingHead before after).last) := by
  have hunspoiled : ¬(creatingHead before after).first.follows spoilsBefore = true :=
    Bool.not_eq_true _ ▸ hbefore
  obtain ⟨x, after, rfl⟩ : ∃ x more, after = x :: more := by
    cases after with
    | nil => rcases hafter with h | h <;> cases h
    | cons x after => exact ⟨x, after, rfl⟩
  have hx : x = '(' ∨ x = ' ' := by simpa using hafter
  rw [headAt?, if_neg hunspoiled]
  rcases hx with rfl | rfl <;> rfl

/-- At the start of a line that goes on behind no dot, a call of `create` is one of the heads of the
masked text. -/
theorem creatingHead_mem_heads {front after : Text}
    (hline : front.getLast?.all (· == '\n') = true)
    (hdot : front.trimRight.getLast? ≠ some '.')
    (hafter : after.head? = some '(' ∨ after.head? = some ' ') :
    creatingHead front.reverse after ∈ heads (front ++ ("create".toList ++ after)) := by
  have hunspoiled : front.reverse.head?.any spoilsBefore = false := by
    rw [List.head?_reverse]
    cases hlast : front.getLast? with
    | none => rfl
    | some x =>
      rw [hlast] at hline
      rw [eq_of_beq hline]
      decide
  have hread := headAt?_creatingHead hunspoiled hafter
  have hreach : (Cursor.start (front ++ ("create".toList ++ after))).Passes front
      (creatingHead front.reverse after).first :=
    ⟨rfl, by simp [creatingHead, Cursor.start]⟩
  refine Cursor.mem_readAll isProgressive_headAt? hreach hread
    fun first behind hsplit hbehind e e' other he hother => ?_
  by_contra hover
  have hpass : e.Passes behind (creatingHead front.reverse after).first := by
    have hboth : (Cursor.start (front ++ ("create".toList ++ after))).Passes (first ++ behind)
        (creatingHead front.reverse after).first := by
      rw [← hsplit]
      exact hreach
    obtain ⟨place, hplace, hrest⟩ := hboth.split
    exact he.unique hplace ▸ hrest
  have hbreak : behind.getLast? = some '\n' := by
    rw [hsplit, List.getLast?_append_of_ne_nil _ hbehind,
      List.getLast?_eq_some_getLast hbehind] at hline
    rw [List.getLast?_eq_some_getLast hbehind, eq_of_beq hline]
  -- an earlier head that went on over this line would have a dot right before it
  have howned := (standsAt_of_headAt? hother).head?_dropWhile_of_lineBreak hpass hbreak rfl
    (Nat.lt_of_not_le hover)
  rw [Text.trimRight, List.getLast?_reverse] at hdot
  exact hdot howned

/-- The name at the start of a line is not that of a method definition. -/
theorem isDefinition_creatingHead {front : Text} (after : Text)
    (hline : front.getLast?.all (· == '\n') = true) :
    (creatingHead front.reverse after).isDefinition = false := by
  have hhead : (creatingHead front.reverse after).first.lineHead = [] := by
    rw [creatingHead, Cursor.lineHead]
    dsimp only
    rw [List.getLast?_eq_head?_reverse] at hline
    cases hbackwards : front.reverse with
    | nil => rfl
    | cons x more =>
      rw [hbackwards] at hline
      rw [eq_of_beq hline]
      rfl
  rw [Head.isDefinition, hhead]
  decide

/-- The head ends behind its method name. -/
theorem offset_last_creatingHead (before after : Text) :
    (creatingHead before after).last.offset = before.length + 6 := by
  have hmethod : "create".toList.length = 6 := rfl
  simp only [creatingHead, Cursor.offset, List.length_append, List.length_reverse, hmethod]
  omega

/-- The slice of a text between two others is the one that stands there. -/
theorem slice_append (front stretch back : Text) :
    (front ++ (stretch ++ back)).slice front.length (front.length + stretch.length) = stretch := by
  rw [Text.slice, List.take_length_add_append, List.drop_left, List.take_left]

/-- The call of a factory at an offset, with more arguments behind the name. -/
def captured (offset : Nat) (name tail : Text) : Call where
  variant := .create
  start := offset
  stop := offset + (name.length + tail.length + 9)
  calleeStart := offset
  calleeStop := offset + 6
  argsStart := offset + 7
  argsStop := offset + 7 + (':' :: (name ++ tail)).length
  schemaName := some name
  fault := none

section Parenthesized

variable {front name tail image back : Text}

/-- Between the parentheses are the factory name and the other arguments. -/
theorem slice_parenthesized (front name tail back : Text) :
    (front ++ parenthesized name tail back).slice (front.length + 7)
      (front.length + 7 + (':' :: (name ++ tail)).length) = ':' :: (name ++ tail) := by
  have hsplit : front ++ parenthesized name tail back =
      (front ++ "create(".toList) ++ ((':' :: (name ++ tail)) ++ ')' :: back) := by
    unfold parenthesized
    simp only [List.append_assoc, List.cons_append]
    rfl
  have hlength : (front ++ "create(".toList).length = front.length + 7 := List.length_append
  rw [hsplit, ← hlength, slice_append]

/-- The call that the text spells out is found, if its line does not go on behind a dot. -/
theorem captured_mem_calls (hline : front = [] ∨ front.getLast? = some '\n')
    (htop : IsTopLevelAt (front ++ parenthesized name tail back) front.length)
    (hdot : (mask front).trimRight.getLast? ≠ some '.') (hname : IsSymbol name)
    (htail : Code.IsShownAs none tail image) (hedge : tail.head?.any CharClass.isWord = false)
    (hbegin : ¬"\n=begin".toList <:+: image) :
    captured front.length name tail ∈ calls (front ++ parenthesized name tail back)
      (mask (front ++ parenthesized name tail back)) := by
  obtain ⟨more, hmask⟩ := exists_mask_parenthesized hline htop hname.word htail hbegin
  have hshown : mask (front ++ parenthesized name tail back) = mask front ++
      ("create".toList ++ '(' :: ((':' :: (name ++ image)) ++ ')' :: more)) := by
    rw [hmask]
    unfold parenthesized
    simp only [List.append_assoc, List.cons_append]
    rfl
  have hmasked : (mask front).getLast?.all (· == '\n') = true := by
    have hbreak := getLast?_all_lineBreak hline
    rw [List.getLast?_eq_head?_reverse] at hbreak ⊢
    exact head?_all_of_masks (List.forall₂_reverse_iff.mpr (mask_forall₂ front)) hbreak
  have hmem : creatingHead (mask front).reverse ('(' :: ((':' :: (name ++ image)) ++ ')' :: more)) ∈
      heads (mask (front ++ parenthesized name tail back)) := by
    rw [hshown]
    exact creatingHead_mem_heads hmasked hdot (.inl rfl)
  refine List.mem_filterMap.mpr ⟨_, hmem, ?_⟩
  have hnested : Bracket.IsNested (':' :: (name ++ image)) := by
    have hword : Bracket.IsNested name :=
      .of_plain fun c hc => Code.ofChar_of_isPlain (Code.isPlain_of_isWord (hname.word c hc))
    exact (Bracket.IsNested.singleton (by rfl : BracketRole.ofChar ':' = .plain)).append
      (hword.append htail.isNested)
  have hlength : (':' :: (name ++ image)).length = (':' :: (name ++ tail)).length := by
    simp only [List.length_cons, List.length_append, htail.masks.length_eq]
  have hfirst : (mask front).reverse.length = front.length := by
    rw [List.length_reverse, length_mask]
  have hstop : front.length + 6 + ((':' :: (name ++ tail)).length + 1) =
      front.length + 7 + (':' :: (name ++ tail)).length := by omega
  have hend : front.length + 7 + (':' :: (name ++ tail)).length + 1 =
      front.length + (name.length + tail.length + 9) := by
    simp only [List.length_cons, List.length_append]
    omega
  rw [Head.call?_of_isNested (isDefinition_creatingHead _ hmasked) (by rfl) hnested,
    offset_last_creatingHead, hfirst, hlength, Head.call, hstop, hend, slice_parenthesized,
    factoryName?_symbol hname hedge, offset_last_creatingHead]
  simp only [captured, creatingHead, Cursor.offset, hfirst, Option.isNone_some, Bool.false_eq_true,
    if_false]

/-- Everything between the parentheses of a call that begins a line of top-level code is captured:
the call has a site that names its factory, has what follows the name for arguments as it stands,
and ends behind the parenthesis. The line before may not end in a dot, and no line of the arguments
may begin a block comment. -/
theorem exists_mem_extract_parenthesized (hline : front = [] ∨ front.getLast? = some '\n')
    (htop : IsTopLevelAt (front ++ parenthesized name tail back) front.length)
    (hdot : (mask front).trimRight.getLast? ≠ some '.') (hname : IsSymbol name)
    (htail : Code.IsShownAs none tail image) (hedge : tail.head?.any CharClass.isWord = false)
    (hbegin : ¬"\n=begin".toList <:+: image) :
    ∃ s ∈ extract (front ++ parenthesized name tail back), s.sourceSpan.start = front.length ∧
      s.schemaName = some name ∧ s.argumentText = ':' :: (name ++ tail) ∧ s.fault = none ∧
      s.sourceSpan.stop =
        front.length + ("create(:".toList ++ (name ++ (tail ++ [')']))).length := by
  have hmem := captured_mem_calls hline htop hdot hname htail hedge hbegin
  have hcall : "create(:".toList.length = 8 := rfl
  refine ⟨_, List.mem_map.mpr ⟨_, hmem, rfl⟩, rfl, rfl, slice_parenthesized _ _ _ _, rfl, ?_⟩
  change front.length + (name.length + tail.length + 9) = _
  simp only [List.length_append, hcall, List.length_singleton]
  omega

/-- Arguments with brackets in a string, in its interpolation and in a comment, and with a line of
the string that looks like a block comment. -/
def tangled : Text :=
  (", at: ".toList ++ '"' :: ("a) ".toList ++ '#' :: '\x7b' :: (('[' :: ("1".toList ++ [']'])) ++
    '\x7d' :: ("\n=begin".toList ++ ['"'])))) ++ (" ".toList ++ '#' :: (" )".toList ++ ['\n']))

/-- What is shown of them. -/
def tangledImage : Text :=
  (", at: ".toList ++ '"' :: ("a) ".toList.map blankOf ++ '#' :: '\x7b' ::
    (('[' :: ("1".toList ++ [']'])) ++ '\x7d' :: ("\n=begin".toList.map blankOf ++ ['"'])))) ++
      (" ".toList ++ ' ' :: (" )".toList.map blankOf ++ ['\n']))

/-- The tangled arguments are shown as their image. -/
theorem isShownAs_tangled : Code.IsShownAs none tangled tangledImage := by
  have hgroup : Code.IsShownAs none ('[' :: ("1".toList ++ [']'])) ('[' :: ("1".toList ++ [']'])) :=
    .group .square (.of_plain (by decide))
  have hline : Code.IsShownAs (some .double) ("\n=begin".toList ++ ['"'])
      ("\n=begin".toList.map blankOf ++ ['"']) := .of_inside (by decide) (.closing .double)
  have hstring :
      Code.IsShownAs (some .double) ("a) ".toList ++ _) ("a) ".toList.map blankOf ++ _) :=
    .of_inside (by decide) (.interpolated (by decide) hgroup hline)
  exact ((Code.IsShownAs.of_plain (by decide)).append (.quoted .double hstring)).append
    ((Code.IsShownAs.of_plain (by decide)).append (.comment (by decide)))

/-- The arguments are captured with everything in them, whatever stands behind the call. -/
theorem exists_mem_extract_parenthesized_tangled :
    ("x = 1\n".toList = [] ∨ "x = 1\n".toList.getLast? = some '\n') ∧
    IsTopLevelAt ("x = 1\n".toList ++ parenthesized "user".toList tangled "\n)\n".toList) 6 ∧
    (mask "x = 1\n".toList).trimRight.getLast? ≠ some '.' ∧ IsSymbol "user".toList ∧
    Code.IsShownAs none tangled tangledImage ∧ tangled.head?.any CharClass.isWord = false ∧
    ¬"\n=begin".toList <:+: tangledImage ∧
    ∃ s ∈ extract ("x = 1\n".toList ++ parenthesized "user".toList tangled "\n)\n".toList),
      s.sourceSpan.start = 6 ∧ s.schemaName = some "user".toList ∧
      s.argumentText = ':' :: ("user".toList ++ tangled) ∧ s.fault = none ∧
      s.sourceSpan.stop =
        6 + ("create(:".toList ++ ("user".toList ++ (tangled ++ [')']))).length := by
  have hline : "x = 1\n".toList = [] ∨ "x = 1\n".toList.getLast? = some '\n' := by decide
  have htop : IsTopLevelAt
      ("x = 1\n".toList ++ parenthesized "user".toList tangled "\n)\n".toList) 6 :=
    ⟨Scan.steps 6 (Scan.start _), ⟨6, rfl⟩, by decide, by decide⟩
  have hdot : (mask "x = 1\n".toList).trimRight.getLast? ≠ some '.' := by decide
  have hname : IsSymbol "user".toList := ⟨by decide, by decide⟩
  have hedge : tangled.head?.any CharClass.isWord = false := by decide
  have hbegin : ¬"\n=begin".toList <:+: tangledImage := by decide
  exact ⟨hline, htop, hdot, hname, isShownAs_tangled, hedge, hbegin,
    exists_mem_extract_parenthesized hline htop hdot hname isShownAs_tangled hedge hbegin⟩

end Parenthesized

end CallSite

end FactoryDowngrade
