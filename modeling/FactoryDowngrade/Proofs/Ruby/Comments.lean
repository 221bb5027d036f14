import FactoryDowngrade.Proofs.Ruby.Seams

/-!
# Comments are masked alike

A scan comes to a comment whatever the comment says, and behind the line break of the comment it
goes on the same way whatever the comment said. So two comments of one length leave the same mask.
-/

namespace FactoryDowngrade

/-- A text with a comment in it. -/
def commented (front comment back : Text) : Text :=
  front ++ '#' :: (comment ++ '\n' :: back)

/-- The masking scan of a text comes to an offset in top-level code. -/
def IsTopLevelAt (text : Text) (offset : Nat) : Prop :=
  ∃ s, (Scan.start text).Reaches s ∧ s.before.length = offset ∧ s.atTopLevel = true

/-- A scan that comes to a comment in top-level code comes there whatever the comment says. -/
theorem exists_reaches_commented {front comment back : Text}
    (h : IsTopLevelAt (commented front comment back) front.length) :
    ∃ masked heredocs, masked.length = front.length ∧ ∀ comment',
      (Scan.start (commented front comment' back)).Reaches
        ⟨front.reverse, masked, '#' :: (comment' ++ '\n' :: back), [], heredocs⟩ := by
  obtain ⟨⟨before, masked, after, frames, heredocs⟩, hreach, hoffset, hcode⟩ := h
  obtain ⟨hbefore, hback, hwritten⟩ := hreach.passed_front hoffset
  dsimp only at hbefore hback hwritten
  subst hbefore hback
  obtain rfl : frames = [] := List.isEmpty_iff.mp hcode
  refine ⟨masked, heredocs, hwritten, fun comment' => ?_⟩
  exact Scan.Reaches.ahead (s := Scan.start front)
    (t := ⟨front.reverse, masked, [], [], heredocs⟩) hreach rfl (List.cons_ne_nil _ _)
    (.inr ⟨_, comment' ++ '\n' :: back, rfl, rfl⟩)

/-- A stretch without a line break is blanked by blanks. -/
theorem map_blankOf {text : Text} (h : '\n' ∉ text) :
    text.map Scan.blankOf = List.replicate text.length ' ' := by
  rw [List.eq_replicate_iff, List.length_map]
  refine ⟨rfl, fun b hb => ?_⟩
  obtain ⟨c, hc, rfl⟩ := List.mem_map.mp hb
  have hne : c ≠ '\n' := fun heq => h (heq ▸ hc)
  simp [Scan.blankOf, hne]

variable {front back comment : Text}

/-- Behind the line of a comment in top-level code the scan stands as it does behind any other
comment of that length, apart from what it passed before. -/
theorem exists_behind_commented
    (h : IsTopLevelAt (commented front comment back) front.length) :
    ∃ (s : Scan) (before lines : Text), before.length = front.length ∧
      s.masked.reverse =
        before ++ (List.replicate (comment.length + 1) ' ' ++ '\n' :: lines) ∧
      ∀ comment', '\n' ∉ comment' → comment'.length = comment.length →
        ∃ passed, (Scan.start (commented front comment' back)).Reaches (s.behind passed) := by
  obtain ⟨masked, heredocs, hlength, hreach⟩ := exists_reaches_commented h
  -- what stands behind the line break up to the end of the last heredoc
  obtain ⟨bodies, hbodies⟩ : ∃ bodies, bodies = Heredoc.bodiesLength heredocs back := ⟨_, rfl⟩
  refine ⟨⟨(back.take bodies).reverse, ((back.take bodies).map Scan.blankOf).reverse ++
      '\n' :: (List.replicate (comment.length + 1) ' ' ++ masked), back.drop bodies, [], []⟩,
    masked.reverse, (back.take bodies).map Scan.blankOf, by simpa using hlength, by simp,
    fun comment' hbreak hsame => ⟨('#' :: comment').reverse ++ front.reverse, ?_⟩⟩
  refine ((hreach comment').trans (.step (Scan.step_of_comment Scan.isCode_nil hbreak))).trans
    (.step ?_)
  have hblank : (('#' :: comment').map Scan.blankOf).reverse =
      List.replicate (comment.length + 1) ' ' := by
    rw [map_blankOf (by simpa using hbreak), List.reverse_replicate, List.length_cons, hsame]
  rw [hblank, Scan.step_of_isCode rfl Scan.isCode_nil, Scan.stepCode.eq_def, if_pos rfl, hbodies]
  rfl

/-- A comment in top-level code is blanked. -/
theorem exists_mask_commented
    (h : IsTopLevelAt (commented front comment back) front.length) (hbreak : '\n' ∉ comment) :
    ∃ before behind, before.length = front.length ∧ mask (commented front comment back) =
      before ++ (List.replicate (comment.length + 1) ' ' ++ '\n' :: behind) := by
  obtain ⟨s, before, lines, hlength, hmasked, hreach⟩ := exists_behind_commented h
  obtain ⟨passed, hpassed⟩ := hreach comment hbreak rfl
  obtain ⟨more, hmore⟩ := exists_mask_of_reaches hpassed
  refine ⟨before, lines ++ more, hlength, ?_⟩
  have hfront : (s.behind passed).masked.reverse =
      before ++ (List.replicate (comment.length + 1) ' ' ++ '\n' :: lines) := hmasked
  rw [hmore, hfront]
  simp only [List.append_assoc, List.cons_append]

/-- What a comment in top-level code says does not show in the mask. -/
theorem mask_commented {comment' : Text}
    (h : IsTopLevelAt (commented front comment back) front.length) (hbreak : '\n' ∉ comment)
    (hbreak' : '\n' ∉ comment') (hlength : comment'.length = comment.length) :
    mask (commented front comment' back) = mask (commented front comment back) := by
  obtain ⟨s, -, -, -, -, hreach⟩ := exists_behind_commented h
  obtain ⟨passed, hpassed⟩ := hreach comment hbreak rfl
  obtain ⟨passed', hpassed'⟩ := hreach comment' hbreak' hlength
  have hcount : (commented front comment' back).length = (commented front comment back).length := by
    simp [commented, hlength]
  rw [mask_eq_of_reaches hpassed, mask_eq_of_reaches hpassed', hcount, Scan.steps_behind,
    Scan.steps_behind]
  rfl

end FactoryDowngrade
