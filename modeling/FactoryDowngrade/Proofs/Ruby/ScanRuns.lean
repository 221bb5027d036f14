import FactoryDowngrade.Proofs.Template.Mask

/-!
# Runs of the masking scan

A run leads from one state of the scan to another in some number of steps. What a run writes from
the front of a text on is the front of its mask, whatever comes behind. In code with no heredoc
pending a step shows its character, or blanks a comment, or opens a literal.
-/

namespace FactoryDowngrade

/-- A character that does not occur differs from all that do. -/
theorem forall_ne_of_notMem {text : Text} {x : Char} (h : x ∉ text) :
    ∀ c ∈ text, decide (c ≠ x) = true :=
  fun _ hc => decide_eq_true fun heq => h (heq ▸ hc)

/-- An accepted character is none of those that are not accepted. -/
theorem notMem_of_accepted {accepts : Char → Bool} {others : List Char}
    (hothers : ∀ x ∈ others, accepts x = false) {c : Char} (hc : accepts c = true) :
    c ∉ others := by
  intro hmem
  rw [hothers c hmem] at hc
  cases hc

/-- The first line goes on behind a stretch without a line break. -/
theorem Text.firstLine_append {front : Text} (h : '\n' ∉ front) (rest : Text) :
    (front ++ rest).firstLine = front ++ rest.firstLine :=
  List.takeWhile_append_of_pos (forall_ne_of_notMem h)

/-- A word does not go on over a character that it does not hold. -/
theorem Text.prefix_of_prefix_append {word front : Text} {c : Char} (hc : c ∉ word) {rest : Text}
    (h : word <+: front ++ c :: rest) : word <+: front := by
  rcases List.prefix_or_prefix_of_prefix h (List.prefix_append front (c :: rest))
    with hword | ⟨more, rfl⟩
  · exact hword
  · cases more with
    | nil => simp
    | cons x more =>
      obtain ⟨tail, htail⟩ := h
      rw [List.append_assoc] at htail
      obtain rfl := (List.cons.inj (List.append_cancel_left htail)).1
      exact absurd (by simp) hc

namespace Scan

/-- The scan comes from one state to another. -/
def Reaches (s t : Scan) : Prop :=
  ∃ count, steps count s = t

/-- Some steps and more steps are all of them together. -/
theorem steps_add (first more : Nat) (s : Scan) :
    steps (first + more) s = steps more (steps first s) := by
  induction first generalizing s with
  | zero => rw [Nat.zero_add]; rfl
  | succ first ih => rw [Nat.succ_add, steps, steps, ih]

namespace Reaches

variable {s t u : Scan}

/-- A scan reaches itself. -/
theorem refl (s : Scan) : s.Reaches s := ⟨0, rfl⟩

/-- It reaches what a step makes of it. -/
theorem step (h : s.step = t) : s.Reaches t := ⟨1, h⟩

/-- Runs follow one another. -/
theorem trans (h : s.Reaches t) (h' : t.Reaches u) : s.Reaches u := by
  obtain ⟨first, rfl⟩ := h
  obtain ⟨more, rfl⟩ := h'
  exact ⟨first + more, steps_add first more s⟩

/-- A run advances the scan. -/
theorem exists_advances (h : s.Reaches t) : ∃ stretch image, s.Advances stretch image t := by
  obtain ⟨count, rfl⟩ := h
  induction count generalizing s with
  | zero => exact ⟨[], [], .refl s⟩
  | succ count ih =>
    by_cases hend : s.after = []
    · rw [steps_of_after_nil hend]
      exact ⟨[], [], .refl s⟩
    · obtain ⟨stretch, image, -, hstep⟩ := progresses_step hend
      obtain ⟨more, moreImage, hmore⟩ := @ih s.step
      exact ⟨_, _, hstep.trans hmore⟩

end Reaches

end Scan

open Scan

/-- The mask is what as many steps as there are characters write behind any run from the front. -/
theorem mask_eq_of_reaches {text : Text} {s : Scan} (h : (start text).Reaches s) :
    mask text = (steps text.length s).masked.reverse := by
  obtain ⟨count, rfl⟩ := h
  obtain ⟨image, himage⟩ := exists_finishes (start text)
  -- the steps of both together are enough to finish
  have hmask := himage.masked_steps (Nat.le_add_left text.length count)
  rw [mask_eq_iff.mpr himage, ← steps_add, hmask, start, List.append_nil, List.reverse_reverse]

/-- What a run from the front of a text writes is the front of the mask. -/
theorem exists_mask_of_reaches {text : Text} {s : Scan} (h : (start text).Reaches s) :
    ∃ more, mask text = s.masked.reverse ++ more := by
  obtain ⟨stretch, more, hmore⟩ := Reaches.exists_advances
    (⟨text.length, rfl⟩ : s.Reaches (steps text.length s))
  refine ⟨more, ?_⟩
  rw [mask_eq_of_reaches h, hmore.masked, List.reverse_append, List.reverse_reverse]

/-- A run to the end of a text has written the mask. -/
theorem mask_eq_of_reaches_end {text : Text} {s : Scan} (h : (start text).Reaches s)
    (hend : s.after = []) : mask text = s.masked.reverse := by
  rw [mask_eq_of_reaches h, steps_of_after_nil hend]

namespace Scan

variable {frames : List Frame} {heredocs : List Heredoc} {before masked after : Text} {c : Char}

/-- At top level code is read. -/
theorem isCode_nil : IsCode [] := by
  intro kind depth outer h
  cases h

/-- A character that breaks no line and opens neither a literal nor a heredoc nor a comment is
shown. -/
theorem isShown_of_notMem (hbreak : c ≠ '\n') (h : c ∉ ['"', '\'', '\x60', '#', '%', '<']) :
    IsShown c := by
  simp only [List.mem_cons, List.not_mem_nil, or_false, not_or] at h
  obtain ⟨hdouble, hsingle, hbacktick, hhash, hpercent, hangle⟩ := h
  have hquote : Literal.ofQuote? c = none := by
    simp [Literal.ofQuote?, hdouble, hsingle, hbacktick]
  exact ⟨hbreak, hhash, hquote, hpercent, hangle⟩

/-- With no heredoc pending a line break is passed alone. -/
theorem step_of_lineBreak (hcode : IsCode frames) :
    (Scan.mk before masked ('\n' :: after) frames []).step =
      ⟨'\n' :: before, '\n' :: masked, after, frames, []⟩ := by
  rw [step_of_isCode rfl hcode, stepCode.eq_def, if_pos rfl]
  rfl

/-- A comment is blanked up to the line break. -/
theorem step_of_comment (hcode : IsCode frames) {body : Text} (hbody : '\n' ∉ body) :
    (Scan.mk before masked ('#' :: (body ++ '\n' :: after)) frames heredocs).step =
      ⟨('#' :: body).reverse ++ before, (('#' :: body).map blankOf).reverse ++ masked,
        '\n' :: after, frames, heredocs⟩ := by
  have hline : Text.firstLine ('#' :: (body ++ '\n' :: after)) = '#' :: body := by
    rw [← List.cons_append, Text.firstLine_append (by simpa using hbody)]
    simp [Text.firstLine]
  have htake : ('#' :: (body ++ '\n' :: after)).take ('#' :: body).length = '#' :: body := by
    rw [← List.cons_append, List.take_left]
  have hdrop : ('#' :: (body ++ '\n' :: after)).drop ('#' :: body).length = '\n' :: after := by
    rw [← List.cons_append, List.drop_left]
  rw [step_of_isCode rfl hcode, stepCode.eq_def, if_neg (by decide), if_pos rfl]
  dsimp only
  rw [hline, blank, pass, htake, hdrop]

/-- A quote opens a literal. -/
theorem step_of_quote (hcode : IsCode frames) {kind : Literal}
    (hquote : Literal.ofQuote? c = some kind) :
    (Scan.mk before masked (c :: after) frames heredocs).step =
      ⟨c :: before, c :: masked, after, .literal kind 0 :: frames, heredocs⟩ := by
  have hchar : c ≠ '\n' ∧ c ≠ '#' ∧ c ≠ '=' := by
    refine ⟨?_, ?_, ?_⟩ <;>
    · rintro rfl
      cases hquote
  rw [step_of_isCode rfl hcode, stepCode.eq_def, if_neg hchar.1, if_neg hchar.2.1,
    if_neg (by simp [hchar.2.2]), literalAhead?, hquote]
  rfl

/-- Where neither a quote nor a percent sign stands no literal opens. -/
theorem literalAhead?_eq_none {s : Scan} (hquote : Literal.ofQuote? c = none)
    (hpercent : s.after.head? ≠ some '%') : s.literalAhead? c = none := by
  rw [literalAhead?, hquote]
  dsimp only
  rw [Literal.percent?_eq_none hpercent, ite_self]

/-! ### Block comments -/

/-- No line that begins in a stretch of the text is the first one of a block comment. The stretch
stands between what comes before it, nearest character first, and the rest. -/
def IsLineFree (before stretch rest : Text) : Prop :=
  ∀ passed ahead, stretch = passed ++ ahead → ahead ≠ [] →
    (passed.reverse ++ before).head?.all (· == '\n') = true → ¬"=begin".toList <+: ahead ++ rest

namespace IsLineFree

variable {stretch more rest : Text}

/-- The front of a stretch has no such line if the stretch has none. -/
theorem left (h : IsLineFree before (stretch ++ more) rest) :
    IsLineFree before stretch (more ++ rest) := by
  rintro passed ahead rfl hahead hstart
  rw [← List.append_assoc]
  exact h passed (ahead ++ more) (List.append_assoc ..) (by simp [hahead]) hstart

/-- Nor has what is behind the front. -/
theorem right (h : IsLineFree before (stretch ++ more) rest) :
    IsLineFree (stretch.reverse ++ before) more rest := by
  rintro passed ahead rfl hahead hstart
  refine h (stretch ++ passed) ahead (List.append_assoc ..).symm hahead ?_
  rwa [List.reverse_append, List.append_assoc]

/-- Where a stretch begins, no block comment does. -/
theorem head (h : IsLineFree before (c :: stretch) rest)
    (hstart : before.head?.all (· == '\n') = true) : ¬"=begin".toList <+: c :: (stretch ++ rest) :=
  h [] (c :: stretch) rfl (by simp) hstart

/-- Two stretches that follow each other have no such line if neither of them has one. -/
theorem append (h : IsLineFree before stretch (more ++ rest))
    (h' : IsLineFree (stretch.reverse ++ before) more rest) :
    IsLineFree before (stretch ++ more) rest := by
  intro passed ahead hsplit hahead hstart
  rcases List.append_eq_append_iff.mp hsplit with ⟨inner, rfl, rfl⟩ | ⟨inner, rfl, rfl⟩
  · refine h' inner ahead rfl hahead ?_
    rwa [List.reverse_append, List.append_assoc] at hstart
  · cases inner with
    | nil =>
      refine h' [] more rfl (by simpa using hahead) ?_
      simpa using hstart
    | cons x inner =>
      rw [List.append_assoc]
      exact h passed (x :: inner) rfl (by simp) hstart

/-- A line is free if it does not begin a block comment. -/
theorem line (hbreak : '\n' ∉ stretch) (hfirst : ¬"=begin".toList <+: stretch) :
    IsLineFree before stretch ('\n' :: rest) := by
  rintro passed ahead rfl - hstart hcomment
  rcases List.eq_nil_or_concat passed with rfl | ⟨passed, last, rfl⟩
  · exact hfirst (Text.prefix_of_prefix_append (by decide) hcomment)
  · rw [List.concat_eq_append, List.reverse_append] at hstart
    obtain rfl : last = '\n' := by simpa using hstart
    exact hbreak (by simp)

/-- A text is free if it neither begins a block comment nor has a line that does. -/
theorem of_lines {text : Text} (hfirst : ¬"=begin".toList <+: text)
    (hlines : ¬"\n=begin".toList <:+: text) : IsLineFree [] text [] := by
  rintro passed ahead rfl - hstart hcomment
  rw [List.append_nil] at hstart hcomment
  rcases List.eq_nil_or_concat passed with rfl | ⟨passed, last, rfl⟩
  · exact hfirst hcomment
  · obtain rfl : last = '\n' := by simpa using hstart
    obtain ⟨more, rfl⟩ := hcomment
    exact hlines ⟨passed, more, by simp⟩

/-- A stretch that goes on in a line is free if no line in it begins a block comment. -/
theorem of_rest (hbefore : before.head?.all (· == '\n') = false)
    (hlines : ¬"\n=begin".toList <:+: stretch) (hc : c ∉ "=begin".toList) :
    IsLineFree before stretch (c :: rest) := by
  rintro passed ahead rfl - hstart hcomment
  rcases List.eq_nil_or_concat passed with rfl | ⟨passed, last, rfl⟩
  · cases hbefore.symm.trans hstart
  · rw [List.concat_eq_append, List.reverse_append] at hstart
    obtain rfl : last = '\n' := by simpa using hstart
    obtain ⟨more, rfl⟩ := Text.prefix_of_prefix_append hc hcomment
    exact hlines ⟨passed, more, by simp⟩

/-- A stretch of one line that does not begin with a sign of equality is free. -/
theorem of_line (hbreak : '\n' ∉ stretch.dropLast) (hhead : stretch.head? ≠ some '=') :
    IsLineFree before stretch rest := by
  rintro passed ahead rfl hahead hstart hcomment
  rcases List.eq_nil_or_concat passed with rfl | ⟨passed, last, rfl⟩
  · obtain ⟨x, ahead, rfl⟩ := List.exists_cons_of_ne_nil hahead
    obtain ⟨more, hmore⟩ := hcomment
    obtain rfl : '=' = x := (List.cons.inj hmore).1
    exact hhead rfl
  · rw [List.concat_eq_append, List.reverse_append] at hstart
    obtain rfl : last = '\n' := by simpa using hstart
    refine hbreak ?_
    rw [List.dropLast_append_of_ne_nil hahead]
    simp

/-- A stretch without a sign of equality is free. -/
theorem of_notMem (hequals : '=' ∉ stretch) : IsLineFree before stretch rest := by
  rintro passed ahead rfl hahead - hcomment
  obtain ⟨x, ahead, rfl⟩ := List.exists_cons_of_ne_nil hahead
  obtain ⟨more, hmore⟩ := hcomment
  obtain rfl : '=' = x := (List.cons.inj hmore).1
  exact hequals (by simp)

end IsLineFree

end Scan

end FactoryDowngrade
