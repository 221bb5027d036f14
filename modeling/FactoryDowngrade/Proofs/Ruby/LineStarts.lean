import FactoryDowngrade.Proofs.Ruby.Comments

/-!
# At the start of a line

The bodies of pending heredocs begin behind the line break of their line and are passed with it.
No other step in code stops behind a line break, and no literal is closed by one. So where the scan
comes to the start of a line in top-level code, no heredoc is pending.
-/

namespace FactoryDowngrade

/-- The first characters of a text are all of it, or the last of them is no line break. -/
def EndsInLine (count : Nat) (text : Text) : Prop :=
  text.drop count = [] ∨ ∃ c, (text.take count).getLast? = some c ∧ c ≠ '\n'

namespace EndsInLine

variable {count : Nat} {text : Text}

/-- A stretch without line breaks that is not empty. -/
theorem of_unbroken (hne : text.take count ≠ []) (hbreak : '\n' ∉ text.take count) :
    EndsInLine count text := by
  refine .inr ⟨_, List.getLast?_eq_some_getLast hne, fun heq => ?_⟩
  exact hbreak (heq ▸ List.getLast_mem hne)

/-- A line in front of some text that is not empty. -/
theorem line {line : Text} (hne : line ≠ []) (hbreak : '\n' ∉ line) (rest : Text) :
    EndsInLine line.length (line ++ rest) := by
  refine .of_unbroken ?_ ?_ <;> rwa [List.take_left]

/-- One character. -/
theorem one {c : Char} (hc : c ≠ '\n') (rest : Text) : EndsInLine 1 (c :: rest) :=
  .inr ⟨c, rfl, hc⟩

/-- More characters in front of the text. -/
theorem behind (h : EndsInLine count text) (front : Text) :
    EndsInLine (front.length + count) (front ++ text) := by
  unfold EndsInLine
  rw [List.drop_length_add_append, List.take_length_add_append]
  refine h.imp_right fun ⟨c, hc, hbreak⟩ => ⟨c, ?_, hbreak⟩
  rw [List.getLast?_append, hc]
  rfl

end EndsInLine

/-- A block comment takes lines up to the line break of the last one. -/
theorem endsInLine_blockComment (text : Text) : EndsInLine (blockCommentLength text) text := by
  induction hlength : text.length using Nat.strongRecOn generalizing text with
  | ind n ih =>
    rw [blockCommentLength_eq]
    by_cases hbreak : '\n' ∈ text
    · obtain ⟨line, rest, rfl, hfree⟩ := List.eq_append_cons_of_mem hbreak
      rw [(firstLine_append_break hfree rest).1, (firstLine_append_break hfree rest).2]
      dsimp only
      split
      · rename_i hends
        refine .line (fun hnil => ?_) hfree _
        rw [hnil] at hends
        cases hends
      · have hrest := (ih rest.length (by simp [← hlength]; omega) rest rfl).behind (line ++ ['\n'])
        simpa using hrest
    · have hline := forall_ne_of_notMem hbreak
      rw [List.dropWhile_eq_nil_iff.mpr hline]
      dsimp only
      rw [Text.firstLine, List.takeWhile_eq_self_iff.mpr hline]
      exact .inl List.drop_length

namespace Heredoc

/-! ### Openers take no line break -/

/-- What is found takes no line break off the front of a text. -/
def IsInLine {α : Type} (found : Option (α × Nat)) (text : Text) : Prop :=
  ∀ x ∈ found, '\n' ∉ text.take x.2

/-- A run that line breaks end has none in it. -/
theorem break_notMem_takeWhile {p : Char → Bool} (hp : p '\n' = false) (text : Text) :
    '\n' ∉ text.takeWhile p := by
  intro hmem
  have hbreak := List.mem_takeWhile_imp hmem
  rw [hp] at hbreak
  cases hbreak

/-- A word of characters that do not break lines. -/
theorem break_notMem_take {p : Char → Bool} (hp : p '\n' = false) {first : Char}
    (hfirst : first ≠ '\n') (rest : Text) :
    '\n' ∉ (first :: rest).take ((rest.takeWhile p).length + 1) := by
  rw [List.take_succ_cons, ← List.prefix_iff_eq_take.mp (List.takeWhile_prefix p),
    List.mem_cons, not_or]
  exact ⟨Ne.symm hfirst, break_notMem_takeWhile hp rest⟩

/-- What is not found stays in its line. -/
theorem isInLine_none {α : Type} (text : Text) : IsInLine (none : Option (α × Nat)) text := by
  intro x hx
  cases hx

/-- A tag between quotes stays in its line. -/
theorem isInLine_quotedTag? (text : Text) : IsInLine (quotedTag? text) text := by
  obtain _ | ⟨quote, _ | ⟨first, rest⟩⟩ := text
  · exact isInLine_none _
  · exact isInLine_none _
  · rw [quotedTag?_cons_cons]
    split
    · rename_i hquoted
      simp only [Bool.and_eq_true, Bool.or_eq_true, beq_iff_eq] at hquoted
      obtain ⟨⟨hquote, hfirst⟩, hlast⟩ := hquoted
      obtain ⟨more, hmore⟩ := List.head?_eq_some_iff.mp hlast
      have hsplit := List.takeWhile_append_dropWhile (p := CharClass.isWord) (l := rest)
      have hword : ∀ c ∈ rest.takeWhile CharClass.isWord, c ≠ '\n' := by
        rintro c hc rfl
        cases List.mem_takeWhile_imp hc
      rintro x ⟨⟩ hmem
      generalize rest.takeWhile CharClass.isWord = word at *
      rw [hmore] at hsplit
      subst hsplit
      have htake : (quote :: first :: (word ++ quote :: more)).take (word.length + 3) =
          quote :: first :: (word ++ [quote]) := by
        simp [List.take_length_add_append]
      rw [htake] at hmem
      simp only [List.mem_cons, List.mem_append, List.not_mem_nil, or_false] at hmem
      rcases hmem with rfl | rfl | hmem | rfl
      · simp at hquote
      · cases hfirst
      · exact hword _ hmem rfl
      · simp at hquote
    · exact isInLine_none _

/-- So does one of capitals. -/
theorem isInLine_bareTag? (text : Text) : IsInLine (bareTag? text) text := by
  cases text with
  | nil => exact isInLine_none _
  | cons first rest =>
    rw [bareTag?_cons]
    split
    · rename_i hbare
      rintro x ⟨⟩
      refine break_notMem_take (by decide) ?_ rest
      rintro rfl
      cases hbare
    · exact isInLine_none _

/-- So does one of small letters. -/
theorem isInLine_smallTag? (text : Text) : IsInLine (smallTag? text) text := by
  cases text with
  | nil => exact isInLine_none _
  | cons first rest =>
    rw [smallTag?]
    split
    · rename_i hsmall
      rintro x ⟨⟩
      refine break_notMem_take (by decide) ?_ rest
      rintro rfl
      cases hsmall
    · exact isInLine_none _

/-- So does any tag. -/
theorem isInLine_tag? (flagged : Bool) (text : Text) : IsInLine (tag? flagged text) text := by
  rw [tag?]
  intro x hx
  rcases Option.or_eq_some_iff.mp hx with hquoted | ⟨-, hx⟩
  · exact isInLine_quotedTag? text x hquoted
  · rcases Option.or_eq_some_iff.mp hx with hbare | ⟨-, hsmall⟩
    · exact isInLine_bareTag? text x hbare
    · split at hsmall
      · exact isInLine_smallTag? text x hsmall
      · cases hsmall

/-- No line break is part of an opener. -/
theorem isInLine_opener? (previous : Option Char) (text : Text) :
    IsInLine (opener? previous text) text := by
  rw [opener?.eq_def]
  split
  · split
    · exact isInLine_none _
    · split <;>
      · intro x hx
        obtain ⟨⟨tag, n⟩, htag, rfl⟩ := Option.map_eq_some_iff.mp hx
        have hrest := isInLine_tag? _ _ _ htag
        simpa using hrest
  · exact isInLine_none _

end Heredoc

namespace Literal

/-! ### No line break closes a literal -/

/-- No literal between quotes is closed by a line break. -/
theorem closer_ne_break_of_ofQuote? {c : Char} {kind : Literal} (h : ofQuote? c = some kind) :
    kind.closer ≠ '\n' := by
  unfold ofQuote? at h
  split at h
  · rename_i hquote
    obtain rfl := Option.some.inj h
    rintro rfl
    cases hquote
  · split at h
    · rename_i hquote
      obtain rfl := Option.some.inj h
      rintro rfl
      cases hquote
    · cases h

/-- Neither is one between other delimiters. -/
theorem closer_ne_break_of_ofDelimiter? {interpolates : Bool} {c : Char} {kind : Literal}
    (h : ofDelimiter? interpolates c = some kind) : kind.closer ≠ '\n' := by
  unfold ofDelimiter? at h
  split at h <;> cases h <;> cases interpolates <;> decide

/-- Nor is a percent literal. -/
theorem closer_ne_break_of_percent? {text : Text} {kind : Literal} {length : Nat}
    (h : percent? text = some (kind, length)) : kind.closer ≠ '\n' := by
  unfold percent? at h
  split at h
  · split at h
    · obtain ⟨found, hfound, hpair⟩ := Option.map_eq_some_iff.mp h
      obtain ⟨delimiter, -, hdelimiter⟩ := Option.bind_eq_some_iff.mp hfound
      cases hpair
      exact closer_ne_break_of_ofDelimiter? hdelimiter
    · obtain ⟨found, hfound, hpair⟩ := Option.map_eq_some_iff.mp h
      cases hpair
      exact closer_ne_break_of_ofDelimiter? hfound
  · cases h

end Literal

namespace Scan

/-- So no literal that is opened is closed by one. -/
theorem closer_ne_break_of_literalAhead? {c : Char} {s : Scan} {kind : Literal} {length : Nat}
    (h : s.literalAhead? c = some (kind, length)) : kind.closer ≠ '\n' := by
  unfold literalAhead? at h
  split at h
  · rename_i hquote
    cases h
    exact Literal.closer_ne_break_of_ofQuote? hquote
  · split at h
    · exact Literal.closer_ne_break_of_percent? h
    · cases h

/-! ### What a step leaves pending -/

/-- No literal among the frames is closed by a line break. -/
def AreUnbroken (frames : List Frame) : Prop :=
  ∀ kind depth, Frame.literal kind depth ∈ frames → kind.closer ≠ '\n'

namespace AreUnbroken

variable {outer : List Frame} {frame : Frame}

/-- Such a literal may be opened. -/
theorem cons_literal (h : AreUnbroken outer) {kind : Literal} (hkind : kind.closer ≠ '\n')
    (depth : Nat) : AreUnbroken (.literal kind depth :: outer) := by
  intro kind' depth' hmem
  rcases List.mem_cons.mp hmem with heq | hmem
  · cases heq
    exact hkind
  · exact h kind' depth' hmem

/-- So may code. -/
theorem cons_code (h : AreUnbroken outer) (depth : Nat) : AreUnbroken (.code depth :: outer) := by
  intro kind' depth' hmem
  rcases List.mem_cons.mp hmem with heq | hmem
  · cases heq
  · exact h kind' depth' hmem

/-- What is open further out stays so. -/
theorem tail (h : AreUnbroken (frame :: outer)) : AreUnbroken outer :=
  fun kind depth hmem => h kind depth (List.mem_cons_of_mem _ hmem)

/-- Counting a brace changes nothing about it. -/
theorem countBrace (h : AreUnbroken outer) (c : Char) : AreUnbroken (countBrace c outer) :=
  countBrace_induction tail cons_code h c

end AreUnbroken

/-- What holds wherever a scan comes: no literal is closed by a line break, and at the start of a
line in top-level code, unless the text ends there, no heredoc is pending. -/
structure IsSettled (s : Scan) : Prop where
  unbroken : AreUnbroken s.frames
  clear : s.after ≠ [] → s.before.head?.all (· == '\n') = true → s.frames = [] → s.heredocs = []

variable {s : Scan} {m : Move}

/-- A move leaves nothing pending at the start of a line if it leaves nothing pending at all, does
not lead to top-level code or stops within a line. -/
theorem isSettled_on (hunbroken : AreUnbroken m.frames)
    (hclear : m.heredocs = [] ∨ m.frames ≠ [] ∨ EndsInLine (m.kept + m.blanked) s.after) :
    (m.on s).IsSettled := by
  have hafter : (m.on s).after = s.after.drop (m.kept + m.blanked) := by
    simp [Move.on, blank, keep, pass, List.drop_drop]
  have hbefore : (m.on s).before = (s.after.take (m.kept + m.blanked)).reverse ++ s.before := by
    simp [Move.on, blank, keep, pass, List.take_add]
  refine ⟨hunbroken, fun hmore hstart htop => ?_⟩
  rcases hclear with hnone | hframes | hend | ⟨c, hc, hbreak⟩
  · exact hnone
  · exact absurd htop hframes
  · exact absurd (hafter.trans hend) hmore
  · rw [hbefore, List.head?_append, List.head?_reverse, hc] at hstart
    exact absurd (by simpa using hstart) hbreak

/-- A step in a literal. -/
theorem isSettled_literalMove {kind : Literal} {depth : Nat} {outer : List Frame} {c : Char}
    {rest : Text} (hafter : s.after = c :: rest)
    (hframes : AreUnbroken (.literal kind depth :: outer)) :
    ((literalMove kind depth outer s.heredocs c rest.head?).on s).IsSettled := by
  have hkind : kind.closer ≠ '\n' := hframes kind depth List.mem_cons_self
  have hstay (depth : Nat) : AreUnbroken (.literal kind depth :: outer) :=
    hframes.tail.cons_literal hkind depth
  have hinside {frame : Frame} {outer : List Frame} : frame :: outer ≠ [] := List.cons_ne_nil _ _
  unfold literalMove
  split
  · exact isSettled_on (hstay depth) (.inr (.inl hinside))
  · split
    · exact isSettled_on ((hstay depth).cons_code 0) (.inr (.inl hinside))
    · split
      · exact isSettled_on (hstay (depth + 1)) (.inr (.inl hinside))
      · split
        · rename_i hclose
          cases depth with
          | zero =>
            refine isSettled_on hframes.tail (.inr (.inr ?_))
            rw [hafter]
            exact .one (hclose ▸ hkind) rest
          | succ depth => exact isSettled_on (hstay depth) (.inr (.inl hinside))
        · exact isSettled_on (hstay depth) (.inr (.inl hinside))

/-- A step in code. -/
theorem isSettled_codeMove {c : Char} {rest : Text} (hafter : s.after = c :: rest)
    (hframes : AreUnbroken s.frames) : ((s.codeMove c).on s).IsSettled := by
  unfold codeMove
  split
  · exact isSettled_on hframes (.inl rfl)
  rename_i hbreak
  split
  · refine isSettled_on hframes (.inr (.inr ?_))
    have hne : s.after.firstLine ≠ [] := by simp [hafter, Text.firstLine, hbreak]
    have hline := EndsInLine.line hne (Heredoc.break_notMem_takeWhile (by simp) s.after)
      (s.after.dropWhile (· ≠ '\n'))
    rwa [Text.firstLine, List.takeWhile_append_dropWhile, ← Nat.zero_add (List.length _)] at hline
  split
  · refine isSettled_on hframes (.inr (.inr ?_))
    rw [Nat.zero_add]
    exact endsInLine_blockComment s.after
  split
  · rename_i kind length hliteral
    exact isSettled_on (hframes.cons_literal (closer_ne_break_of_literalAhead? hliteral) 0)
      (.inr (.inl (List.cons_ne_nil _ _)))
  split
  · rename_i heredoc length hopener
    refine isSettled_on hframes (.inr (.inr (.of_unbroken ?_ ?_)))
    · have hpos := opener?_length_pos hopener
      rw [hafter]
      simp [List.take_eq_nil_iff]
      omega
    · exact Heredoc.isInLine_opener? _ _ _ hopener
  · refine isSettled_on (hframes.countBrace c) (.inr (.inr ?_))
    rw [hafter]
    exact .one hbreak rest

/-- A step keeps a scan settled. -/
theorem IsSettled.step (h : s.IsSettled) : s.step.IsSettled := by
  obtain ⟨before, masked, after, frames, heredocs⟩ := s
  rw [step_eq_on]
  cases after with
  | nil => exact h
  | cons c rest =>
    cases frames with
    | nil => exact isSettled_codeMove rfl h.unbroken
    | cons frame outer =>
      cases frame with
      | code depth => exact isSettled_codeMove rfl h.unbroken
      | literal kind depth => exact isSettled_literalMove rfl h.unbroken

/-- So do any number of steps. -/
theorem IsSettled.steps (h : s.IsSettled) (count : Nat) : (steps count s).IsSettled := by
  induction count generalizing s with
  | zero => exact h
  | succ count ih => exact ih h.step

/-- Wherever the scan of a text comes, it is settled. -/
theorem Reaches.isSettled {text : Text} (h : (start text).Reaches s) : s.IsSettled := by
  obtain ⟨count, rfl⟩ := h
  have hstart : (start text).IsSettled := ⟨nofun, fun _ _ _ => rfl⟩
  exact hstart.steps count

end Scan

/-- At the start of a line in top-level code no heredoc is pending. -/
theorem IsTopLevelAt.isClearAt {front back : Text} (hback : back ≠ [])
    (hline : front = [] ∨ front.getLast? = some '\n')
    (h : IsTopLevelAt (front ++ back) front.length) : IsClearAt (front ++ back) front.length := by
  obtain ⟨s, hreach, hoffset, htop⟩ := h
  obtain ⟨hbefore, hafter, -⟩ := hreach.passed_front hoffset
  refine ⟨s, hreach, hoffset, htop, hreach.isSettled.clear (hafter ▸ hback) ?_ ?_⟩
  · rw [hbefore, List.head?_reverse]
    rcases hline with rfl | hlast
    · rfl
    · rw [hlast]
      rfl
  · exact List.isEmpty_iff.mp htop

/-- What stands behind the start of a line that the scan comes to in top-level code, with no heredoc
pending, is masked as it would be alone. -/
theorem mask_eq_append_of_reaches {text before masked after : Text}
    (h : (Scan.start text).Reaches ⟨before, masked, after, [], []⟩)
    (hline : before.head? = some '\n') : mask text = masked.reverse ++ mask after := by
  obtain ⟨stretch, image, hadvance⟩ := h.exists_advances
  have hcount : after.length ≤ text.length := by
    have htext : text = stretch ++ after := hadvance.after
    rw [htext, List.length_append]
    exact Nat.le_add_left _ _
  obtain ⟨lines, rfl⟩ := List.head?_eq_some_iff.mp hline
  have hbehind : Scan.mk ('\n' :: lines) masked after [] [] =
      ((Scan.start after).onto masked).behind lines := rfl
  rw [mask_eq_of_reaches h, hbehind, Scan.steps_behind, Scan.steps_onto, mask_eq_steps hcount]
  exact List.reverse_append

end FactoryDowngrade
