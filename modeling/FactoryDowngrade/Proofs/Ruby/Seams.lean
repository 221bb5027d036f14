import FactoryDowngrade.Proofs.Ruby.ScanRuns

/-!
# Seams of a text

What a step of the masking scan does is told by the characters ahead up to a number sign or a line
break, unless the step passes that, and by the characters passed since the last line break. So a
run that stops at a seam takes the same steps whatever follows the seam, and behind a line break it
goes on the same way whatever stands before it. At the start of a line in top-level code both hold:
there the mask of a text is the mask of what comes before and the mask of what comes after.
-/

namespace FactoryDowngrade

/-- A number sign or a line break. -/
def IsSeam (c : Char) : Prop :=
  c = '#' ∨ c = '\n'

/-! ### Reading up to a seam -/

/-- What is read off the front of a text does not depend on what stands behind a seam. -/
def StopsAt {α : Type} (seam : Char) (read : Text → α) : Prop :=
  ∀ front back, read (front ++ seam :: back) = read (front ++ [seam])

/-- The first character in front of a seam does not depend on what is behind it. -/
theorem stopsAt_head? (seam : Char) : StopsAt seam (List.head? : Text → Option Char) := by
  intro front back
  cases front <;> rfl

section Runs

variable {p : Char → Bool} {seam : Char} (hp : p seam = false) (front back : Text)
include hp

/-- A run that a seam ends is that of the front. -/
theorem takeWhile_append_seam : (front ++ seam :: back).takeWhile p = front.takeWhile p := by
  induction front with
  | nil => simp [hp]
  | cons c front ih => simp only [List.cons_append, List.takeWhile_cons, ih]

/-- What is left behind such a run goes on over the seam. -/
theorem dropWhile_append_seam :
    (front ++ seam :: back).dropWhile p = front.dropWhile p ++ seam :: back := by
  induction front with
  | nil => simp [hp]
  | cons c front ih =>
    simp only [List.cons_append, List.dropWhile_cons, ih]
    split <;> rfl

end Runs

section Readers

variable {seam : Char}

/-- Whether a text begins with a word that does not hold the seam. -/
theorem stopsAt_startsWith {word : Text} (hword : seam ∉ word) :
    StopsAt seam fun text => text.startsWith word := by
  intro front back
  change word.isPrefixOf (front ++ seam :: back) = word.isPrefixOf (front ++ [seam])
  induction word generalizing front with
  | nil => rw [List.isPrefixOf_nil_left, List.isPrefixOf_nil_left]
  | cons c word ih =>
    rw [List.mem_cons, not_or] at hword
    cases front with
    | nil =>
      have hhead : (c == seam) = false := beq_false_of_ne (Ne.symm hword.1)
      simp [List.isPrefixOf, hhead]
    | cons d front =>
      rw [List.cons_append, List.cons_append, List.isPrefixOf, List.isPrefixOf, ih hword.2]

variable (hseam : IsSeam seam)
include hseam

/-- No word goes on over a seam. -/
theorem IsSeam.isWord : CharClass.isWord seam = false := by
  rcases hseam with rfl | rfl <;> decide

/-- A percent literal is opened alike, whatever is behind the seam. -/
theorem Literal.stopsAt_percent? : StopsAt seam percent? := by
  intro front back
  cases front with
  | nil => rcases hseam with rfl | rfl <;> rfl
  | cons c front =>
    by_cases hpercent : c = '%'
    · subst hpercent
      obtain _ | ⟨a, _ | ⟨b, front⟩⟩ := front
      · rcases hseam with rfl | rfl <;> rfl
      · rfl
      · rfl
    · rw [percent?_eq_none (by simpa), percent?_eq_none (by simpa)]

namespace Heredoc

/-- A tag between quotes is read alike. -/
theorem stopsAt_quotedTag? : StopsAt seam quotedTag? := by
  intro front back
  obtain _ | ⟨quote, _ | ⟨first, rest⟩⟩ := front
  · cases back with
    | nil => rfl
    | cons b back =>
      rw [List.nil_append, quotedTag?_cons_cons]
      rcases hseam with rfl | rfl <;> rfl
  · have hname : CharClass.isNameStart seam = false := by rcases hseam with rfl | rfl <;> decide
    rw [List.cons_append, List.cons_append, List.nil_append, List.nil_append, quotedTag?_cons_cons,
      quotedTag?_cons_cons, hname]
    simp
  · simp only [List.cons_append, quotedTag?_cons_cons, takeWhile_append_seam hseam.isWord,
      dropWhile_append_seam hseam.isWord, stopsAt_head? seam _ back]

/-- So is one of capitals. -/
theorem stopsAt_bareTag? : StopsAt seam bareTag? := by
  intro front back
  have htag : isTagChar seam = false := by rcases hseam with rfl | rfl <;> decide
  cases front with
  | nil =>
    rw [List.nil_append, bareTag?_cons]
    rcases hseam with rfl | rfl <;> rfl
  | cons first rest =>
    simp only [List.cons_append, bareTag?_cons, takeWhile_append_seam htag,
      dropWhile_append_seam htag, stopsAt_head? seam _ back]

/-- So is one of small letters. -/
theorem stopsAt_smallTag? : StopsAt seam smallTag? := by
  intro front back
  cases front with
  | nil => rcases hseam with rfl | rfl <;> rfl
  | cons first rest => simp only [List.cons_append, smallTag?, takeWhile_append_seam hseam.isWord]

/-- So is any tag. -/
theorem stopsAt_tag? (flagged : Bool) : StopsAt seam (tag? flagged) := by
  intro front back
  rw [tag?, tag?, stopsAt_quotedTag? hseam, stopsAt_bareTag? hseam, stopsAt_smallTag? hseam]

/-- So is the opener of a heredoc. -/
theorem stopsAt_opener? (previous : Option Char) : StopsAt seam (opener? previous) := by
  intro front back
  by_cases hangles : ∃ rest, front = '<' :: '<' :: rest
  · obtain ⟨rest, rfl⟩ := hangles
    cases rest with
    | nil =>
      have htag := stopsAt_tag? hseam false [] back
      simp only [List.nil_append] at htag
      simp only [List.cons_append, List.nil_append]
      have hflag : seam ≠ '-' ∧ seam ≠ '~' := by rcases hseam with rfl | rfl <;> decide
      rw [opener?_of_not_flag previous (by simpa using hflag.1) (by simpa using hflag.2),
        opener?_of_not_flag previous (by simpa using hflag.1) (by simpa using hflag.2), htag]
    | cons flag rest =>
      simp only [List.cons_append]
      by_cases hflag : flag = '-' ∨ flag = '~'
      · rw [opener?_of_flag previous hflag, opener?_of_flag previous hflag, stopsAt_tag? hseam]
      · rw [not_or] at hflag
        have htag := stopsAt_tag? hseam false (flag :: rest) back
        simp only [List.cons_append] at htag
        rw [opener?_of_not_flag previous (by simpa using hflag.1) (by simpa using hflag.2),
          opener?_of_not_flag previous (by simpa using hflag.1) (by simpa using hflag.2), htag]
  · have hnone (back : Text) : opener? previous (front ++ seam :: back) = none := by
      refine opener?_eq_none fun rest hrest => hangles ?_
      obtain _ | ⟨c, _ | ⟨d, front⟩⟩ := front
      · rcases hseam with rfl | rfl <;> cases hrest
      · rcases hseam with rfl | rfl <;> cases hrest
      · simp only [List.cons_append, List.cons.injEq] at hrest
        exact ⟨front, by rw [hrest.1, hrest.2.1]⟩
    rw [hnone, hnone]

end Heredoc

end Readers

/-! ### Two texts behind a front -/

/-- Two texts that no step in the front tells apart: both begin with a number sign, or the front
ends with a line break. -/
def MeetBehind (front w v : Text) : Prop :=
  front.getLast?.all (· == '\n') = true ∨ ∃ w' v', w = '#' :: w' ∧ v = '#' :: v'

namespace MeetBehind

variable {front w v : Text}

/-- What is left of the front behind its first characters is met as well. -/
theorem drop (h : MeetBehind front w v) (count : Nat) : MeetBehind (front.drop count) w v := by
  refine h.imp_left fun hlast => ?_
  rw [List.getLast?_drop]
  split
  · rfl
  · exact hlast

/-- A front that is not empty is read alike. -/
theorem read_eq (h : MeetBehind front w v) (hfront : front ≠ []) {α : Type} {read : Text → α}
    (hread : ∀ seam, IsSeam seam → StopsAt seam read) : read (front ++ w) = read (front ++ v) := by
  rcases h with hlast | ⟨w', v', rfl, rfl⟩
  · rcases List.eq_nil_or_concat front with rfl | ⟨init, last, rfl⟩
    · exact absurd rfl hfront
    · obtain rfl : last = '\n' := by simpa using hlast
      have hstops := hread '\n' (.inr rfl) init
      simp only [List.concat_eq_append, List.append_assoc, List.cons_append, List.nil_append]
      exact (hstops w).trans (hstops v).symm
  · have hstops := hread '#' (.inl rfl) front
    exact (hstops w').trans (hstops v').symm

/-- A first line that ends in the front is broken there. -/
theorem exists_line (h : MeetBehind front w v) (hfront : front ≠ [])
    (hle : (front ++ w).firstLine.length ≤ front.length) :
    ∃ line rest, front = line ++ '\n' :: rest ∧ '\n' ∉ line := by
  refine List.eq_append_cons_of_mem ?_
  rcases h with hlast | ⟨w', v', rfl, rfl⟩
  · rcases List.eq_nil_or_concat front with rfl | ⟨init, last, rfl⟩
    · exact absurd rfl hfront
    · obtain rfl : last = '\n' := by simpa using hlast
      simp
  · by_contra hnone
    have hhash : 0 < (Text.firstLine ('#' :: w')).length := by simp [Text.firstLine]
    rw [Text.firstLine_append hnone, List.length_append] at hle
    omega

end MeetBehind

/-! ### Lines up to a seam -/

/-- A stretch that ends in the front of a text is as long whatever follows the front, if what
follows is met there by what did. -/
def EndsBefore (length : Text → Nat) : Prop :=
  ∀ front w v, MeetBehind front w v → w ≠ [] → length (front ++ w) ≤ front.length →
    length (front ++ v) = length (front ++ w)

/-- A line ends at its line break. -/
theorem firstLine_append_break {line : Text} (h : '\n' ∉ line) (rest : Text) :
    (line ++ '\n' :: rest).firstLine = line ∧
      (line ++ '\n' :: rest).dropWhile (· ≠ '\n') = '\n' :: rest := by
  constructor
  · rw [Text.firstLine_append h]
    simp [Text.firstLine]
  · rw [List.dropWhile_append_of_pos (forall_ne_of_notMem h)]
    simp

section Lines

variable {lines : Text → Nat} {closes : Text → Bool} {extra : Nat}
  (hlines : ∀ text, lines text =
    match text.dropWhile (· ≠ '\n') with
    | [] => text.firstLine.length
    | _ :: rest => if closes text.firstLine then text.firstLine.length + extra
        else text.firstLine.length + 1 + lines rest)
include hlines

/-- The first line is one of the lines. -/
theorem length_firstLine_le_lines (text : Text) : text.firstLine.length ≤ lines text := by
  rw [hlines]
  split
  · exact Nat.le_refl _
  · split
    · exact Nat.le_add_right _ _
    · exact Nat.le_add_right_of_le (Nat.le_succ _)

/-- Lines through one that closes are a stretch of some length, if a line that closes is. -/
theorem lines_pos (hempty : closes [] = true → 0 < extra) {text : Text} (hne : text ≠ []) :
    0 < lines text := by
  obtain ⟨c, rest, rfl⟩ := List.exists_cons_of_ne_nil hne
  by_cases hbreak : c = '\n'
  · subst hbreak
    have hline : Text.firstLine ('\n' :: rest) = [] := by simp [Text.firstLine]
    have hrest : ('\n' :: rest).dropWhile (· ≠ '\n') = '\n' :: rest := by simp
    rw [hlines, hrest, hline]
    dsimp only
    split
    · rename_i hclosed
      exact Nat.add_pos_right _ (hempty hclosed)
    · exact Nat.add_pos_left (Nat.succ_pos _) _
  · have hline : 0 < (Text.firstLine (c :: rest)).length := by simp [Text.firstLine, hbreak]
    exact Nat.lt_of_lt_of_le hline (length_firstLine_le_lines hlines _)

/-- Lines through the first one that closes, if that one ends in the front. -/
theorem endsBefore_lines (hempty : closes [] = true → 0 < extra) : EndsBefore lines := by
  intro front w v hmeet hw hle
  induction hlength : front.length using Nat.strongRecOn generalizing front with
  | ind n ih =>
    have hfront : front ≠ [] := by
      rintro rfl
      exact absurd (lines_pos hlines hempty hw) (Nat.not_lt.mpr hle)
    obtain ⟨line, rest, rfl, hfree⟩ :=
      hmeet.exists_line hfront ((length_firstLine_le_lines hlines _).trans hle)
    have hshape (text : Text) : lines (line ++ '\n' :: rest ++ text) =
        if closes line then line.length + extra else line.length + 1 + lines (rest ++ text) := by
      rw [List.append_assoc, List.cons_append, hlines, (firstLine_append_break hfree _).1,
        (firstLine_append_break hfree _).2]
    rw [hshape] at hle
    rw [hshape, hshape]
    split
    · rfl
    · rename_i hopen
      rw [if_neg hopen, List.length_append, List.length_cons] at hle
      have hrest : (line ++ '\n' :: rest).drop (line.length + 1) = rest := by
        rw [List.drop_append, List.drop_eq_nil_of_le (by omega), List.nil_append,
          Nat.add_sub_cancel_left]
        rfl
      have hmeetRest := hmeet.drop (line.length + 1)
      rw [hrest] at hmeetRest
      rw [ih rest.length (by simp [← hlength]; omega) rest hmeetRest (by omega) rfl]

end Lines

/-- A block comment that ends within the lines does not look behind them. -/
theorem endsBefore_blockCommentLength : EndsBefore blockCommentLength :=
  endsBefore_lines blockCommentLength_eq (by decide)

namespace Heredoc

/-- Neither does the body of a heredoc. -/
theorem endsBefore_bodyLength (h : Heredoc) : EndsBefore h.bodyLength :=
  endsBefore_lines h.bodyLength_eq fun _ => Nat.one_pos

/-- Nor do bodies that follow one another. -/
theorem endsBefore_bodiesLength (hs : List Heredoc) : EndsBefore (bodiesLength hs) := by
  induction hs with
  | nil => exact fun _ _ _ _ _ _ => rfl
  | cons h hs ih =>
    intro front w v hmeet hw hle
    rw [bodiesLength] at hle
    have hbody : h.bodyLength (front ++ w) ≤ front.length := by omega
    have hdrop (text : Text) : (front ++ text).drop (h.bodyLength (front ++ w)) =
        front.drop (h.bodyLength (front ++ w)) ++ text :=
      List.drop_append_of_le_length hbody
    rw [hdrop] at hle
    rw [bodiesLength, bodiesLength, h.endsBefore_bodyLength front w v hmeet hw hbody, hdrop,
      hdrop, ih _ w v (hmeet.drop _) hw (by rw [List.length_drop]; omega)]

end Heredoc

namespace Scan

/-! ### Steps as moves -/

/-- The scan behind what a move passes. -/
def Move.on (m : Move) (s : Scan) : Scan :=
  { (s.keep m.kept).blank m.blanked with frames := m.frames, heredocs := m.heredocs }

/-- Where a step in a literal leads. -/
def literalMove (kind : Literal) (depth : Nat) (outer : List Frame) (heredocs : List Heredoc)
    (c : Char) (next? : Option Char) : Move :=
  if c = '\\' && next?.isSome then ⟨0, 2, .literal kind depth :: outer, heredocs⟩
  else if kind.interpolates && c = '#' && next? = some '\x7b' then
    ⟨2, 0, .code 0 :: .literal kind depth :: outer, heredocs⟩
  else if kind.opener = some c then ⟨0, 1, .literal kind (depth + 1) :: outer, heredocs⟩
  else if c = kind.closer then
    match depth with
    | 0 => ⟨1, 0, outer, heredocs⟩
    | depth + 1 => ⟨0, 1, .literal kind depth :: outer, heredocs⟩
  else ⟨0, 1, .literal kind depth :: outer, heredocs⟩

/-- Where a step in code leads. -/
def codeMove (c : Char) (s : Scan) : Move :=
  if c = '\n' then ⟨1, Heredoc.bodiesLength s.heredocs (s.after.drop 1), s.frames, []⟩
  else if c = '#' then ⟨0, s.after.firstLine.length, s.frames, s.heredocs⟩
  else if c = '=' && s.atLineStart && s.after.startsWith "=begin".toList then
    ⟨0, blockCommentLength s.after, s.frames, s.heredocs⟩
  else match s.literalAhead? c with
    | some (kind, length) => ⟨length, 0, .literal kind 0 :: s.frames, s.heredocs⟩
    | none =>
      match Heredoc.opener? s.previous s.after with
      | some (heredoc, length) => ⟨length, 0, s.frames, s.heredocs ++ [heredoc]⟩
      | none => ⟨1, 0, countBrace c s.frames, s.heredocs⟩

/-- Where a step leads. -/
def move (s : Scan) : Move :=
  match s.after with
  | [] => ⟨0, 0, s.frames, s.heredocs⟩
  | c :: rest =>
    match s.frames with
    | .literal kind depth :: outer => literalMove kind depth outer s.heredocs c rest.head?
    | _ => s.codeMove c

/-- A step in a literal is a move. -/
theorem stepLiteral_eq_on (before masked after : Text) (kind : Literal) (depth : Nat)
    (outer : List Frame) (heredocs : List Heredoc) (c : Char) (next? : Option Char) :
    stepLiteral kind depth outer c next? ⟨before, masked, after, .literal kind depth :: outer,
      heredocs⟩ = (literalMove kind depth outer heredocs c next?).on
        ⟨before, masked, after, .literal kind depth :: outer, heredocs⟩ := by
  unfold stepLiteral literalMove
  split
  · rfl
  · split
    · rfl
    · split
      · rfl
      · split
        · cases depth <;> rfl
        · rfl

/-- A step in code is a move. -/
theorem stepCode_eq_on (c : Char) (s : Scan) : s.stepCode c = (s.codeMove c).on s := by
  unfold stepCode codeMove
  split
  · rfl
  · split
    · rfl
    · split
      · rfl
      · cases s.literalAhead? c with
        | some opening => rfl
        | none => cases Heredoc.opener? s.previous s.after <;> rfl

/-- A step is its move. -/
theorem step_eq_on (s : Scan) : s.step = s.move.on s := by
  obtain ⟨before, masked, after, frames, heredocs⟩ := s
  unfold step move
  cases after with
  | nil => rfl
  | cons c rest =>
    cases frames with
    | nil => exact stepCode_eq_on ..
    | cons frame outer =>
      cases frame with
      | code depth => exact stepCode_eq_on ..
      | literal kind depth => exact stepLiteral_eq_on ..

/-! ### Behind a line break -/

/-- The scan with more lines in front of all that it passed. -/
def behind (lines : Text) (s : Scan) : Scan :=
  { s with before := s.before ++ '\n' :: lines }

/-- What was passed before a line break has no say in what comes behind it. -/
theorem codeMove_behind (lines : Text) (c : Char) (s : Scan) :
    (s.behind lines).codeMove c = s.codeMove c := by
  have hprevious : (s.behind lines).previous = s.previous.or (some '\n') := by
    have hbreak : CharClass.isSpaceOrTab '\n' = false := by decide
    unfold previous behind
    rw [List.dropWhile_append]
    cases hrest : s.before.dropWhile CharClass.isSpaceOrTab <;> simp [hbreak]
  have hliteral : (s.behind lines).literalAhead? c = s.literalAhead? c := by
    have hfollow : (s.behind lines).previous.all Literal.mayFollow =
        s.previous.all Literal.mayFollow := by
      rw [hprevious]
      cases s.previous <;> rfl
    unfold literalAhead?
    rw [hfollow]
    rfl
  have hopener : Heredoc.opener? (s.behind lines).previous (s.behind lines).after =
      Heredoc.opener? s.previous s.after := by
    have hoperand : (s.behind lines).previous.any Heredoc.isOperand =
        s.previous.any Heredoc.isOperand := by
      rw [hprevious]
      cases s.previous <;> rfl
    rw [Heredoc.opener?.eq_def, Heredoc.opener?.eq_def, hoperand]
    rfl
  have hstart : (s.behind lines).atLineStart = s.atLineStart := by
    unfold atLineStart behind
    cases s.before <;> rfl
  unfold codeMove
  rw [hliteral, hopener, hstart]
  rfl

/-- Lines that were passed before do not change the move. -/
theorem move_behind (lines : Text) (s : Scan) : (s.behind lines).move = s.move := by
  obtain ⟨before, masked, after, frames, heredocs⟩ := s
  cases after with
  | nil => rfl
  | cons c rest =>
    have hcode := codeMove_behind lines c ⟨before, masked, c :: rest, frames, heredocs⟩
    unfold move
    dsimp only [behind]
    split
    · rfl
    · exact hcode

/-- The same steps are taken behind a line break whatever stands before it. -/
theorem steps_behind (lines : Text) (count : Nat) (s : Scan) :
    steps count (s.behind lines) = (steps count s).behind lines := by
  have hstep (s : Scan) : (s.behind lines).step = s.step.behind lines := by
    rw [step_eq_on, step_eq_on, move_behind]
    simp [Move.on, keep, blank, pass, behind]
  induction count generalizing s with
  | zero => rfl
  | succ count ih => rw [steps, steps, hstep, ih]

/-- The scan with more in front of its mask. -/
def onto (shown : Text) (s : Scan) : Scan :=
  { s with masked := s.masked ++ shown }

/-- The same steps are taken whatever was masked before. -/
theorem steps_onto (shown : Text) (count : Nat) (s : Scan) :
    steps count (s.onto shown) = (steps count s).onto shown := by
  have hmove (s : Scan) : (s.onto shown).move = s.move := rfl
  have hstep (s : Scan) : (s.onto shown).step = s.step.onto shown := by
    rw [step_eq_on, step_eq_on, hmove]
    simp [Move.on, keep, blank, pass, onto]
  induction count generalizing s with
  | zero => rfl
  | succ count ih => rw [steps, steps, hstep, ih]

/-! ### In front of a seam -/

/-- The scan with more characters ahead. -/
def ahead (more : Text) (s : Scan) : Scan :=
  { s with after := s.after ++ more }

variable {s t : Scan} {w v : Text}

/-- More text ahead is so much longer. -/
theorem length_after_ahead (more : Text) (s : Scan) :
    (s.ahead more).after.length = s.after.length + more.length :=
  List.length_append

/-- A move leaves what it neither keeps nor blanks. -/
theorem length_after_on (m : Move) (s : Scan) :
    (m.on s).after.length = s.after.length - m.kept - m.blanked := by
  simp only [Move.on, blank, keep, pass, List.length_drop]

/-- A move that stays in front of the additional characters. -/
theorem on_ahead {m : Move} (h : m.kept + m.blanked ≤ s.after.length) (more : Text) :
    m.on (s.ahead more) = (m.on s).ahead more := by
  have htake : (s.after ++ more).take m.kept = s.after.take m.kept :=
    List.take_append_of_le_length (by omega)
  have hdrop : (s.after ++ more).drop m.kept = s.after.drop m.kept ++ more :=
    List.drop_append_of_le_length (by omega)
  have htakeMore : (s.after.drop m.kept ++ more).take m.blanked =
      (s.after.drop m.kept).take m.blanked :=
    List.take_append_of_le_length (by rw [List.length_drop]; omega)
  have hdropMore : (s.after.drop m.kept ++ more).drop m.blanked =
      (s.after.drop m.kept).drop m.blanked ++ more :=
    List.drop_append_of_le_length (by rw [List.length_drop]; omega)
  simp only [Move.on, keep, blank, pass, ahead, htake, hdrop, htakeMore, hdropMore]

/-- A step in code that stays in the front takes the same way whatever follows. -/
theorem codeMove_ahead {c : Char} {rest : Text} (hafter : s.after = c :: rest)
    (hmeet : MeetBehind s.after w v) (hw : w ≠ [])
    (hle : ((s.ahead w).codeMove c).kept + ((s.ahead w).codeMove c).blanked ≤ s.after.length) :
    (s.ahead v).codeMove c = (s.ahead w).codeMove c := by
  have hfront : s.after ≠ [] := by simp [hafter]
  have hliteral : (s.ahead v).literalAhead? c = (s.ahead w).literalAhead? c := by
    have hpercent := hmeet.read_eq hfront fun _ => Literal.stopsAt_percent?
    unfold literalAhead? ahead
    dsimp only
    rw [hpercent]
    rfl
  have hopener : Heredoc.opener? (s.ahead v).previous (s.ahead v).after =
      Heredoc.opener? (s.ahead w).previous (s.ahead w).after :=
    (hmeet.read_eq hfront fun _ hseam => Heredoc.stopsAt_opener? hseam s.previous).symm
  have hbegin : (s.ahead v).after.startsWith "=begin".toList =
      (s.ahead w).after.startsWith "=begin".toList := by
    refine (hmeet.read_eq hfront fun seam hseam => stopsAt_startsWith ?_).symm
    rcases hseam with rfl | rfl <;> decide
  have hstart : (s.ahead v).atLineStart = (s.ahead w).atLineStart := rfl
  unfold codeMove at hle ⊢
  rw [hliteral, hopener, hbegin, hstart]
  by_cases hbreak : c = '\n'
  · rw [if_pos hbreak] at hle
    rw [if_pos hbreak, if_pos hbreak]
    simp only [ahead, hafter, List.cons_append, List.drop_succ_cons, List.drop_zero,
      List.length_cons] at hle ⊢
    have hrest : MeetBehind rest w v := by
      have hdrop := hmeet.drop 1
      rwa [hafter] at hdrop
    rw [Heredoc.endsBefore_bodiesLength s.heredocs rest w v hrest hw (by omega)]
  rw [if_neg hbreak] at hle
  rw [if_neg hbreak, if_neg hbreak]
  by_cases hhash : c = '#'
  · rw [if_pos hhash] at hle
    rw [if_pos hhash, if_pos hhash]
    simp only [ahead, Nat.zero_add] at hle ⊢
    obtain ⟨line, more, hsplit, hfree⟩ := hmeet.exists_line hfront hle
    simp only [hsplit, List.append_assoc, List.cons_append, (firstLine_append_break hfree _).1]
  rw [if_neg hhash] at hle
  rw [if_neg hhash, if_neg hhash]
  split
  · rename_i hcomment
    rw [if_pos hcomment] at hle
    simp only [ahead, Nat.zero_add] at hle ⊢
    rw [endsBefore_blockCommentLength s.after w v hmeet hw hle]
  · rfl

/-- What follows a character in a literal has no say if the front ends there with a line break. -/
theorem literalMove_ahead {c : Char} {rest : Text} (hmeet : MeetBehind (c :: rest) w v)
    (kind : Literal) (depth : Nat) (outer : List Frame) (heredocs : List Heredoc) :
    literalMove kind depth outer heredocs c (rest ++ v).head? =
      literalMove kind depth outer heredocs c (rest ++ w).head? := by
  cases rest with
  | cons d rest => rfl
  | nil =>
    rcases hmeet with hlast | ⟨w', v', rfl, rfl⟩
    · obtain rfl : c = '\n' := by simpa using hlast
      simp [literalMove]
    · rfl

/-- A step that stays in the front takes the same way whatever follows. -/
theorem move_ahead (hafter : s.after ≠ []) (hmeet : MeetBehind s.after w v) (hw : w ≠ [])
    (hle : (s.ahead w).move.kept + (s.ahead w).move.blanked ≤ s.after.length) :
    (s.ahead v).move = (s.ahead w).move := by
  obtain ⟨before, masked, after, frames, heredocs⟩ := s
  obtain ⟨c, rest, rfl⟩ := List.exists_cons_of_ne_nil hafter
  cases frames with
  | nil => exact codeMove_ahead rfl hmeet hw hle
  | cons frame outer =>
    cases frame with
    | code depth => exact codeMove_ahead rfl hmeet hw hle
    | literal kind depth => exact literalMove_ahead hmeet kind depth outer heredocs

/-- A run that stops at a seam takes the same steps whatever follows that. -/
theorem Reaches.ahead (h : (s.ahead w).Reaches (t.ahead w)) (ht : t.after = []) (hw : w ≠ [])
    (hmeet : MeetBehind s.after w v) : (s.ahead v).Reaches (t.ahead v) := by
  obtain ⟨count, hcount⟩ := h
  induction count generalizing s with
  | zero =>
    have hsame : s.ahead w = t.ahead w := hcount
    obtain ⟨before, masked, after, frames, heredocs⟩ := s
    obtain ⟨before', masked', after', frames', heredocs'⟩ := t
    simp only [Scan.ahead, Scan.mk.injEq, List.append_cancel_right_eq] at hsame
    obtain ⟨rfl, rfl, rfl, rfl, rfl⟩ := hsame
    exact .refl _
  | succ count ih =>
    -- the first step leaves ahead what the whole run does, so it stays in the front
    obtain ⟨stretch, image, hadvance⟩ := Reaches.exists_advances ⟨count, hcount⟩
    have hlength := hadvance.length_after
    have hpos := List.length_pos_iff.mpr hw
    have hafter : s.after ≠ [] := by
      intro hend
      have hmore : (s.ahead w).after ≠ [] := by simp [Scan.ahead, hw]
      obtain ⟨passed, _, hpassed, hstep⟩ := progresses_step hmore
      have hshorter := hstep.length_after
      have hpassedPos := List.length_pos_iff.mpr hpassed
      rw [length_after_ahead, hend] at hshorter
      rw [length_after_ahead, ht] at hlength
      omega
    rw [steps, step_eq_on] at hcount
    rw [step_eq_on] at hlength
    have hle : (s.ahead w).move.kept + (s.ahead w).move.blanked ≤ s.after.length := by
      rw [length_after_on, length_after_ahead, length_after_ahead, ht] at hlength
      simp only [List.length_nil] at hlength
      omega
    rw [on_ahead hle] at hcount
    have hrest : MeetBehind ((s.ahead w).move.on s).after w v := by
      simp only [Move.on, keep, blank, pass, List.drop_drop]
      exact hmeet.drop _
    refine (Reaches.step ?_).trans (ih hrest hcount)
    rw [step_eq_on, move_ahead hafter hmeet hw hle, on_ahead hle]

end Scan

/-! ### The start of a line -/

/-- A run that comes to the end of a front has passed the front and masked it. -/
theorem Scan.Reaches.passed_front {front back : Text} {s : Scan}
    (h : (Scan.start (front ++ back)).Reaches s) (hoffset : s.before.length = front.length) :
    s.before = front.reverse ∧ s.after = back ∧ s.masked.length = front.length := by
  obtain ⟨stretch, image, hadvance⟩ := h.exists_advances
  have hbefore : s.before = stretch.reverse := hadvance.before.trans (List.append_nil _)
  have hmasked : s.masked = image.reverse := hadvance.masked.trans (List.append_nil _)
  have hsplit : front ++ back = stretch ++ s.after := hadvance.after
  have hlength : front.length = stretch.length := by
    rw [← hoffset, hbefore, List.length_reverse]
  obtain ⟨rfl, hback⟩ := List.append_inj hsplit hlength
  exact ⟨hbefore, hback.symm, by rw [hmasked, List.length_reverse, hadvance.image.length_eq]⟩

/-- The masking scan of a text comes to an offset in top-level code, with no heredoc pending. -/
def IsClearAt (text : Text) (offset : Nat) : Prop :=
  ∃ s, (Scan.start text).Reaches s ∧ s.before.length = offset ∧ s.atTopLevel = true ∧
    s.heredocs = []

/-- A scan that comes to the start of a line in top-level code with no heredoc pending has written
the mask of what it passed. -/
theorem exists_reaches_clear {front back : Text}
    (hline : front.getLast?.all (· == '\n') = true) (h : IsClearAt (front ++ back) front.length) :
    (Scan.start (front ++ back)).Reaches
      ⟨front.reverse, (mask front).reverse, back, [], []⟩ := by
  obtain ⟨⟨before, masked, after, frames, heredocs⟩, hreach, hoffset, hcode, hclear⟩ := h
  obtain ⟨hbefore, hback, hwritten⟩ := hreach.passed_front hoffset
  dsimp only at hbefore hback hwritten
  subst hbefore hback
  obtain rfl : frames = [] := List.isEmpty_iff.mp hcode
  obtain rfl : heredocs = [] := hclear
  have hfront : (Scan.start front).Reaches ⟨front.reverse, masked, [], [], []⟩ := by
    cases after with
    | nil => rwa [List.append_nil] at hreach
    | cons c back =>
      have hend := Scan.Reaches.ahead (s := Scan.start front)
        (t := ⟨front.reverse, masked, [], [], []⟩) (w := c :: back) (v := []) hreach rfl
        (List.cons_ne_nil c back) (.inl hline)
      simpa [Scan.ahead, Scan.start] using hend
  -- the front has as many characters as were masked, so nothing else is in its mask
  have hmask : mask front = masked.reverse := by
    obtain ⟨more, hmore⟩ := exists_mask_of_reaches hfront
    have hnone : more.length = 0 := by
      have hlength := congrArg List.length hmore
      rw [length_mask, List.length_append, List.length_reverse, hwritten] at hlength
      omega
    rw [hmore, List.eq_nil_of_length_eq_zero hnone, List.append_nil]
  rwa [hmask, List.reverse_reverse]

/-- More steps than there are characters write the mask as well. -/
theorem mask_eq_steps {text : Text} {count : Nat} (hcount : text.length ≤ count) :
    mask text = (Scan.steps count (Scan.start text)).masked.reverse := by
  obtain ⟨image, himage⟩ := Scan.exists_finishes (Scan.start text)
  rw [mask_eq_iff.mpr himage, himage.masked_steps hcount, Scan.start, List.append_nil,
    List.reverse_reverse]

/-- At the start of a line in top-level code with no heredoc pending a text falls into two that are
masked apart. -/
theorem mask_append {front back : Text} (hline : front = [] ∨ front.getLast? = some '\n')
    (h : IsClearAt (front ++ back) front.length) :
    mask (front ++ back) = mask front ++ mask back := by
  rcases List.eq_nil_or_concat front with rfl | ⟨init, last, rfl⟩
  · rfl
  · rw [List.concat_eq_append] at *
    obtain rfl : last = '\n' := by simpa using hline
    have hreach := exists_reaches_clear (by simp) h
    rw [List.reverse_concat] at hreach
    have hcount : back.length ≤ (init ++ ['\n'] ++ back).length := by
      rw [List.length_append]
      exact Nat.le_add_left _ _
    have hback := congrArg Scan.masked (Scan.steps_behind init.reverse
      (init ++ ['\n'] ++ back).length ((Scan.start back).onto (mask (init ++ ['\n'])).reverse))
    calc
      mask (init ++ ['\n'] ++ back)
        = (Scan.steps (init ++ ['\n'] ++ back).length
            (((Scan.start back).onto (mask (init ++ ['\n'])).reverse).behind
              init.reverse)).masked.reverse := mask_eq_of_reaches hreach
      _ = ((Scan.steps (init ++ ['\n'] ++ back).length (Scan.start back)).masked ++
            (mask (init ++ ['\n'])).reverse).reverse := by
        rw [hback, Scan.steps_onto]
        rfl
      _ = mask (init ++ ['\n']) ++ mask back := by
        rw [List.reverse_append, List.reverse_reverse, mask_eq_steps hcount]

/-- A heredoc that is closed before the line starts, and a percent literal and a block comment that
begin lines behind it, of which the comment is left open. -/
theorem mask_append_closedHeredoc :
    ("x = <<~A + 'q'\n  create\nA\n".toList = [] ∨
      "x = <<~A + 'q'\n  create\nA\n".toList.getLast? = some '\n') ∧
    IsClearAt ("x = <<~A + 'q'\n  create\nA\n".toList ++ "%w[b]\n=begin\nc".toList) 26 ∧
    mask ("x = <<~A + 'q'\n  create\nA\n".toList ++ "%w[b]\n=begin\nc".toList) =
      mask "x = <<~A + 'q'\n  create\nA\n".toList ++ mask "%w[b]\n=begin\nc".toList := by
  have hline : "x = <<~A + 'q'\n  create\nA\n".toList = [] ∨
      "x = <<~A + 'q'\n  create\nA\n".toList.getLast? = some '\n' := by decide
  have hclear : IsClearAt
      ("x = <<~A + 'q'\n  create\nA\n".toList ++ "%w[b]\n=begin\nc".toList) 26 :=
    ⟨Scan.steps 12 (Scan.start _), ⟨12, rfl⟩, by decide +kernel, by decide +kernel,
      by decide⟩
  exact ⟨hline, hclear, mask_append hline hclear⟩

end FactoryDowngrade
