import FactoryDowngrade.Proofs.Ruby.BalancedCode

/-!
# Literals in each other

A phrase is a stretch of code, or of the body of a literal. Code holds brace groups, comments and
literals, and the body of a literal holds escapes, nested brackets of its own kind and, if it
interpolates, code again. Spelled out and scanned, a phrase leaves the scan in the frames in which
it found it, however deep literals and interpolations stand in each other: so its mask blanks the
comments and the bodies of the literals and shows everything else.
-/

namespace FactoryDowngrade

open Scan

/-! ### How literals begin and end -/

/-- The delimiters that a percent literal may stand between. -/
inductive Delimiter where
  | round
  | square
  | curly
  | angle
  | bar
  | bang
  | slash
  | caret
deriving DecidableEq, Repr

namespace Delimiter

/-- The delimiter in front. -/
def opener : Delimiter → Char
  | round => '('
  | square => '['
  | curly => '\x7b'
  | angle => '<'
  | bar => '|'
  | bang => '!'
  | slash => '/'
  | caret => '^'

/-- The delimiter at the end. Only brackets have two sides. -/
def closer : Delimiter → Char
  | round => ')'
  | square => ']'
  | curly => '\x7d'
  | angle => '>'
  | d => d.opener

/-- Whether the delimiters are brackets, which nest. -/
def nests (d : Delimiter) : Bool :=
  d.opener != d.closer

/-- The bracket that nests between the delimiters. -/
def bracket? (d : Delimiter) : Option Char :=
  if d.nests then some d.opener else none

/-- A delimiter closes with no sign that has a meaning inside. -/
theorem closer_ne (d : Delimiter) :
    d.closer ≠ '\\' ∧ d.closer ≠ '#' ∧ d.bracket? ≠ some d.closer := by
  cases d <;> decide

/-- Nor does it open with one. -/
theorem opener_ne (d : Delimiter) : d.opener ≠ '\\' ∧ d.opener ≠ '#' := by
  cases d <;> decide

end Delimiter

/-- The letters that tell the kind of a percent literal. -/
inductive KindLetter where
  | q
  | w
  | i
  | s
  | Q
  | W
  | I
  | r
deriving DecidableEq, Repr

namespace KindLetter

/-- The letter itself. -/
def char : KindLetter → Char
  | q => 'q'
  | w => 'w'
  | i => 'i'
  | s => 's'
  | Q => 'Q'
  | W => 'W'
  | I => 'I'
  | r => 'r'

/-- Whether literals of the kind hold code. -/
def interpolates : KindLetter → Bool
  | q | w | i | s => false
  | Q | W | I | r => true

end KindLetter

/-- How a literal begins: with a quote, or with a percent sign, a kind letter or none, and a
delimiter. -/
inductive Opening where
  | quote (q : Quote)
  | percent (letter : Option KindLetter) (delimiter : Delimiter)
deriving DecidableEq, Repr

namespace Opening

/-- The characters of an opening. -/
def spelling : Opening → Text
  | quote q => [q.char]
  | percent letter delimiter => '%' :: (letter.toList.map KindLetter.char ++ [delimiter.opener])

/-- The character that ends the literal. -/
def closer : Opening → Char
  | quote q => q.char
  | percent _ delimiter => delimiter.closer

/-- The bracket that the literal nests. -/
def bracket? : Opening → Option Char
  | quote _ => none
  | percent _ delimiter => delimiter.bracket?

/-- Whether the literal holds code. Of the kind letters the large ones and `r` let it. -/
def interpolates : Opening → Bool
  | quote q => q != .single
  | percent letter _ => letter.all KindLetter.interpolates

/-- The literal that is opened. -/
def literal (o : Opening) : Literal :=
  ⟨o.closer, o.bracket?, o.interpolates⟩

/-- Whether the opening may stand behind a character: with a percent sign only right behind an
opening bracket or a comma. -/
def mayFollow (previous : Option Char) : Opening → Bool
  | quote _ => true
  | percent _ _ => previous.any ['(', '[', '\x7b', ','].contains

/-- Whether the opening opens a literal behind a text. What stands before a percent sign, spaces and
tabs aside, tells whether it does. -/
def opensBehind (before : Text) : Opening → Bool
  | quote _ => true
  | percent _ _ => (before.dropWhile CharClass.isSpaceOrTab).head?.all Literal.mayFollow

/-- Characters that stand for themselves in the body of the literal. -/
def isPlain (o : Opening) (c : Char) : Bool :=
  c != '\\' && c != o.closer && o.bracket? != some c && !(o.interpolates && c == '#')

/-- A literal closes with no sign that has a meaning inside. -/
theorem closer_ne (o : Opening) :
    o.closer ≠ '\\' ∧ o.closer ≠ '#' ∧ o.bracket? ≠ some o.closer := by
  cases o with
  | quote q => cases q <;> decide
  | percent _ delimiter => exact delimiter.closer_ne

/-- No line starts right behind an opening. -/
theorem head?_reverse_spelling (o : Opening) (before : Text) :
    (o.spelling.reverse ++ before).head?.all (· == '\n') = false := by
  cases o with
  | quote q => cases q <;> rfl
  | percent letter delimiter => cases delimiter <;> simp [spelling, Delimiter.opener]

/-- A percent sign with what follows it is read as the opening that it spells. -/
theorem percent?_spelling (letter : Option KindLetter) (delimiter : Delimiter) (rest : Text) :
    Literal.percent? ((percent letter delimiter).spelling ++ rest) =
      some ((percent letter delimiter).literal, (percent letter delimiter).spelling.length) := by
  obtain _ | letter := letter
  · cases delimiter <;> rfl
  · cases letter <;> cases delimiter <;> rfl

end Opening

/-! ### Phrases -/

/-- A stretch of code, or of the body of a literal with some opening. -/
inductive Phrase : Option Opening → Type where
  | nil {mode : Option Opening} : Phrase mode
  | plain (stretch : Text) (rest : Phrase none) : Phrase none
  | group (body rest : Phrase none) : Phrase none
  | comment (body : Text) (rest : Phrase none) : Phrase none
  | literal (o : Opening) (body : Phrase (some o)) (rest : Phrase none) : Phrase none
  | inside {o : Opening} (stretch : Text) (rest : Phrase (some o)) : Phrase (some o)
  | escape {o : Opening} (c : Char) (rest : Phrase (some o)) : Phrase (some o)
  | nested {letter : Option KindLetter} {delimiter : Delimiter}
      (body rest : Phrase (some (.percent letter delimiter))) :
      Phrase (some (.percent letter delimiter))
  | interpolation {o : Opening} (code : Phrase none) (rest : Phrase (some o)) : Phrase (some o)

namespace Phrase

/-- Characters of code that are no braces and open neither a literal nor a heredoc nor a comment. -/
def isPlain (c : Char) : Bool :=
  !(['"', '\'', '\x60', '#', '%', '<', '\x7b', '\x7d'].contains c)

/-- The text of a phrase. -/
def spelling {mode : Option Opening} : Phrase mode → Text
  | nil => []
  | plain stretch rest => stretch ++ rest.spelling
  | group body rest => '\x7b' :: (body.spelling ++ '\x7d' :: rest.spelling)
  | comment body rest => '#' :: (body ++ '\n' :: rest.spelling)
  | literal o body rest => o.spelling ++ (body.spelling ++ o.closer :: rest.spelling)
  | inside stretch rest => stretch ++ rest.spelling
  | escape c rest => '\\' :: c :: rest.spelling
  | @nested _ delimiter body rest =>
    delimiter.opener :: (body.spelling ++ delimiter.closer :: rest.spelling)
  | interpolation code rest => '#' :: '\x7b' :: (code.spelling ++ '\x7d' :: rest.spelling)

/-- The text of a phrase with its comments and the bodies of its literals blanked. -/
def shown {mode : Option Opening} : Phrase mode → Text
  | nil => []
  | plain stretch rest => stretch ++ rest.shown
  | group body rest => '\x7b' :: (body.shown ++ '\x7d' :: rest.shown)
  | comment body rest => ' ' :: (body.map blankOf ++ '\n' :: rest.shown)
  | literal o body rest => o.spelling ++ (body.shown ++ o.closer :: rest.shown)
  | inside stretch rest => stretch.map blankOf ++ rest.shown
  | escape c rest => ' ' :: blankOf c :: rest.shown
  | nested body rest => ' ' :: (body.shown ++ ' ' :: rest.shown)
  | interpolation code rest => '#' :: '\x7b' :: (code.shown ++ '\x7d' :: rest.shown)

/-- Whether each part of a phrase, which stands behind the given character, may stand in its place:
plain characters are plain, comments have one line, percent signs open literals where they may,
brackets nest where they are delimiters, and code stands where the literal interpolates. -/
def isProper {mode : Option Opening} (previous : Option Char) : Phrase mode → Bool
  | nil => true
  | plain stretch rest => stretch.all isPlain && rest.isProper (stretch.getLast?.or previous)
  | group body rest => body.isProper (some '\x7b') && rest.isProper (some '\x7d')
  | comment body rest => !body.contains '\n' && rest.isProper (some '\n')
  | literal o body rest =>
    o.mayFollow previous && body.isProper none && rest.isProper (some o.closer)
  | @inside o stretch rest => stretch.all o.isPlain && rest.isProper none
  | escape _ rest => rest.isProper none
  | @nested _ delimiter body rest =>
    delimiter.nests && body.isProper none && rest.isProper none
  | @interpolation o code rest =>
    o.interpolates && code.isProper (some '\x7b') && rest.isProper none

end Phrase

/-! ### Scans through phrases -/

namespace Scan

/-- A run over a text that stands between others leads from some frames to others and writes an
image of the text, with no heredoc pending. -/
def Crosses (first last : List Frame) (before text image rest : Text) : Prop :=
  ∀ masked, Reaches ⟨before, masked, text ++ rest, first, []⟩
    ⟨text.reverse ++ before, image.reverse ++ masked, rest, last, []⟩

variable {first middle last frames outer : List Frame} {before u v i j rest : Text} {c : Char}
  {o : Opening} {depth : Nat}

namespace Crosses

/-- An empty text leads from the frames to themselves. -/
theorem nil (frames : List Frame) (before rest : Text) : Crosses frames frames before [] [] rest :=
  fun _ => .refl _

/-- Runs follow one another. -/
theorem append (hu : Crosses first middle before u i (v ++ rest))
    (hv : Crosses middle last (u.reverse ++ before) v j rest) :
    Crosses first last before (u ++ v) (i ++ j) rest := by
  intro masked
  simpa using (hu masked).trans (hv (i.reverse ++ masked))

/-- A run begins with a step over one character. -/
theorem cons {x : Char} (hc : Crosses first middle before [c] [x] (u ++ rest))
    (hu : Crosses middle last (c :: before) u i rest) :
    Crosses first last before (c :: u) (x :: i) rest :=
  hc.append hu

/-- Characters that are all passed in the same frames and blanked. -/
theorem of_blanks {stretch : Text} (h : ∀ x ∈ stretch, ∀ before rest,
    Crosses frames frames before [x] [blankOf x] rest) (before rest : Text) :
    Crosses frames frames before stretch (stretch.map blankOf) rest := by
  induction stretch generalizing before with
  | nil => exact nil frames before rest
  | cons x stretch ih =>
    exact (h x List.mem_cons_self before _).cons
      (ih (fun y hy => h y (List.mem_cons_of_mem _ hy)) _)

end Crosses

/-! ### Steps in code -/

/-- A plain character of code is shown. -/
theorem crosses_plain (hcode : IsCode frames) (hc : Phrase.isPlain c = true)
    (hline : IsLineFree before [c] rest) : Crosses frames frames before [c] [c] rest := by
  intro masked
  have hnot : c ∉ ['"', '\'', '\x60', '#', '%', '<'] ++ ['\x7b', '\x7d'] := by
    simpa [Phrase.isPlain] using hc
  simp only [List.mem_append, List.mem_cons, List.not_mem_nil, or_false, not_or] at hnot
  obtain ⟨hnot, hopen, hclose⟩ := hnot
  refine .step ?_
  by_cases hbreak : c = '\n'
  · subst hbreak
    exact step_of_lineBreak hcode
  · have hstep : (Scan.mk before masked (c :: rest) frames []).step =
        ⟨c :: before, c :: masked, rest, countBrace c frames, []⟩ :=
      step_of_isShown hcode (isShown_of_notMem hbreak (by simpa using hnot)) hline.head
    rwa [countBrace_eq hopen hclose] at hstep

/-- Plain characters of code are shown. -/
theorem crosses_stretch (hcode : IsCode frames) {stretch : Text}
    (hplain : ∀ x ∈ stretch, Phrase.isPlain x = true) (hline : IsLineFree before stretch rest) :
    Crosses frames frames before stretch stretch rest := by
  induction stretch generalizing before with
  | nil => exact .nil frames before rest
  | cons x stretch ih =>
    have hline' : IsLineFree before ([x] ++ stretch) rest := hline
    exact (crosses_plain hcode (hplain x List.mem_cons_self) hline'.left).cons
      (ih (fun y hy => hplain y (List.mem_cons_of_mem _ hy)) hline'.right)

/-- A comment is blanked. -/
theorem crosses_comment (hcode : IsCode frames) {body : Text} (hbody : '\n' ∉ body) :
    Crosses frames frames before ('#' :: (body ++ ['\n'])) (' ' :: (body.map blankOf ++ ['\n']))
      rest := by
  intro masked
  have hblank : Reaches ⟨before, masked, '#' :: (body ++ '\n' :: rest), frames, []⟩ _ :=
    .step (step_of_comment hcode hbody)
  simpa [blankOf] using hblank.trans (.step (step_of_lineBreak hcode))

/-- A bracket is shown. -/
theorem crosses_bracket (hcode : IsCode frames) (hc : BracketRole.ofChar c ≠ .plain) :
    Crosses frames (countBrace c frames) before [c] [c] rest :=
  fun _ => .step (Code.Writes.step_of_bracket hcode hc)

/-- An opening is shown where it opens a literal: a quote anywhere, a percent sign where a literal
may follow what stands before it. -/
theorem crosses_opening_of_previous (hcode : IsCode frames) (ho : o.opensBehind before = true) :
    Crosses frames (.literal o.literal 0 :: frames) before o.spelling o.spelling rest := by
  intro masked
  refine .step ?_
  cases o with
  | quote q =>
    have hstep : (Scan.mk before masked (q.char :: rest) frames []).step = _ :=
      step_of_quote hcode q.ofQuote?_char
    rw [Opening.spelling, List.singleton_append, hstep]
    cases q <;> rfl
  | percent letter delimiter =>
    have hahead : (Scan.mk before masked
        ((Opening.percent letter delimiter).spelling ++ rest) frames []).literalAhead? '%' =
        some ((Opening.percent letter delimiter).literal,
          (Opening.percent letter delimiter).spelling.length) := by
      have hfollow : (Scan.mk before masked
          ((Opening.percent letter delimiter).spelling ++ rest) frames []).previous.all
            Literal.mayFollow = true := ho
      rw [literalAhead?, if_pos hfollow, Opening.percent?_spelling]
      rfl
    have hafter : (Scan.mk before masked
        ((Opening.percent letter delimiter).spelling ++ rest) frames []).after =
        '%' :: (letter.toList.map KindLetter.char ++ [delimiter.opener] ++ rest) := by
      simp [Opening.spelling]
    rw [step_of_isCode hafter hcode, stepCode.eq_def, if_neg (by decide), if_neg (by decide),
      if_neg (by simp), hahead]
    simp only [push, keep, pass, List.take_left, List.drop_left, List.map_id]

/-- An opening is shown behind a character that it may follow. -/
theorem crosses_opening (hcode : IsCode frames) {previous : Option Char}
    (hprevious : ∀ x ∈ previous, before.head? = some x) (ho : o.mayFollow previous = true) :
    Crosses frames (.literal o.literal 0 :: frames) before o.spelling o.spelling rest := by
  refine crosses_opening_of_previous hcode ?_
  cases o with
  | quote q => rfl
  | percent letter delimiter =>
    obtain _ | x := previous
    · cases ho
    have hlead : CharClass.isSpaceOrTab x = false ∧ Literal.mayFollow x = true := by
      have hall : ∀ y ∈ ['(', '[', '\x7b', ','],
          CharClass.isSpaceOrTab y = false ∧ Literal.mayFollow y = true := by decide
      exact hall x (List.contains_iff_mem.mp ho)
    cases before with
    | nil => cases hprevious x rfl
    | cons y front =>
      obtain rfl := Option.some.inj (hprevious x rfl)
      simp [Opening.opensBehind, hlead.1, hlead.2]

/-! ### Steps in a literal -/

/-- A plain character of a literal is blanked. -/
theorem crosses_inside (hc : o.isPlain c = true) :
    Crosses (.literal o.literal depth :: outer) (.literal o.literal depth :: outer) before [c]
      [blankOf c] rest := by
  intro masked
  simp only [Opening.isPlain, Bool.and_eq_true, bne_iff_ne, ne_eq, Bool.not_eq_true',
    Bool.and_eq_false_iff, beq_eq_false_iff_ne] at hc
  obtain ⟨⟨⟨hescape, hclose⟩, hbracket⟩, hhash⟩ := hc
  have hcode : ¬((o.literal.interpolates && c = '#' && rest.head? = some '\x7b') = true) := by
    rintro hall
    simp only [Bool.and_eq_true, decide_eq_true_eq] at hall
    rcases hhash with hplain | hother
    · rw [show o.interpolates = true from hall.1.1] at hplain
      cases hplain
    · exact hother hall.1.2
  refine .step ?_
  change stepLiteral o.literal depth outer c rest.head? _ = _
  rw [stepLiteral.eq_def, if_neg (by simp [hescape]), if_neg hcode,
    if_neg (show ¬o.literal.opener = some c from hbracket),
    if_neg (show ¬c = o.literal.closer from hclose)]
  rfl

/-- A backslash takes the next character with it. -/
theorem crosses_escape : Crosses (.literal o.literal depth :: outer)
    (.literal o.literal depth :: outer) before ['\\', c] [' ', blankOf c] rest :=
  fun _ => .step rfl

/-- What ends a literal is shown. -/
theorem crosses_closer : Crosses (.literal o.literal 0 :: outer) outer before [o.closer] [o.closer]
    rest := by
  intro masked
  obtain ⟨hescape, hhash, hbracket⟩ := o.closer_ne
  refine .step ?_
  change stepLiteral o.literal 0 outer o.closer rest.head? _ = _
  rw [stepLiteral.eq_def, if_neg (by simp [hescape]), if_neg (by simp [hhash]),
    if_neg (show ¬o.literal.opener = some o.closer from hbracket),
    if_pos (show o.closer = o.literal.closer from rfl)]
  rfl

/-- A bracket that a literal nests is blanked and counted. -/
theorem crosses_nestedOpener {letter : Option KindLetter} {delimiter : Delimiter}
    (hnests : delimiter.nests = true) :
    Crosses (.literal (Opening.percent letter delimiter).literal depth :: outer)
      (.literal (Opening.percent letter delimiter).literal (depth + 1) :: outer) before
      [delimiter.opener] [' '] rest := by
  intro masked
  have hbracket : (Opening.percent letter delimiter).literal.opener = some delimiter.opener :=
    if_pos hnests
  obtain ⟨hescape, hhash⟩ := delimiter.opener_ne
  refine .step ?_
  change stepLiteral _ depth outer delimiter.opener rest.head? _ = _
  rw [stepLiteral.eq_def, if_neg (by simp [hescape]), if_neg (by simp [hhash]), if_pos hbracket]
  cases delimiter <;> rfl

/-- Its other side is blanked and counted back. -/
theorem crosses_nestedCloser {letter : Option KindLetter} {delimiter : Delimiter} :
    Crosses (.literal (Opening.percent letter delimiter).literal (depth + 1) :: outer)
      (.literal (Opening.percent letter delimiter).literal depth :: outer) before
      [delimiter.closer] [' '] rest := by
  intro masked
  obtain ⟨hescape, hhash, hbracket⟩ := delimiter.closer_ne
  refine .step ?_
  change stepLiteral _ (depth + 1) outer delimiter.closer rest.head? _ = _
  rw [stepLiteral.eq_def, if_neg (by simp [hescape]), if_neg (by simp [hhash]),
    if_neg (show ¬(Opening.percent letter delimiter).literal.opener = some delimiter.closer
      from hbracket),
    if_pos (show delimiter.closer = (Opening.percent letter delimiter).literal.closer from rfl)]
  cases delimiter <;> rfl

/-- What begins an interpolation is shown. -/
theorem crosses_interpolation (ho : o.interpolates = true) :
    Crosses (.literal o.literal depth :: outer) (.code 0 :: .literal o.literal depth :: outer)
      before ['#', '\x7b'] ['#', '\x7b'] rest := by
  intro masked
  have hcodes : o.literal.interpolates = true := ho
  refine .step ?_
  change stepLiteral o.literal depth outer '#' (some '\x7b') _ = _
  rw [stepLiteral.eq_def, if_neg (by simp), if_pos (by simp [hcodes])]
  rfl

end Scan

namespace Phrase

/-- The frames in which a phrase is scanned. -/
def Stands : Option Opening → List Frame → Prop
  | none, frames => IsCode frames
  | some o, frames => ∃ depth outer, frames = .literal o.literal depth :: outer

/-- The character that was read is in front of what follows. -/
theorem head?_of_mem_some (c : Char) (before : Text) : ∀ x ∈ some c, (c :: before).head? = some x :=
  fun _ hx => hx

/-- A scan through a phrase comes out in the frames in which it came in. -/
theorem crosses {mode : Option Opening} (t : Phrase mode) {previous : Option Char}
    {frames : List Frame} {before rest : Text} (hproper : t.isProper previous = true)
    (hframes : Stands mode frames) (hprevious : ∀ x ∈ previous, before.head? = some x)
    (hline : IsLineFree before t.spelling rest) :
    Crosses frames frames before t.spelling t.shown rest := by
  induction t generalizing previous frames before rest with
  | nil => exact .nil frames before rest
  | plain stretch more ih =>
    simp only [isProper, Bool.and_eq_true, List.all_eq_true] at hproper
    refine (crosses_stretch hframes hproper.1 hline.left).append
      (ih hproper.2 hframes (fun x hx => ?_) hline.right)
    rw [List.head?_append, List.head?_reverse]
    cases hlast : stretch.getLast? with
    | none => simpa [hlast] using hprevious x (by simpa [hlast] using hx)
    | some y => simpa [hlast] using hx
  | group body more ihbody ihmore =>
    simp only [isProper, Bool.and_eq_true] at hproper
    have hline' : IsLineFree before
        (['\x7b'] ++ (body.spelling ++ (['\x7d'] ++ more.spelling))) rest := hline
    obtain ⟨hinner, hback⟩ := Code.Writes.countBrace_closer hframes .curly
    have hcloser (before rest : Text) : Crosses (countBrace '\x7b' frames)
        (countBrace '\x7d' (countBrace '\x7b' frames)) before ['\x7d'] ['\x7d'] rest :=
      crosses_bracket hinner (by decide)
    rw [show countBrace '\x7d' (countBrace '\x7b' frames) = frames from hback] at hcloser
    exact (crosses_bracket hframes (by decide)).cons
      ((ihbody hproper.1 hinner (head?_of_mem_some _ _) hline'.right.left).append
        ((hcloser _ _).cons
          (ihmore hproper.2 hframes (head?_of_mem_some _ _) hline'.right.right.right)))
  | comment body more ih =>
    simp only [isProper, Bool.and_eq_true, Bool.not_eq_true', List.contains_eq_mem,
      decide_eq_false_iff_not] at hproper
    have hsplit (c : Char) (u v : Text) : c :: (u ++ '\n' :: v) = c :: (u ++ ['\n']) ++ v := by
      simp
    rw [spelling, hsplit] at hline
    rw [spelling, shown, hsplit '#' _ more.spelling, hsplit ' ' _ more.shown]
    exact (crosses_comment hframes hproper.1).append
      (ih hproper.2 hframes (by simp) hline.right)
  | literal o body more ihbody ihmore =>
    simp only [isProper, Bool.and_eq_true] at hproper
    have hline' : IsLineFree before
        (o.spelling ++ (body.spelling ++ ([o.closer] ++ more.spelling))) rest := hline
    exact (crosses_opening hframes hprevious hproper.1.1).append
      ((ihbody hproper.1.2 ⟨0, frames, rfl⟩ (by simp) hline'.right.left).append
        (crosses_closer.cons
          (ihmore hproper.2 hframes (head?_of_mem_some _ _) hline'.right.right.right)))
  | inside stretch more ih =>
    simp only [isProper, Bool.and_eq_true, List.all_eq_true] at hproper
    obtain ⟨depth, outer, rfl⟩ := hframes
    exact (Crosses.of_blanks (fun x hx _ _ => crosses_inside (hproper.1 x hx)) _ _).append
      (ih hproper.2 ⟨depth, outer, rfl⟩ (by simp) hline.right)
  | escape c more ih =>
    obtain ⟨depth, outer, rfl⟩ := hframes
    have hline' : IsLineFree before (['\\', c] ++ more.spelling) rest := hline
    exact crosses_escape.append (ih hproper ⟨depth, outer, rfl⟩ (by simp) hline'.right)
  | @nested letter delimiter body more ihbody ihmore =>
    simp only [isProper, Bool.and_eq_true] at hproper
    obtain ⟨depth, outer, rfl⟩ := hframes
    have hline' : IsLineFree before ([delimiter.opener] ++ (body.spelling ++
        ([delimiter.closer] ++ more.spelling))) rest := hline
    exact (crosses_nestedOpener hproper.1.1).cons
      ((ihbody hproper.1.2 ⟨depth + 1, outer, rfl⟩ (by simp) hline'.right.left).append
        (crosses_nestedCloser.cons
          (ihmore hproper.2 ⟨depth, outer, rfl⟩ (by simp) hline'.right.right.right)))
  | @interpolation o code more ihcode ihmore =>
    simp only [isProper, Bool.and_eq_true] at hproper
    obtain ⟨depth, outer, rfl⟩ := hframes
    have hline' : IsLineFree before
        (['#', '\x7b'] ++ (code.spelling ++ (['\x7d'] ++ more.spelling))) rest := hline
    have hcode : IsCode (.code 0 :: .literal o.literal depth :: outer) := fun _ _ _ h => by cases h
    exact (crosses_interpolation hproper.1.1).append
      ((ihcode hproper.1.2 hcode (head?_of_mem_some _ _) hline'.right.left).append
        ((crosses_bracket hcode (by decide)).cons
          (ihmore hproper.2 ⟨depth, outer, rfl⟩ (by simp) hline'.right.right.right)))

/-- Literals and comments are masked exactly, however deep they stand in each other. -/
theorem mask_spelling (t : Phrase none) (hproper : t.isProper none = true)
    (hfirst : ¬"=begin".toList <+: t.spelling) (hlines : ¬"\n=begin".toList <:+: t.spelling) :
    mask t.spelling = t.shown := by
  have hreach := t.crosses hproper isCode_nil (by simp) (.of_lines hfirst hlines) []
  rw [List.append_nil] at hreach
  rw [mask_eq_of_reaches_end hreach rfl]
  dsimp only
  rw [List.append_nil, List.reverse_reverse]

/-- A call with a word list in an interpolation, a literal with nested brackets, and a comment. -/
def nestedCall : Phrase none :=
  plain "f(".toList <| literal (.quote .double)
    (inside "a ".toList <| interpolation
      (plain "g(".toList <| literal (.percent (some .w) .square) (inside "b \"c".toList nil) <|
        plain ", ".toList <| literal (.quote .single) (escape '\'' <| inside "#".toList nil) <|
        group (plain " | ".toList nil) <| plain ")".toList nil) <|
      escape '"' nil) <|
  plain ",".toList <| literal (.percent none .round)
    (inside "d ".toList <| nested (interpolation (plain "e".toList nil) nil) <| escape ')' nil) <|
  plain ") ".toList <| comment " h".toList nil

/-- The delimiters, the interpolated code and what stands around the literals are shown. -/
theorem mask_spelling_nestedCall : nestedCall.isProper none = true ∧
    ¬"=begin".toList <+: nestedCall.spelling ∧ ¬"\n=begin".toList <:+: nestedCall.spelling ∧
    mask nestedCall.spelling = nestedCall.shown := by
  have hproper : nestedCall.isProper none = true := by decide
  have hfirst : ¬"=begin".toList <+: nestedCall.spelling := by decide
  have hlines : ¬"\n=begin".toList <:+: nestedCall.spelling := by decide
  exact ⟨hproper, hfirst, hlines, mask_spelling nestedCall hproper hfirst hlines⟩

example : String.ofList nestedCall.spelling =
    "f(\"a #\x7bg(%w[b \"c], '\\'#'\x7b | \x7d)\x7d\\\"\",%(d (#\x7be\x7d)\\))) # h\n" := by
  rfl

example : String.ofList nestedCall.shown =
    "f(\"  #\x7bg(%w[    ], '   '\x7b | \x7d)\x7d  \",%(   #\x7be\x7d   ))    \n" := by
  rfl

end Phrase

end FactoryDowngrade
