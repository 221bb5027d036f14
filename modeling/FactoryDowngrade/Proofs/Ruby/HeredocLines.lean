import FactoryDowngrade.Proofs.Ruby.BalancedCode
import FactoryDowngrade.Proofs.Ruby.LineStarts

/-!
# Lines with heredocs

A line of code may open any number of heredocs, each behind a bracket, a comma or a sign of
equality. The scan shows the line, collects the heredocs in order, and passes their bodies with the
line break: however the lines of a body look, only the closing line of its own heredoc ends it.
Behind the last closing line the scan goes on as at the start of a text.
-/

namespace FactoryDowngrade

open Scan

namespace Heredoc

/-! ### Openers as they are written -/

/-- The signs that let the closing line of a heredoc be indented. -/
inductive Flag where
  | dash
  | tilde
deriving DecidableEq, Repr

/-- The character of a flag. -/
def Flag.char : Flag → Char
  | dash => '-'
  | tilde => '~'

/-- An opener: a flag or none, quotes around the tag or none, and the tag. -/
structure Mark where
  flag : Option Flag
  quote : Option Quote
  tag : Text
deriving DecidableEq, Repr

namespace Mark

/-- The quote on either side of the tag. -/
def quotes (m : Mark) : Text :=
  m.quote.toList.map Quote.char

/-- The characters of an opener. -/
def spelling (m : Mark) : Text :=
  '<' :: '<' :: (m.flag.toList.map Flag.char ++ (m.quotes ++ (m.tag ++ m.quotes)))

/-- The heredoc that is opened. -/
def heredoc (m : Mark) : Heredoc :=
  ⟨m.tag, m.flag.isSome⟩

/-- Whether the tag is a name: between quotes any, and otherwise one of capitals. -/
def isNamed (m : Mark) : Bool :=
  match m.quote, m.tag with
  | _, [] => false
  | some _, first :: more => CharClass.isNameStart first && more.all CharClass.isWord
  | none, first :: more => (first == '_' || first.isUpper) && more.all isTagChar

/-- Whether the opener ends in front of a text: a tag without quotes does not go on. -/
def endsBefore (m : Mark) (text : Text) : Bool :=
  m.quote.isSome || !text.head?.any CharClass.isWord

end Mark

/-- A tag between quotes is read as it is written. -/
theorem quotedTag?_quotes (q : Quote) {first : Char} {more : Text}
    (hfirst : CharClass.isNameStart first = true) (hmore : ∀ c ∈ more, CharClass.isWord c = true)
    (rest : Text) : quotedTag? (q.char :: first :: (more ++ q.char :: rest)) =
      some (first :: more, more.length + 3) := by
  have hstop : (q.char :: rest).head?.any CharClass.isWord = false := by cases q <;> rfl
  obtain ⟨htake, hdrop⟩ := takeWhile_append_stop hmore hstop
  have hquote : (q.char == '\'' || q.char == '"' || q.char == '\x60') = true := by cases q <;> rfl
  rw [quotedTag?_cons_cons, htake, hdrop, hquote, hfirst]
  simp

/-- A tag of capitals is read as it is written. -/
theorem bareTag?_capitals {first : Char} {more rest : Text}
    (hfirst : (first == '_' || first.isUpper) = true) (hmore : ∀ c ∈ more, isTagChar c = true)
    (hrest : rest.head?.any CharClass.isWord = false) :
    quotedTag? (first :: (more ++ rest)) = none ∧
      bareTag? (first :: (more ++ rest)) = some (first :: more, more.length + 1) := by
  have hstop : rest.head?.any isTagChar = false :=
    any_eq_false_of_imp (fun _ => isWord_of_isTagChar) hrest
  obtain ⟨htake, hdrop⟩ := takeWhile_append_stop hmore hstop
  constructor
  · have hquote : (first == '\'' || first == '"' || first == '\x60') = false := by
      rw [Bool.eq_false_iff]
      intro hquote
      simp only [Bool.or_eq_true, beq_iff_eq] at hquote
      rcases hquote with (rfl | rfl) | rfl <;> cases hfirst
    cases hnext : more ++ rest with
    | nil => rfl
    | cons second tail => rw [quotedTag?_cons_cons, hquote]; rfl
  · rw [bareTag?_cons, htake, hdrop, hfirst, hrest]
    rfl

namespace Mark

/-- A tag is read with its quotes. -/
theorem tag?_quotes {m : Mark} (flagged : Bool) {rest : Text} (hnamed : m.isNamed = true)
    (hend : m.endsBefore rest = true) :
    tag? flagged (m.quotes ++ (m.tag ++ (m.quotes ++ rest))) =
      some (m.tag, (m.quotes ++ (m.tag ++ m.quotes)).length) := by
  obtain ⟨flag, quote, tag⟩ := m
  cases tag with
  | nil => cases quote <;> cases hnamed
  | cons first more =>
    cases quote with
    | some q =>
      simp only [isNamed, Bool.and_eq_true, List.all_eq_true] at hnamed
      have hquoted := quotedTag?_quotes q hnamed.1 hnamed.2 rest
      simp [tag?, quotes, hquoted]
    | none =>
      simp only [isNamed, Bool.and_eq_true, List.all_eq_true] at hnamed
      have hrest : rest.head?.any CharClass.isWord = false := by simpa [endsBefore] using hend
      obtain ⟨hquoted, hbare⟩ := bareTag?_capitals hnamed.1 hnamed.2 hrest
      simp [tag?, quotes, hquoted, hbare]

/-- What ends in front of the rest of a line ends in front of it in the text. -/
theorem endsBefore_append_break {m : Mark} {text : Text} (h : m.endsBefore text = true)
    (rest : Text) : m.endsBefore (text ++ '\n' :: rest) = true := by
  cases text with
  | nil =>
    have hbreak : CharClass.isWord '\n' = false := by decide
    simp [endsBefore, hbreak]
  | cons c text => exact h

/-- Behind what is no operand an opener is read as it is written. -/
theorem opener?_spelling {m : Mark} {previous : Option Char}
    (hprevious : previous.any isOperand = false) {rest : Text} (hnamed : m.isNamed = true)
    (hend : m.endsBefore rest = true) :
    opener? previous (m.spelling ++ rest) = some (m.heredoc, m.spelling.length) := by
  have htag (flagged : Bool) := tag?_quotes flagged hnamed hend
  obtain ⟨flag, quote, tag⟩ := m
  cases flag with
  | some flag =>
    have hflag : flag.char = '-' ∨ flag.char = '~' := by cases flag <;> simp [Flag.char]
    have hopener := opener?_of_flag previous hflag (quotes ⟨some flag, quote, tag⟩ ++
      (tag ++ (quotes ⟨some flag, quote, tag⟩ ++ rest)))
    rw [hprevious, if_neg Bool.false_ne_true, htag true] at hopener
    simpa [spelling, heredoc] using hopener
  | none =>
    have hhead : ∀ x ∈ ['-', '~'], (quotes ⟨none, quote, tag⟩ ++
        (tag ++ (quotes ⟨none, quote, tag⟩ ++ rest))).head? ≠ some x := by
      cases tag with
      | nil => cases quote <;> cases hnamed
      | cons first more =>
        rintro x hx heq
        cases quote with
        | some q =>
          obtain rfl : q.char = x := Option.some.inj heq
          cases q <;> simp [Quote.char] at hx
        | none =>
          obtain rfl : first = x := Option.some.inj heq
          simp only [isNamed, Bool.and_eq_true] at hnamed
          simp only [List.mem_cons, List.not_mem_nil, or_false] at hx
          rcases hx with rfl | rfl <;> cases hnamed.1
    have hopener := opener?_of_not_flag previous (hhead '-' (by simp)) (hhead '~' (by simp))
    rw [hprevious, if_neg Bool.false_ne_true, htag false] at hopener
    simpa [spelling, heredoc] using hopener

end Mark

/-! ### Bodies as they are written -/

/-- The body of a heredoc: its lines and the line that closes it. -/
structure Body where
  lines : List Text
  closing : Text
deriving DecidableEq, Repr

namespace Body

/-- The text of a body up to the end of the closing line. -/
def spelling (b : Body) : Text :=
  b.lines.flatMap (· ++ ['\n']) ++ b.closing

/-- The text of bodies that follow one another, of which `stop` ends the last one. -/
def join (stop : Text) : List Body → Text
  | [] => []
  | [b] => b.spelling ++ stop
  | b :: next :: more => b.spelling ++ '\n' :: join stop (next :: more)

/-- A body of some heredoc: lines that do not close it, whatever else they are, and behind them one
that does. -/
structure IsOf (h : Heredoc) (b : Body) : Prop where
  unbroken : ∀ line ∈ b.lines, '\n' ∉ line
  others : ∀ line ∈ b.lines, h.closes line = false
  closingUnbroken : '\n' ∉ b.closing
  closing : h.closes b.closing = true

variable {h : Heredoc} {b : Body}

/-- Lines that do not close a heredoc are passed. -/
theorem bodyLength_lines {lines : List Text} (hunbroken : ∀ line ∈ lines, '\n' ∉ line)
    (hothers : ∀ line ∈ lines, h.closes line = false) (text : Text) :
    h.bodyLength (lines.flatMap (· ++ ['\n']) ++ text) =
      (lines.flatMap (· ++ ['\n'])).length + h.bodyLength text := by
  induction lines with
  | nil => simp
  | cons line lines ih =>
    have hrest := ih (fun l hl => hunbroken l (List.mem_cons_of_mem _ hl))
      fun l hl => hothers l (List.mem_cons_of_mem _ hl)
    have hfree := hunbroken line List.mem_cons_self
    have hopen := hothers line List.mem_cons_self
    rw [List.flatMap_cons, List.append_assoc, List.append_assoc, List.singleton_append,
      bodyLength_eq, (firstLine_append_break hfree _).1, (firstLine_append_break hfree _).2]
    dsimp only
    rw [hopen, if_neg Bool.false_ne_true, hrest]
    simp only [List.length_append, List.length_singleton]
    omega

/-- A body goes through its closing line, with the line break if there is one. -/
theorem IsOf.bodyLength (hb : b.IsOf h) (rest : Text) :
    h.bodyLength (b.spelling ++ '\n' :: rest) = b.spelling.length + 1 ∧
      h.bodyLength b.spelling = b.spelling.length := by
  have hlines := bodyLength_lines hb.unbroken hb.others
  constructor
  · rw [spelling, List.append_assoc, hlines, bodyLength_eq,
      (firstLine_append_break hb.closingUnbroken _).1,
      (firstLine_append_break hb.closingUnbroken _).2]
    dsimp only
    rw [hb.closing, if_pos rfl, List.length_append, Nat.add_assoc]
  · have hline := forall_ne_of_notMem hb.closingUnbroken
    rw [spelling, hlines, bodyLength_eq, List.dropWhile_eq_nil_iff.mpr hline]
    dsimp only
    rw [Text.firstLine, List.takeWhile_eq_self_iff.mpr hline, List.length_append]

/-- The bodies of successive heredocs are passed together. -/
theorem bodiesLength_join {heredocs : List Heredoc} {bodies : List Body}
    (hbodies : List.Forall₂ (fun h b => IsOf h b) heredocs bodies) {stop rest : Text}
    (hstop : stop = ['\n'] ∨ stop = [] ∧ rest = []) :
    bodiesLength heredocs (join stop bodies ++ rest) = (join stop bodies).length := by
  induction hbodies with
  | nil => rfl
  | @cons h b heredocs bodies hb hbodies ih =>
    rw [bodiesLength]
    cases bodies with
    | nil =>
      cases hbodies
      rw [join, bodiesLength, Nat.add_zero, List.append_assoc]
      rcases hstop with rfl | ⟨rfl, rfl⟩
      · rw [List.singleton_append, (hb.bodyLength rest).1, List.length_append]
        rfl
      · rw [List.append_nil, List.append_nil, (hb.bodyLength []).2]
    | cons next more =>
      have htext : join stop (b :: next :: more) ++ rest =
          b.spelling ++ '\n' :: (join stop (next :: more) ++ rest) := by simp [join]
      have hdrop : (b.spelling ++ '\n' :: (join stop (next :: more) ++ rest)).drop
          (b.spelling.length + 1) = join stop (next :: more) ++ rest := by
        simp [List.drop_length_add_append]
      rw [htext, (hb.bodyLength _).1, hdrop, ih]
      simp [join]
      omega

end Body

end Heredoc

/-! ### Lines as they are written -/

/-- A line of code with heredoc openers. -/
inductive OpenerLine where
  | code (stretch : Text)
  | opener (stretch : Text) (mark : Heredoc.Mark) (more : OpenerLine)
deriving DecidableEq, Repr

namespace OpenerLine

/-- Characters of code that break no line and open neither a literal nor a heredoc nor a comment. -/
def isPlain (c : Char) : Bool :=
  !(['"', '\'', '\x60', '#', '%', '<', '\n'].contains c)

/-- Whether code ends, up to blanks, with a character behind which a heredoc is opened. -/
def isLead (stretch : Text) : Bool :=
  stretch.trimRight.getLast?.any ['(', '[', ',', '='].contains

/-- The text of a line. -/
def spelling : OpenerLine → Text
  | code stretch => stretch
  | opener stretch mark more => stretch ++ (mark.spelling ++ more.spelling)

/-- The heredocs that a line opens, in order. -/
def heredocs : OpenerLine → List Heredoc
  | code _ => []
  | opener _ mark more => mark.heredoc :: more.heredocs

/-- Whether the code of a line is plain, and each opener stands where one may stand and ends in
front of what follows it. -/
def isProper : OpenerLine → Bool
  | code stretch => stretch.all isPlain
  | opener stretch mark more => stretch.all isPlain && isLead stretch && mark.isNamed &&
      mark.endsBefore more.spelling && more.isProper

/-- Blanks are no operands. -/
theorem isOperand_eq_false_of_isBlank {c : Char} (h : CharClass.isBlank c = true) :
    Heredoc.isOperand c = false := by
  have hword := CharClass.isWord_eq_false_of_isBlank h
  rw [CharClass.isWord, Bool.or_eq_false_iff] at hword
  have hclosers : ∀ x ∈ [')', ']', '\x7d'], CharClass.isBlank x = false := by decide
  have hne := notMem_of_accepted hclosers h
  simp only [List.mem_cons, List.not_mem_nil, or_false, not_or] at hne
  simp [Heredoc.isOperand, hword, hne]

/-- Behind the lead of an opener no operand stands, whatever stands before the lead. -/
theorem isOperand_previous {stretch : Text} (h : isLead stretch = true) (before : Text) :
    ((stretch.reverse ++ before).dropWhile CharClass.isSpaceOrTab).head?.any Heredoc.isOperand =
      false := by
  rw [isLead, Text.trimRight, List.getLast?_reverse] at h
  generalize stretch.reverse = passed at h ⊢
  induction passed with
  | nil => cases h
  | cons x passed ih =>
    rw [List.cons_append]
    by_cases hblank : CharClass.isBlank x = true
    · rw [List.dropWhile_cons_of_pos hblank] at h
      by_cases hspace : CharClass.isSpaceOrTab x = true
      · rw [List.dropWhile_cons_of_pos hspace]
        exact ih h
      · rw [List.dropWhile_cons_of_neg hspace]
        exact isOperand_eq_false_of_isBlank hblank
    · rw [List.dropWhile_cons_of_neg hblank] at h
      have hleads : ∀ y ∈ ['(', '[', ',', '='], CharClass.isSpaceOrTab y = false ∧
          Heredoc.isOperand y = false := by decide
      obtain ⟨hspace, hoperand⟩ := hleads x (List.contains_iff_mem.mp h)
      rw [List.dropWhile_cons_of_neg (by simp [hspace])]
      exact hoperand

/-- Plain characters do not break lines. -/
theorem break_notMem_of_isPlain {stretch : Text} (h : ∀ c ∈ stretch, isPlain c = true) :
    '\n' ∉ stretch := fun hmem => by
  cases h _ hmem

/-- A line is not broken. -/
theorem break_notMem_spelling {line : OpenerLine} (h : line.isProper = true) :
    '\n' ∉ line.spelling := by
  induction line with
  | code stretch => exact break_notMem_of_isPlain (List.all_eq_true.mp h)
  | opener stretch mark more ih =>
    simp only [isProper, Bool.and_eq_true, List.all_eq_true] at h
    obtain ⟨⟨⟨⟨hstretch, -⟩, hnamed⟩, hend⟩, hmore⟩ := h
    have hmark : '\n' ∉ mark.spelling := by
      have hopener : Heredoc.opener? none (mark.spelling ++ more.spelling) = _ :=
        Heredoc.Mark.opener?_spelling rfl hnamed hend
      simpa using Heredoc.isInLine_opener? _ _ _ hopener
    simp only [spelling, List.mem_append, not_or]
    exact ⟨break_notMem_of_isPlain hstretch, hmark, ih hmore⟩

/-! ### The scan of a line -/

section Reaches

variable {before masked rest : Text} {pending : List Heredoc}

/-- Plain characters are shown. -/
theorem isShown_of_isPlain {c : Char} (hc : isPlain c = true) : IsShown c := by
  have hnot : c ∉ ['"', '\'', '\x60', '#', '%', '<'] ++ ['\n'] := by simpa [isPlain] using hc
  rw [List.mem_append, not_or] at hnot
  exact isShown_of_notMem (by simpa using hnot.2) hnot.1

/-- The code of a line is shown. -/
theorem reaches_plain {stretch : Text} (hplain : ∀ c ∈ stretch, isPlain c = true)
    (hline : IsLineFree before stretch rest) :
    Reaches ⟨before, masked, stretch ++ rest, [], pending⟩
      ⟨stretch.reverse ++ before, stretch.reverse ++ masked, rest, [], pending⟩ := by
  induction stretch generalizing before masked with
  | nil => exact .refl _
  | cons c stretch ih =>
    have hshown : IsShown c := isShown_of_isPlain (hplain c List.mem_cons_self)
    have hline' : IsLineFree before ([c] ++ stretch) rest := hline
    have hstep : (Scan.mk before masked (c :: (stretch ++ rest)) [] pending).step =
        ⟨c :: before, c :: masked, stretch ++ rest, [], pending⟩ :=
      step_of_isShown isCode_nil hshown hline.head
    have hmore : Reaches ⟨c :: before, c :: masked, stretch ++ rest, [], pending⟩ _ :=
      ih (fun x hx => hplain x (List.mem_cons_of_mem _ hx)) hline'.right
    simpa using (Reaches.step hstep).trans hmore

/-- An opener is shown, and its heredoc comes last among those pending. -/
theorem step_of_mark {mark : Heredoc.Mark}
    (hprevious : (before.dropWhile CharClass.isSpaceOrTab).head?.any Heredoc.isOperand = false)
    (hnamed : mark.isNamed = true) (hend : mark.endsBefore rest = true) :
    (Scan.mk before masked (mark.spelling ++ rest) [] pending).step =
      ⟨mark.spelling.reverse ++ before, mark.spelling.reverse ++ masked, rest, [],
        pending ++ [mark.heredoc]⟩ := by
  have hopener := Heredoc.Mark.opener?_spelling hprevious hnamed hend
  obtain ⟨tail, htail⟩ : ∃ tail, mark.spelling ++ rest = '<' :: tail := ⟨_, rfl⟩
  have hliteral : (Scan.mk before masked (mark.spelling ++ rest) [] pending).literalAhead? '<' =
      none := literalAhead?_eq_none rfl (by rw [htail]; simp)
  rw [step_of_isCode htail isCode_nil, stepCode.eq_def, if_neg (by decide), if_neg (by decide),
    if_neg (by simp), hliteral]
  dsimp only [previous]
  rw [hopener]
  simp only [keep, Scan.pass, List.take_left, List.drop_left, List.map_id]

/-- A line is shown, and its heredocs are left pending. -/
theorem reaches_break {line : OpenerLine} (hproper : line.isProper = true)
    (hline : IsLineFree before line.spelling ('\n' :: rest)) :
    Reaches ⟨before, masked, line.spelling ++ '\n' :: rest, [], pending⟩
      ⟨line.spelling.reverse ++ before, line.spelling.reverse ++ masked, '\n' :: rest, [],
        pending ++ line.heredocs⟩ := by
  induction line generalizing before masked pending with
  | code stretch =>
    have hcode : Reaches ⟨before, masked, stretch ++ '\n' :: rest, [], pending⟩ _ :=
      reaches_plain (List.all_eq_true.mp hproper) hline
    simpa [spelling, heredocs] using hcode
  | opener stretch mark more ih =>
    simp only [isProper, Bool.and_eq_true, List.all_eq_true] at hproper
    obtain ⟨⟨⟨⟨hplain, hlead⟩, hnamed⟩, hend⟩, hmore⟩ := hproper
    have hline' : IsLineFree before stretch (mark.spelling ++ (more.spelling ++ '\n' :: rest)) := by
      simpa using hline.left
    have hcode : Reaches ⟨before, masked, stretch ++ (mark.spelling ++
        (more.spelling ++ '\n' :: rest)), [], pending⟩ _ := reaches_plain hplain hline'
    have hmark : Reaches ⟨stretch.reverse ++ before, stretch.reverse ++ masked,
        mark.spelling ++ (more.spelling ++ '\n' :: rest), [], pending⟩ _ :=
      .step (step_of_mark (isOperand_previous hlead before) hnamed
        (Heredoc.Mark.endsBefore_append_break hend rest))
    simpa [spelling, heredocs] using (hcode.trans hmark).trans (ih hmore hline.right.right)

end Reaches

/-! ### A line with the bodies behind it -/

open Heredoc

/-- A line with the bodies of its heredocs. -/
def block (line : OpenerLine) (bodies : List Body) (stop : Text) : Text :=
  line.spelling ++ '\n' :: Body.join stop bodies

/-- A line with the bodies of its heredocs blanked. -/
def shown (line : OpenerLine) (bodies : List Body) (stop : Text) : Text :=
  line.spelling ++ '\n' :: (Body.join stop bodies).map blankOf

variable {line : OpenerLine} {bodies : List Body} {stop back : Text}

/-- Bodies that end with a line break, or none behind one, end with a line break. -/
theorem head?_reverse_join (bodies : List Body) :
    ('\n' :: Body.join ['\n'] bodies).reverse.head? = some '\n' := by
  rw [List.head?_reverse]
  induction bodies with
  | nil => rfl
  | cons b bodies ih =>
    cases bodies with
    | nil => rw [Body.join, ← List.cons_append, List.getLast?_concat]
    | cons next more =>
      rw [Body.join, ← List.cons_append, List.getLast?_append, ih]
      rfl

/-- A line break is passed with the bodies of the pending heredocs, which are blanked. -/
theorem step_of_bodies {before masked : Text} {pending : List Heredoc}
    (hbodies : List.Forall₂ (fun h b => Body.IsOf h b) pending bodies)
    (hstop : stop = ['\n'] ∨ stop = [] ∧ back = []) :
    (Scan.mk before masked ('\n' :: (Body.join stop bodies ++ back)) [] pending).step =
      ⟨('\n' :: Body.join stop bodies).reverse ++ before,
        ('\n' :: (Body.join stop bodies).map blankOf).reverse ++ masked, back, [], []⟩ := by
  have hlength := Body.bodiesLength_join hbodies hstop
  rw [step_of_isCode rfl isCode_nil, stepCode.eq_def, if_pos rfl]
  simp [passLineBreak, keep, blank, Scan.pass, hlength]

/-- The scan comes out behind the last body in top-level code, with no heredoc pending. -/
theorem reaches_block {before masked : Text} (hproper : line.isProper = true)
    (hline : IsLineFree before line.spelling ('\n' :: (Body.join stop bodies ++ back)))
    (hbodies : List.Forall₂ (fun h b => Body.IsOf h b) line.heredocs bodies)
    (hstop : stop = ['\n'] ∨ stop = [] ∧ back = []) :
    Reaches ⟨before, masked, line.block bodies stop ++ back, [], []⟩
      ⟨(line.block bodies stop).reverse ++ before, (line.shown bodies stop).reverse ++ masked,
        back, [], []⟩ := by
  have hreach : Reaches ⟨before, masked,
      line.spelling ++ '\n' :: (Body.join stop bodies ++ back), [], []⟩ _ :=
    reaches_break hproper hline
  simpa [block, shown] using hreach.trans (.step (step_of_bodies hbodies hstop))

end OpenerLine

/-- Any number of heredocs that a line opens are masked in order, and behind the last of them the
text is masked as it would be alone. -/
theorem mask_openerLine {front back stop : Text} {line : OpenerLine} {bodies : List Heredoc.Body}
    (hfront : front = [] ∨ front.getLast? = some '\n') (hproper : line.isProper = true)
    (hfirst : ¬"=begin".toList <+: line.spelling)
    (hbodies : List.Forall₂ (fun h b => Heredoc.Body.IsOf h b) line.heredocs bodies)
    (hstop : stop = ['\n'] ∨ stop = [] ∧ back = [])
    (htop : IsTopLevelAt (front ++ (line.block bodies stop ++ back)) front.length) :
    mask (front ++ (line.block bodies stop ++ back)) =
      mask front ++ (line.shown bodies stop ++ mask back) := by
  have hclear := htop.isClearAt (by simp [OpenerLine.block]) hfront
  have hlast : front.getLast?.all (· == '\n') = true := by
    rcases hfront with rfl | hfront
    · rfl
    · simp [hfront]
  have hbreak := OpenerLine.break_notMem_spelling hproper
  have hreach := (exists_reaches_clear hlast hclear).trans
    (OpenerLine.reaches_block hproper (.line hbreak hfirst) hbodies hstop)
  rcases hstop with rfl | ⟨rfl, rfl⟩
  · rw [mask_eq_append_of_reaches hreach]
    · simp
    · simp only [OpenerLine.block, List.reverse_append, List.append_assoc]
      rw [List.head?_append, OpenerLine.head?_reverse_join]
      rfl
  · rw [mask_eq_of_reaches_end hreach rfl]
    simp [mask, steps, start]

/-- A line with an indented heredoc and one between quotes. -/
def twoOpeners : OpenerLine :=
  .opener "f(".toList ⟨some .tilde, none, "ONE".toList⟩
    (.opener ", ".toList ⟨none, some .single, "two".toList⟩ (.code ")".toList))

/-- Bodies with the tag of the other one, an opener and a quote in them. -/
def twoBodies : List Heredoc.Body :=
  [⟨["two".toList, "  <<~X \"".toList], " ONE ".toList⟩, ⟨["ONE".toList], "two\r".toList⟩]

/-- Neither the other tag nor what else stands in a body ends it. -/
theorem mask_openerLine_twoOpeners :
    ("x = 1\n".toList = [] ∨ "x = 1\n".toList.getLast? = some '\n') ∧
    twoOpeners.isProper = true ∧ ¬"=begin".toList <+: twoOpeners.spelling ∧
    List.Forall₂ (fun h b => Heredoc.Body.IsOf h b) twoOpeners.heredocs twoBodies ∧
    (['\n'] = ['\n'] ∨ ['\n'] = [] ∧ "create(:a)".toList = []) ∧
    IsTopLevelAt
      ("x = 1\n".toList ++ (twoOpeners.block twoBodies ['\n'] ++ "create(:a)".toList)) 6 ∧
    mask ("x = 1\n".toList ++ (twoOpeners.block twoBodies ['\n'] ++ "create(:a)".toList)) =
      mask "x = 1\n".toList ++ (twoOpeners.shown twoBodies ['\n'] ++ mask "create(:a)".toList) := by
  have hfront : "x = 1\n".toList = [] ∨ "x = 1\n".toList.getLast? = some '\n' := by decide
  have hproper : twoOpeners.isProper = true := by decide
  have hfirst : ¬"=begin".toList <+: twoOpeners.spelling := by decide
  have hbodies : List.Forall₂ (fun h b => Heredoc.Body.IsOf h b) twoOpeners.heredocs twoBodies :=
    .cons ⟨by decide, by decide, by decide, by decide⟩
      (.cons ⟨by decide, by decide, by decide, by decide⟩ .nil)
  have hstop : ['\n'] = ['\n'] ∨ ['\n'] = [] ∧ "create(:a)".toList = [] := .inl rfl
  have htop : IsTopLevelAt
      ("x = 1\n".toList ++ (twoOpeners.block twoBodies ['\n'] ++ "create(:a)".toList)) 6 :=
    ⟨steps 6 (start _), ⟨6, rfl⟩, by decide, by decide⟩
  exact ⟨hfront, hproper, hfirst, hbodies, hstop, htop,
    mask_openerLine hfront hproper hfirst hbodies hstop htop⟩

example : String.ofList (twoOpeners.block twoBodies ['\n']) =
    "f(<<~ONE, <<'two')\ntwo\n  <<~X \"\n ONE \nONE\ntwo\r\n" := by
  rfl

end FactoryDowngrade
