import FactoryDowngrade.Proofs.Receivers
import FactoryDowngrade.Proofs.Ruby.HeredocLines
import FactoryDowngrade.Proofs.Ruby.NestedLiterals

/-!
# Literals as arguments

The character in front of angle signs or of a percent sign decides whether they open a literal.
Behind the bracket of an argument list they do. Behind the bare name of a method they are taken for
operators: the angle signs open a heredoc only if the name ends in a mark, the percent sign never
opens a literal, and what was meant as their body is read as code.
-/

namespace FactoryDowngrade

open Scan

namespace Scan

/-- An angle sign or a percent sign that opens neither a literal nor a heredoc is shown. -/
theorem crosses_sign {sign : Char} {before rest : Text} (hsign : sign ∈ ['<', '%'])
    (hliteral : ∀ masked, (Scan.mk before masked (sign :: rest) [] []).literalAhead? sign = none)
    (hopener : Heredoc.opener? (before.dropWhile CharClass.isSpaceOrTab).head? (sign :: rest) =
      none) : Crosses [] [] before [sign] [sign] rest := by
  intro masked
  have hother : sign ≠ '\n' ∧ sign ≠ '#' ∧ sign ≠ '=' := by
    have hall : ∀ x ∈ ['<', '%'], x ≠ '\n' ∧ x ≠ '#' ∧ x ≠ '=' := by decide
    exact hall sign hsign
  refine .step ?_
  rw [List.singleton_append, step_of_isCode rfl isCode_nil, stepCode.eq_def, if_neg hother.1,
    if_neg hother.2.1, if_neg (by simp [hother.2.2]), hliteral]
  dsimp only [previous]
  rw [hopener]
  rfl

/-- An angle sign that opens no heredoc is shown. -/
theorem crosses_angle {before rest : Text}
    (hopener : Heredoc.opener? (before.dropWhile CharClass.isSpaceOrTab).head? ('<' :: rest) =
      none) : Crosses [] [] before ['<'] ['<'] rest :=
  crosses_sign (by simp) (fun _ => literalAhead?_eq_none rfl (by simp)) hopener

/-- A percent sign is shown behind a character behind which it opens no literal. -/
theorem crosses_percent {before rest : Text}
    (hfollow : (before.dropWhile CharClass.isSpaceOrTab).head?.all Literal.mayFollow = false) :
    Crosses [] [] before ['%'] ['%'] rest := by
  refine crosses_sign (by simp) (fun masked => ?_) (Heredoc.opener?_eq_none (by simp))
  rw [literalAhead?, show Literal.ofQuote? '%' = none from rfl]
  exact if_neg fun hall => by cases hfollow.symm.trans hall

/-- Behind an operand both angle signs are shown, and so is the word behind them. -/
theorem crosses_operator {before word back : Text}
    (hoperand : (before.dropWhile CharClass.isSpaceOrTab).head?.any Heredoc.isOperand = true)
    (hword : ∀ c ∈ word, OpenerLine.isPlain c = true) :
    Crosses [] [] before ('<' :: '<' :: word) ('<' :: '<' :: word) ('\n' :: back) := by
  have hfirst : Crosses [] [] before ['<'] ['<'] ('<' :: word ++ '\n' :: back) :=
    crosses_angle (Heredoc.opener?_of_operand hoperand _)
  have hsecond : Crosses [] [] ('<' :: before) ['<'] ['<'] (word ++ '\n' :: back) := by
    refine crosses_angle (Heredoc.opener?_eq_none fun rest heq => ?_)
    cases word with
    | nil => cases heq
    | cons c word =>
      have hangle : c = '<' := by simpa using congrArg List.head? (List.cons.inj heq).2
      exact absurd (hword c List.mem_cons_self) (by rw [hangle]; decide)
  have hline : IsLineFree before (['<', '<'] ++ word) ('\n' :: back) := by
    refine .line ?_ (fun ⟨_, h⟩ => by cases h)
    simpa using OpenerLine.break_notMem_of_isPlain hword
  have hcode : Crosses [] [] ('<' :: '<' :: before) word word ('\n' :: back) :=
    fun masked => OpenerLine.reaches_plain hword hline.right
  exact hfirst.cons (hsecond.cons hcode)

/-- A line that is passed in code is masked apart from the lines behind it. -/
theorem mask_line {line image back : Text} (h : Crosses [] [] [] line image ('\n' :: back)) :
    mask (line ++ '\n' :: back) = image ++ '\n' :: mask back := by
  have hreach : Reaches (start (line ++ '\n' :: back)) _ :=
    (h []).trans (.step (step_of_lineBreak isCode_nil))
  simpa using mask_eq_append_of_reaches hreach rfl

/-- A heredoc that is opened on a line of code is passed with its body, which is blanked. -/
theorem reaches_opened {before masked tail back : Text} {m : Heredoc.Mark} {body : Heredoc.Body}
    (hprevious : (before.dropWhile CharClass.isSpaceOrTab).head?.any Heredoc.isOperand = false)
    (hnamed : m.isNamed = true) (hend : m.endsBefore tail = true)
    (htail : ∀ c ∈ tail, OpenerLine.isPlain c = true) (hfirst : ¬"=begin".toList <+: tail)
    (hbody : body.IsOf m.heredoc) :
    Reaches
      ⟨before, masked, m.spelling ++ (tail ++ '\n' :: (body.spelling ++ '\n' :: back)), [], []⟩
      ⟨(m.spelling ++ (tail ++ '\n' :: (body.spelling ++ ['\n']))).reverse ++ before,
        (m.spelling ++ (tail ++ '\n' :: (body.spelling.map blankOf ++ ['\n']))).reverse ++ masked,
        back, [], []⟩ := by
  have hbreak := OpenerLine.break_notMem_of_isPlain htail
  have hmark : Reaches ⟨before, masked,
      m.spelling ++ (tail ++ '\n' :: (body.spelling ++ '\n' :: back)), [], []⟩ _ :=
    .step (OpenerLine.step_of_mark hprevious hnamed (Heredoc.Mark.endsBefore_append_break hend _))
  have hblank (before masked : Text) : Reaches ⟨before, masked,
      '\n' :: (Heredoc.Body.join ['\n'] [body] ++ back), [], [m.heredoc]⟩ _ :=
    .step (OpenerLine.step_of_bodies (.cons hbody .nil) (.inl rfl))
  have hjoin : Heredoc.Body.join ['\n'] [body] ++ back = body.spelling ++ '\n' :: back := by
    simp [Heredoc.Body.join]
  rw [hjoin] at hblank
  have hend := (hmark.trans (OpenerLine.reaches_plain htail (.line hbreak hfirst))).trans
    (hblank _ _)
  simpa [Heredoc.Body.join, blankOf] using hend

/-- Behind a round bracket a percent literal is passed, and its body is blanked. -/
theorem crosses_literal {letter : Option KindLetter} {delimiter : Delimiter}
    {body : Phrase (some (.percent letter delimiter))} {before rest : Text}
    (hround : before.head? = some '(') (hproper : body.isProper none = true)
    (hlines : ¬"\n=begin".toList <:+: body.spelling) :
    Crosses [] [] before
      ((Opening.percent letter delimiter).spelling ++ (body.spelling ++ [delimiter.closer]))
      ((Opening.percent letter delimiter).spelling ++ (body.shown ++ [delimiter.closer])) rest := by
  have hopening (rest : Text) : Crosses []
      [.literal (Opening.percent letter delimiter).literal 0] before _ _ rest :=
    crosses_opening isCode_nil (fun x hx => hround.trans hx) (rfl : _ = true)
  have hinside := (Opening.percent letter delimiter).head?_reverse_spelling before
  have hcloser : delimiter.closer ∉ "=begin".toList := by cases delimiter <;> decide
  have hbody (rest : Text) : Crosses [.literal (Opening.percent letter delimiter).literal 0] _ _
      body.spelling body.shown (delimiter.closer :: rest) :=
    body.crosses hproper ⟨0, [], rfl⟩ (by simp) (.of_rest hinside hlines hcloser)
  exact (hopening _).append ((hbody rest).append crosses_closer)

end Scan

namespace OpenerLine

/-- Word characters are plain. -/
theorem isPlain_of_isWord {c : Char} (hc : CharClass.isWord c = true) : isPlain c = true := by
  have hothers : ∀ x ∈ ['"', '\'', '\x60', '#', '%', '<', '\n'], CharClass.isWord x = false := by
    decide
  simpa [isPlain] using notMem_of_accepted hothers hc

end OpenerLine

/-- An opener without quotes is plain behind the angle signs. -/
theorem Heredoc.Mark.exists_word {m : Heredoc.Mark} (hquote : m.quote = none)
    (hnamed : m.isNamed = true) : ∃ word, m.spelling = '<' :: '<' :: word ∧
      ∀ c ∈ word, OpenerLine.isPlain c = true := by
  obtain ⟨flag, quote, tag⟩ := m
  obtain rfl : quote = none := hquote
  refine ⟨flag.toList.map Flag.char ++ tag, by simp [spelling, quotes], fun c hc => ?_⟩
  rcases List.mem_append.mp hc with hc | hc
  · obtain ⟨f, -, rfl⟩ := List.mem_map.mp hc
    cases f <;> decide
  · refine OpenerLine.isPlain_of_isWord ?_
    cases tag with
    | nil => cases hc
    | cons first more =>
      simp only [isNamed, Bool.and_eq_true, Bool.or_eq_true, beq_iff_eq, List.all_eq_true] at hnamed
      rcases List.mem_cons.mp hc with rfl | hc
      · rcases hnamed.1 with rfl | hupper
        · decide
        · exact CharClass.isWord_of_isUpper hupper
      · exact isWord_of_isTagChar (hnamed.2 c hc)

namespace CallSite

/-- A site starts with a letter that the masked text shows. -/
theorem exists_getElem?_start {text : Text} {s : CallSite} (h : s ∈ extract text) :
    ∃ c ∈ ['F', 'b', 'c'], (mask text)[s.sourceSpan.start]? = some c := by
  rw [extract_eq_map] at h
  obtain ⟨call, hcall, rfl⟩ := List.mem_map.mp h
  obtain ⟨head, hmem, hhead⟩ := exists_head_of_mem_calls hcall
  obtain ⟨hstands, htext⟩ := standsAt_of_mem_heads hmem
  obtain ⟨lead, hlead, hpass⟩ := exists_isLead_of_mem_receiver hstands.receiver
  have hletter : ∃ c ∈ ['F', 'b', 'c'], (lead ++ head.variant.method.toList).head? = some c := by
    cases hlead with
    | bare =>
      cases head.variant with
      | build | buildStubbed => exact ⟨'b', by simp, rfl⟩
      | create => exact ⟨'c', by simp, rfl⟩
    | library hname hbefore hbehind =>
      simp only [List.mem_cons, List.not_mem_nil, or_false] at hname
      rcases hname with rfl | rfl <;> exact ⟨'F', by simp, rfl⟩
  obtain ⟨c, hc, hfirst⟩ := hletter
  refine ⟨c, hc, ?_⟩
  change (mask text)[call.start]? = some c
  have hafter := (hpass.trans hstands.callee).after
  rw [← List.head?_drop, hhead.start, ← htext, ← Nat.add_zero head.first.offset,
    Cursor.drop_offset_add, List.drop_zero, hafter, List.head?_append, hfirst]
  rfl

/-- No site starts where the masked text is blank. -/
theorem start_of_mask_eq {text front body back : Text} {s : CallSite} (h : s ∈ extract text)
    (hmask : mask text = front ++ (body.map blankOf ++ back)) :
    s.sourceSpan.start < front.length ∨ front.length + body.length ≤ s.sourceSpan.start := by
  obtain ⟨c, hc, hshown⟩ := exists_getElem?_start h
  by_contra hinside
  simp only [not_or, Nat.not_lt, Nat.not_le] at hinside
  rw [hmask, List.getElem?_append_right hinside.1, List.getElem?_append_left (by
    rw [List.length_map]
    omega)] at hshown
  obtain ⟨x, -, hx⟩ := List.mem_map.mp (List.mem_of_getElem? hshown)
  have hblank (x : Char) : blankOf x ∉ ['F', 'b', 'c'] := by
    unfold blankOf
    split <;> decide
  exact hblank x (hx ▸ hc)

end CallSite

/-- The name of a method: word characters, and a mark behind them or none. -/
structure MethodName where
  stem : Text
  mark : Option Char
  stem_ne_nil : stem ≠ []
  isWord_of_mem : ∀ c ∈ stem, CharClass.isWord c = true
  mem_of_mark : ∀ c ∈ mark, c ∈ ['!', '?']

namespace MethodName

variable {name : MethodName}

/-- The characters of a name. -/
def spelling (name : MethodName) : Text :=
  name.stem ++ name.mark.toList

/-- A name in front of an argument in brackets. -/
def bracketed (name : MethodName) (argument : Text) : Text :=
  name.spelling ++ '(' :: (argument ++ [')'])

/-- A name in front of an argument without brackets. -/
def command (name : MethodName) (argument : Text) : Text :=
  name.spelling ++ ' ' :: argument

/-- The last character of a name is no blank, is an operand unless it is a mark, and is none behind
which a percent sign opens a literal. -/
theorem exists_last (name : MethodName) : ∃ init last, name.spelling = init ++ [last] ∧
    CharClass.isSpaceOrTab last = false ∧ Heredoc.isOperand last = name.mark.isNone ∧
    Literal.mayFollow last = false := by
  obtain ⟨stem, mark, hne, hword, hmark⟩ := name
  cases mark with
  | none =>
    rcases List.eq_nil_or_concat stem with rfl | ⟨init, last, rfl⟩
    · exact absurd rfl hne
    have hlast : CharClass.isWord last = true := hword last (by simp)
    have hothers : ∀ x ∈ [' ', '\t', '(', ',', '=', '[', '\x7b', '|', '&', ':', ';', '\n'],
        CharClass.isWord x = false := by decide
    have hnot : last ∉ [' ', '\t'] ++ ['(', ',', '=', '[', '\x7b', '|', '&', ':', ';', '\n'] :=
      notMem_of_accepted hothers hlast
    rw [List.mem_append, not_or] at hnot
    refine ⟨init, last, by simp [spelling], ?_, ?_, ?_⟩
    · simpa [CharClass.isSpaceOrTab] using hnot.1
    · rw [CharClass.isWord, Bool.or_comm] at hlast
      simp only [Heredoc.isOperand, hlast, Bool.true_or, Option.isNone_none]
    · simpa [Literal.mayFollow] using hnot.2
  | some c =>
    have hmarks : ∀ x ∈ ['!', '?'], CharClass.isSpaceOrTab x = false ∧
        Heredoc.isOperand x = false ∧ Literal.mayFollow x = false := by decide
    exact ⟨stem, c, rfl, hmarks c (hmark c rfl)⟩

/-- Across a blank an operand stands behind a name without a mark, and behind none a percent sign
opens a literal. -/
theorem behind_command (name : MethodName) :
    ((name.spelling ++ [' ']).reverse.dropWhile CharClass.isSpaceOrTab).head?.any
      Heredoc.isOperand = name.mark.isNone ∧
    ((name.spelling ++ [' ']).reverse.dropWhile CharClass.isSpaceOrTab).head?.all
      Literal.mayFollow = false := by
  obtain ⟨init, last, hspelling, hblank, hoperand, hfollow⟩ := name.exists_last
  have hspace : CharClass.isSpaceOrTab ' ' = true := by decide
  have hprevious : ((name.spelling ++ [' ']).reverse.dropWhile CharClass.isSpaceOrTab).head? =
      some last := by simp [hspelling, hspace, hblank]
  rw [hprevious]
  exact ⟨hoperand, hfollow⟩

/-! ### Scans up to the argument -/

/-- The scan passes a name and a sign behind it, and shows both. -/
theorem crosses_lead (name : MethodName) {sign : Char} (hsign : OpenerLine.isPlain sign = true)
    (rest : Text) : Crosses [] [] [] (name.spelling ++ [sign]) (name.spelling ++ [sign]) rest := by
  have hmarks : ∀ c ∈ ['!', '?'], OpenerLine.isPlain c = true := by decide
  have hname : ∀ c ∈ name.spelling, OpenerLine.isPlain c = true := by
    intro c hc
    rcases List.mem_append.mp hc with hc | hc
    · exact OpenerLine.isPlain_of_isWord (name.isWord_of_mem c hc)
    · exact hmarks c (name.mem_of_mark c (by simpa using hc))
  have hplain : ∀ c ∈ name.spelling ++ [sign], OpenerLine.isPlain c = true := by
    intro c hc
    rcases List.mem_append.mp hc with hc | hc
    · exact hname c hc
    · rwa [List.mem_singleton.mp hc]
  have hbreak : '\n' ∉ (name.spelling ++ [sign]).dropLast := by
    rw [List.dropLast_concat]
    exact OpenerLine.break_notMem_of_isPlain hname
  have hhead : (name.spelling ++ [sign]).head? ≠ some '=' := by
    obtain ⟨first, more, hstem⟩ := List.exists_cons_of_ne_nil name.stem_ne_nil
    have hfirst : CharClass.isWord first = true := name.isWord_of_mem first (by simp [hstem])
    rw [spelling, hstem]
    intro heq
    rw [Option.some.inj heq] at hfirst
    revert hfirst
    decide
  exact fun masked => OpenerLine.reaches_plain hplain (.of_line hbreak hhead)

/-! ### Heredocs -/

section Heredocs

variable {m : Heredoc.Mark} {body : Heredoc.Body} {back : Text}

/-- Behind what is no operand a heredoc is opened, and its body is blanked. -/
theorem mask_opened {sign : Char} {tail : Text} (hsign : OpenerLine.isPlain sign = true)
    (hprevious : ((name.spelling ++ [sign]).reverse.dropWhile CharClass.isSpaceOrTab).head?.any
      Heredoc.isOperand = false) (htail : tail = [] ∨ tail = [')']) (hnamed : m.isNamed = true)
    (hbody : body.IsOf m.heredoc) :
    mask (name.spelling ++ sign :: (m.spelling ++
        (tail ++ '\n' :: (body.spelling ++ '\n' :: back)))) =
      name.spelling ++ sign :: (m.spelling ++
        (tail ++ '\n' :: (body.spelling.map blankOf ++ '\n' :: mask back))) := by
  have hend : m.endsBefore tail = true := by
    rcases htail with rfl | rfl
    · simp [Heredoc.Mark.endsBefore]
    · simp [Heredoc.Mark.endsBefore, show CharClass.isWord ')' = false by decide]
  have hplain : ∀ c ∈ tail, OpenerLine.isPlain c = true := by
    rcases htail with rfl | rfl <;> decide
  have hfirst : ¬"=begin".toList <+: tail := by
    rcases htail with rfl | rfl <;> decide
  have hlead : Reaches (start (name.spelling ++ [sign] ++
      (m.spelling ++ (tail ++ '\n' :: (body.spelling ++ '\n' :: back))))) _ :=
    name.crosses_lead hsign _ []
  have hreach := hlead.trans (reaches_opened (by simpa using hprevious) hnamed hend hplain hfirst
    hbody)
  have hmask := mask_eq_append_of_reaches hreach (by simp)
  simpa using hmask

/-- In brackets a heredoc is opened, whatever the name. -/
theorem mask_bracketed_heredoc (name : MethodName) (hnamed : m.isNamed = true)
    (hbody : body.IsOf m.heredoc) (back : Text) :
    mask (name.bracketed m.spelling ++ '\n' :: (body.spelling ++ '\n' :: back)) =
      name.bracketed m.spelling ++ '\n' :: (body.spelling.map blankOf ++ '\n' :: mask back) := by
  have hround : CharClass.isSpaceOrTab '(' = false := by decide
  have hprevious : ((name.spelling ++ ['(']).reverse.dropWhile
      CharClass.isSpaceOrTab).head?.any Heredoc.isOperand = false := by
    rw [List.reverse_concat, List.dropWhile_cons_of_neg (by simp [hround])]
    rfl
  have hmask : mask (name.spelling ++ '(' :: (m.spelling ++
      ([')'] ++ '\n' :: (body.spelling ++ '\n' :: back)))) = _ :=
    mask_opened (by decide) hprevious (.inr rfl) hnamed hbody
  simpa [bracketed] using hmask

/-- Behind a name without a mark the angle signs are operators: their line is shown, and the text
goes on in code. -/
theorem mask_command_operator (hmark : name.mark = none) (hquote : m.quote = none)
    (hnamed : m.isNamed = true) (back : Text) :
    mask (name.command m.spelling ++ '\n' :: back) =
      name.command m.spelling ++ '\n' :: mask back := by
  obtain ⟨word, hspelling, hword⟩ := Heredoc.Mark.exists_word hquote hnamed
  have hoperand : (((name.spelling ++ [' ']).reverse ++ []).dropWhile
      CharClass.isSpaceOrTab).head?.any Heredoc.isOperand = true := by
    rw [List.append_nil, name.behind_command.1, hmark]
    rfl
  have hlead : Crosses [] [] [] (name.spelling ++ [' ']) _ ('<' :: '<' :: word ++ '\n' :: back) :=
    name.crosses_lead (by decide) _
  have hline (more : Text) : name.command m.spelling ++ more =
      name.spelling ++ [' '] ++ '<' :: '<' :: word ++ more := by simp [command, hspelling]
  rw [hline, hline]
  exact mask_line (hlead.append (crosses_operator hoperand hword))

/-- As the argument of a command a heredoc is opened only if the name ends in a mark. Otherwise its
body is read as code. -/
theorem mask_command_heredoc (name : MethodName) (hquote : m.quote = none)
    (hnamed : m.isNamed = true) (hbody : body.IsOf m.heredoc) (back : Text) :
    mask (name.command m.spelling ++ '\n' :: (body.spelling ++ '\n' :: back)) =
      name.command m.spelling ++ '\n' ::
        if name.mark.isSome then body.spelling.map blankOf ++ '\n' :: mask back
        else mask (body.spelling ++ '\n' :: back) := by
  by_cases hmark : name.mark.isSome = true
  · have hprevious : ((name.spelling ++ [' ']).reverse.dropWhile
        CharClass.isSpaceOrTab).head?.any Heredoc.isOperand = false := by
      rw [name.behind_command.1, ← Option.not_isSome, hmark]
      rfl
    have hmask : mask (name.spelling ++ ' ' :: (m.spelling ++
        ([] ++ '\n' :: (body.spelling ++ '\n' :: back)))) = _ :=
      mask_opened (by decide) hprevious (.inl rfl) hnamed hbody
    rw [if_pos hmark]
    simpa [command] using hmask
  · rw [if_neg hmark]
    exact mask_command_operator (by simpa using hmark) hquote hnamed _

/-- No call site starts in the body of a heredoc in brackets. -/
theorem start_of_mem_extract_bracketed (hnamed : m.isNamed = true) (hbody : body.IsOf m.heredoc)
    {s : CallSite} (h : s ∈ CallSite.extract
      (name.bracketed m.spelling ++ '\n' :: (body.spelling ++ '\n' :: back))) :
    s.sourceSpan.start < (name.bracketed m.spelling).length + 1 ∨
      (name.bracketed m.spelling).length + 1 + body.spelling.length ≤ s.sourceSpan.start := by
  have hmask : mask (name.bracketed m.spelling ++ '\n' :: (body.spelling ++ '\n' :: back)) =
      (name.bracketed m.spelling ++ ['\n']) ++
        (body.spelling.map blankOf ++ '\n' :: mask back) := by
    simpa using mask_bracketed_heredoc name hnamed hbody back
  simpa using CallSite.start_of_mask_eq h hmask

end Heredocs

/-! ### Percent literals -/

section PercentLiterals

variable {letter : Option KindLetter} {delimiter : Delimiter}

/-- In brackets a percent literal is opened, whatever the name. -/
theorem mask_bracketed_percent (name : MethodName)
    {body : Phrase (some (.percent letter delimiter))} (hproper : body.isProper none = true)
    (hlines : ¬"\n=begin".toList <:+: body.spelling) (back : Text) :
    mask (name.bracketed ((Opening.percent letter delimiter).spelling ++
        (body.spelling ++ [delimiter.closer])) ++ '\n' :: back) =
      name.bracketed ((Opening.percent letter delimiter).spelling ++
        (body.shown ++ [delimiter.closer])) ++ '\n' :: mask back := by
  have hlead (rest : Text) : Crosses [] [] [] (name.spelling ++ ['(']) _ rest :=
    name.crosses_lead (by decide) rest
  have hliteral (rest : Text) : Crosses [] [] ((name.spelling ++ ['(']).reverse ++ []) _ _ rest :=
    crosses_literal (by simp) hproper hlines
  have hround (before : Text) : Crosses [] [] before [')'] [')'] ('\n' :: back) :=
    fun masked => OpenerLine.reaches_plain (by decide) (.line (by decide) (by decide))
  have hline (argument rest : Text) : name.bracketed argument ++ rest =
      (name.spelling ++ ['(']) ++ (argument ++ [')']) ++ rest := by simp [bracketed]
  rw [hline, hline]
  exact mask_line ((hlead _).append ((hliteral _).append (hround _)))

/-- As the argument of a command a percent literal is not opened. What stands behind the percent
sign is read as code. -/
theorem mask_command_percent (name : MethodName) {code : Phrase none}
    (hproper : code.isProper (some '%') = true) (hlines : ¬"\n=begin".toList <:+: code.spelling)
    (back : Text) :
    mask (name.command ('%' :: code.spelling) ++ '\n' :: back) =
      name.command ('%' :: code.shown) ++ '\n' :: mask back := by
  have hlead : Crosses [] [] [] (name.spelling ++ [' ']) _ ('%' :: code.spelling ++ '\n' :: back) :=
    name.crosses_lead (by decide) _
  have hpercent (rest : Text) : Crosses [] [] ((name.spelling ++ [' ']).reverse ++ []) ['%'] ['%']
      rest := by
    refine crosses_percent ?_
    rw [List.append_nil]
    exact name.behind_command.2
  have hcode : Crosses [] [] ('%' :: ((name.spelling ++ [' ']).reverse ++ [])) code.spelling
      code.shown ('\n' :: back) :=
    code.crosses hproper isCode_nil (by simp) (.of_rest rfl hlines (by decide))
  have hline (more rest : Text) : name.command ('%' :: more) ++ rest =
      name.spelling ++ [' '] ++ '%' :: more ++ rest := by simp [command]
  rw [hline, hline]
  exact mask_line (hlead.append ((hpercent _).cons hcode))

end PercentLiterals

/-! ### All forms of an argument -/

/-- How a literal behind a method name is read. In brackets its body is blanked, and no call site
starts in that of a heredoc. As the argument of a command a heredoc is opened only behind a mark and
a percent literal never; else what was meant as their body is read as code. -/
structure ReadsArguments (name : MethodName) (back : Text) : Prop where
  bracketedHeredoc : ∀ (m : Heredoc.Mark) (body : Heredoc.Body), m.isNamed = true →
    body.IsOf m.heredoc →
    mask (name.bracketed m.spelling ++ '\n' :: (body.spelling ++ '\n' :: back)) =
      name.bracketed m.spelling ++ '\n' :: (body.spelling.map blankOf ++ '\n' :: mask back) ∧
    ∀ s ∈ CallSite.extract
        (name.bracketed m.spelling ++ '\n' :: (body.spelling ++ '\n' :: back)),
      s.sourceSpan.start < (name.bracketed m.spelling).length + 1 ∨
        (name.bracketed m.spelling).length + 1 + body.spelling.length ≤ s.sourceSpan.start
  bracketedPercent : ∀ (letter : Option KindLetter) (delimiter : Delimiter)
      (body : Phrase (some (.percent letter delimiter))), body.isProper none = true →
    ¬"\n=begin".toList <:+: body.spelling →
    mask (name.bracketed ((Opening.percent letter delimiter).spelling ++
        (body.spelling ++ [delimiter.closer])) ++ '\n' :: back) =
      name.bracketed ((Opening.percent letter delimiter).spelling ++
        (body.shown ++ [delimiter.closer])) ++ '\n' :: mask back
  commandHeredoc : ∀ (m : Heredoc.Mark) (body : Heredoc.Body), m.quote = none →
    m.isNamed = true → body.IsOf m.heredoc →
    mask (name.command m.spelling ++ '\n' :: (body.spelling ++ '\n' :: back)) =
      name.command m.spelling ++ '\n' ::
        if name.mark.isSome then body.spelling.map blankOf ++ '\n' :: mask back
        else mask (body.spelling ++ '\n' :: back)
  commandPercent : ∀ code : Phrase none, code.isProper (some '%') = true →
    ¬"\n=begin".toList <:+: code.spelling →
    mask (name.command ('%' :: code.spelling) ++ '\n' :: back) =
      name.command ('%' :: code.shown) ++ '\n' :: mask back

/-- Literals are read this way behind every method name. -/
theorem readsArguments (name : MethodName) (back : Text) : name.ReadsArguments back where
  bracketedHeredoc _ _ hnamed hbody :=
    ⟨mask_bracketed_heredoc name hnamed hbody back,
      fun _ hs => start_of_mem_extract_bracketed hnamed hbody hs⟩
  bracketedPercent _ _ _ hproper hlines := mask_bracketed_percent name hproper hlines back
  commandHeredoc _ _ hquote hnamed hbody := mask_command_heredoc name hquote hnamed hbody back
  commandPercent _ hproper hlines := mask_command_percent name hproper hlines back

/-- Behind a bare name a call in the body of a heredoc or of a percent literal is taken for one; in
brackets neither is. -/
theorem id_extract_command :
    (CallSite.extract "eq <<~TEXT\n  create(:user)\nTEXT\n".toList).map (·.id) =
      ["site:L2:C3:create:user"] ∧
    (CallSite.extract "puts %(create(:user))\n".toList).map (·.id) =
      ["site:L1:C8:create:user"] ∧
    CallSite.extract "eq(<<~TEXT)\n  create(:user)\nTEXT\n".toList = [] ∧
    CallSite.extract "puts(%(create(:user)))\n".toList = [] := by
  decide +kernel

end MethodName

end FactoryDowngrade
