import FactoryDowngrade.Proofs.Ruby.ArgumentLists
import FactoryDowngrade.Proofs.VerbatimArguments

/-!
# Keyword arguments without parentheses

A call without parentheses takes its factory name and the keyword arguments behind it up to the end
of the statement. The end is looked for in the masked text, where a string has blanks for its body
but keeps its line breaks. So the arguments are captured as a whole just when every string stays in
its line and no key is one of the words that end a statement. The first string that breaks its line
ends them right behind its opening quote, and the first such key ends them before it.
-/

namespace FactoryDowngrade

open Scan

/-- A keyword argument whose value is a string. -/
structure KeywordArgument where
  key : Text
  quote : Quote
  body : Text
deriving DecidableEq, Repr

namespace KeywordArgument

/-- The argument up to the quote that opens its value, with the comma in front. -/
def opening (a : KeywordArgument) : Text :=
  ", ".toList ++ (a.key ++ ": ".toList) ++ [a.quote.char]

/-- The argument as it is written. -/
def spelling (a : KeywordArgument) : Text :=
  a.opening ++ (a.body ++ [a.quote.char])

/-- The argument as it is shown, with a blank string. -/
def shown (a : KeywordArgument) : Text :=
  a.opening ++ (a.body.map blankOf ++ [a.quote.char])

/-- The key is a word that may begin a name, and the value ends with its quote and holds no code. -/
structure IsProper (a : KeywordArgument) : Prop where
  key : IsSymbol a.key
  value : Code.IsShownAs (some a.quote) (a.body ++ [a.quote.char])
    (a.body.map blankOf ++ [a.quote.char])

/-- Whether the list ends before the key, for a word that ends statements. -/
def isModified (a : KeywordArgument) : Bool :=
  Statement.modifiers.contains a.key

/-- What the argument list keeps of some arguments, each of which is written in the given way: it
ends before a key that ends statements, and inside a string that breaks its line. -/
def kept (write : KeywordArgument → Text) : List KeywordArgument → Text
  | [] => []
  | a :: rest =>
    if a.isModified then [',']
    else if a.body.contains '\n' then a.opening
    else write a ++ kept write rest

/-! ### What is kept -/

/-- The list keeps equally many characters, however the arguments are written. -/
theorem length_kept (arguments : List KeywordArgument) :
    (kept shown arguments).length = (kept spelling arguments).length := by
  induction arguments with
  | nil => rfl
  | cons a rest ih =>
    rw [kept, kept]
    split
    · rfl
    · split
      · rfl
      · simp only [List.length_append, ih, shown, spelling, List.length_map]

/-- What is kept is the front of the arguments. -/
theorem kept_prefix (write : KeywordArgument → Text)
    (hwrite : ∀ a, [','] <+: write a ∧ a.opening <+: write a) (arguments : List KeywordArgument) :
    kept write arguments <+: arguments.flatMap write := by
  induction arguments with
  | nil => exact List.nil_prefix
  | cons a rest ih =>
    rw [kept, List.flatMap_cons]
    split
    · exact (hwrite a).1.trans (List.prefix_append _ _)
    · split
      · exact (hwrite a).2.trans (List.prefix_append _ _)
      · exact (List.prefix_append_right_inj _).mpr ih

/-- All arguments are kept just when no key ends the statement and no string breaks its line. -/
theorem kept_eq_iff (arguments : List KeywordArgument) :
    kept spelling arguments = arguments.flatMap spelling ↔
      ∀ a ∈ arguments, a.isModified = false ∧ '\n' ∉ a.body := by
  induction arguments with
  | nil => simp [kept]
  | cons a rest ih =>
    have hcut {front : Text} (hlength : front.length < a.spelling.length) :
        front ≠ a.spelling ++ rest.flatMap spelling := by
      rintro rfl
      rw [List.length_append] at hlength
      omega
    rw [kept, List.flatMap_cons, List.forall_mem_cons]
    split
    · rename_i hkey
      have hlength : ([','] : Text).length < a.spelling.length := by
        have hcomma : ", ".toList.length = 2 := rfl
        simp only [spelling, opening, List.length_append, hcomma, List.length_singleton]
        omega
      exact iff_of_false (hcut hlength) (by simp [hkey])
    · rename_i hkey
      split
      · rename_i hbreak
        have hlength : a.opening.length < a.spelling.length := by
          simp only [spelling, List.length_append, List.length_singleton]
          omega
        exact iff_of_false (hcut hlength) (by simp [List.contains_iff_mem.mp hbreak])
      · rename_i hbreak
        rw [List.append_cancel_left_eq, ih]
        simp only [Bool.not_eq_true] at hkey
        simp [hkey, mt List.contains_iff_mem.mpr hbreak]

/-! ### What is shown -/

/-- The arguments are balanced code that shows no body. -/
theorem isShownAs {arguments : List KeywordArgument} (h : ∀ a ∈ arguments, a.IsProper) :
    Code.IsShownAs none (arguments.flatMap spelling) (arguments.flatMap shown) := by
  induction arguments with
  | nil => exact .nil
  | cons a rest ih =>
    obtain ⟨hkey, hvalue⟩ := h a List.mem_cons_self
    have hword : Code.IsShownAs none a.key a.key :=
      .of_plain fun c hc => Code.isPlain_of_isWord (hkey.word c hc)
    have hargument := (Code.IsShownAs.of_plain (by decide : ∀ c ∈ ", ".toList, _)).append
      (hword.append ((Code.IsShownAs.of_plain (by decide : ∀ c ∈ ": ".toList, _)).append
        (.quoted a.quote hvalue)))
    rw [List.flatMap_cons, List.flatMap_cons]
    refine .append ?_ (ih fun b hb => h b (List.mem_cons_of_mem _ hb))
    simpa [spelling, shown, opening] using hargument

/-- No line of what is shown begins a block comment, as no sign of equality is shown. -/
theorem not_infix_shown {arguments : List KeywordArgument} (h : ∀ a ∈ arguments, a.IsProper) :
    ¬"\n=begin".toList <:+: arguments.flatMap shown := by
  intro hcomment
  have hmem : '=' ∈ arguments.flatMap shown := hcomment.subset (by decide)
  obtain ⟨a, ha, hmem⟩ := List.mem_flatMap.mp hmem
  have hquote : '=' ≠ a.quote.char := by
    cases a.quote <;> decide
  simp only [shown, opening, List.mem_append, List.mem_singleton, List.mem_map, hquote, or_false]
    at hmem
  rcases hmem with (hmem | hmem | hmem) | ⟨c, -, hc⟩
  · exact absurd hmem (by decide)
  · exact absurd ((h a ha).key.word _ hmem) (by decide)
  · exact absurd hmem (by decide)
  · unfold blankOf at hc
    split at hc <;> exact absurd hc (by decide)

/-! ### Where the list ends -/

open Statement

/-- A quote is neither a blank nor a letter of a modifier, and ends no statement. -/
theorem quote_solid (q : Quote) : CharClass.isSpaceOrTab q.char = false ∧
    q.char ∉ ['i', 'u', 'w', 'r', 'd'] ∧ q.char ≠ ';' ∧ CharClass.isBlank q.char = false ∧
    q.char ≠ ',' ∧ q.char ≠ '\\' ∧ isTrailing q.char = false := by
  cases q <;> decide

/-- A list goes over an argument up to the quote that opens its value, if the key ends no
statement. -/
theorem reach_opening {a : KeywordArgument} (ha : a.IsProper) (hkey : a.isModified = false)
    (passed rest : Text) :
    reach passed 0 (a.opening ++ rest) =
      a.opening.length + reach (a.opening.reverse ++ passed) 0 rest := by
  have hsplit : a.opening ++ rest =
      ',' :: ' ' :: (a.key ++ ':' :: ([' '] ++ a.quote.char :: rest)) := by
    simp [opening]
  have hmodifier (more : Text) : modifierAhead (' ' :: (a.key ++ ':' :: more)) = false :=
    (modifierAhead_word ha.key.word ha.key.ne_nil (by rfl)).trans hkey
  obtain ⟨hblank, hletter, hend, hsolid, -⟩ := quote_solid a.quote
  rw [hsplit, reach_solid rfl (by decide) (by decide), reach_space (hmodifier _),
    reach_word ha.key.word, reach_solid rfl (by decide) (by decide),
    reach_blanks (by decide) (by decide) hblank hletter,
    reach_solid a.quote.ofChar_char hend hsolid]
  simp only [opening, List.length_append, List.reverse_append, List.length_singleton,
    List.reverse_singleton, List.append_assoc, List.cons_append, List.nil_append]
  have hcomma : ", ".toList = [',', ' '] := rfl
  have hcolon : ": ".toList = [':', ' '] := rfl
  rw [hcomma, hcolon]
  simp only [List.reverse_cons, List.reverse_nil, List.length_cons, List.length_nil,
    List.nil_append, List.cons_append]
  omega

/-- Blanks stand for a body of one line. -/
theorem isSpace_of_mem_map {body : Text} (hline : '\n' ∉ body) {c : Char}
    (hc : c ∈ body.map blankOf) : c = ' ' := by
  rw [map_blankOf hline] at hc
  exact List.eq_of_mem_replicate hc

/-- A list goes over a body of one line, behind which a quote or a line break stands. -/
theorem reach_body {body : Text} (hline : '\n' ∉ body) {c : Char}
    (hspace : CharClass.isSpaceOrTab c = false) (hc : c ∉ ['i', 'u', 'w', 'r', 'd'])
    (passed rest : Text) :
    reach passed 0 (body.map blankOf ++ c :: rest) =
      (body.map blankOf).length + reach ((body.map blankOf).reverse ++ passed) 0 (c :: rest) := by
  refine reach_blanks (fun x hx => ?_) (fun hx => ?_) hspace hc passed 0 rest
  · rw [isSpace_of_mem_map hline hx]
    rfl
  · exact absurd (isSpace_of_mem_map hline hx) (by decide)

/-- A string that breaks its line ends the list there, and nothing of its body is kept. -/
theorem endsBehind_break {body : Text} (hbreak : '\n' ∈ body) (q : Quote) (passed more : Text) :
    EndsBehind (q.char :: passed) [] (body.map blankOf ++ more) := by
  obtain ⟨line, rest, rfl, hline⟩ := List.eq_append_cons_of_mem hbreak
  obtain ⟨-, -, -, hsolid, hcomma, hescape, -⟩ := quote_solid q
  have hspaces (c : Char) (hc : c ∈ line.map blankOf) :
      isTrailing c = true ∧ CharClass.isBlank c = true := by
    rw [isSpace_of_mem_map hline hc]
    decide
  have hsplit : (line ++ '\n' :: rest).map blankOf ++ more =
      line.map blankOf ++ '\n' :: (rest.map blankOf ++ more) := by
    simp [blankOf]
  have hstop : continues ((line.map blankOf).reverse ++ q.char :: passed) = false := by
    rw [continues_blanks fun c hc => (hspaces c (List.mem_reverse.mp hc)).2]
    exact continues_eq_false hsolid hcomma hescape passed
  refine ⟨line.map blankOf, '\n' :: (rest.map blankOf ++ more), hsplit,
    fun c hc => (hspaces c hc).1, ?_⟩
  rw [hsplit, reach_body hline (by decide) (by decide), reach_lineBreak hstop, List.length_nil,
    Nat.add_zero, Nat.zero_add]

/-- The list of some arguments in a statement keeps what is shown of the arguments to be kept. -/
theorem endsBehind_shown {arguments : List KeywordArgument} (h : ∀ a ∈ arguments, a.IsProper)
    {passed : Text} (hpassed : continues passed = false) (more : Text) :
    EndsBehind passed (kept shown arguments) (arguments.flatMap shown ++ '\n' :: more) := by
  induction arguments generalizing passed with
  | nil => exact .nil (reach_lineBreak hpassed more)
  | cons a rest ih =>
    have ha := h a List.mem_cons_self
    obtain ⟨hspace, hletter, hend, hsolid, hcomma, hescape, -⟩ := quote_solid a.quote
    have hopening : a.opening.reverse ++ passed =
        a.quote.char :: ((", ".toList ++ (a.key ++ ": ".toList)).reverse ++ passed) := by
      simp [opening]
    rw [kept, List.flatMap_cons, List.append_assoc]
    split
    · -- the list goes over the comma and ends before the key
      rename_i hkey
      have hsplit : a.shown ++ (rest.flatMap shown ++ '\n' :: more) =
          [','] ++ ' ' :: (a.key ++ ':' :: ([' '] ++ a.quote.char :: (a.body.map blankOf ++
            a.quote.char :: (rest.flatMap shown ++ '\n' :: more)))) := by
        simp [shown, opening]
      have hmodifier : modifiers.contains a.key = true := hkey
      rw [hsplit]
      refine .stop ?_ (.nil (reach_cons_of_none (depthBehind?_ends rfl ?_)))
      · rw [List.singleton_append, reach_solid rfl (by decide) (by decide), Nat.add_comm]
        rfl
      · rw [endsBefore, modifierAhead_word ha.key.word ha.key.ne_nil (by rfl), hmodifier]
        rfl
    rename_i hkey
    rw [Bool.not_eq_true] at hkey
    split
    · rename_i hbreak
      rw [shown, List.append_assoc, List.append_assoc]
      refine .stop (reach_opening ha hkey passed _) ?_
      rw [hopening]
      exact endsBehind_break (List.contains_iff_mem.mp hbreak) a.quote _ _
    · rename_i hbreak
      have hline : '\n' ∉ a.body := mt List.contains_iff_mem.mpr hbreak
      have hgoes := reach_solid a.quote.ofChar_char hend hsolid
        ((a.body.map blankOf).reverse ++ (a.opening.reverse ++ passed)) 0
        (rest.flatMap shown ++ '\n' :: more)
      have hreverse : a.shown.reverse ++ passed = a.quote.char ::
          ((a.body.map blankOf).reverse ++ (a.opening.reverse ++ passed)) := by
        simp [shown]
      refine .append ?_ (ih (fun b hb => h b (List.mem_cons_of_mem _ hb)) ?_)
      · rw [hreverse, shown, List.append_assoc, List.append_assoc, List.singleton_append,
          reach_opening ha hkey, reach_body hline hspace hletter, hgoes]
        simp only [List.length_append, List.length_singleton]
        omega
      · rw [hreverse]
        exact continues_eq_false hsolid hcomma hescape _

/-- What is kept of some arguments does not end with a blank. -/
theorem isTrailing_getLast?_kept (arguments : List KeywordArgument) :
    (kept shown arguments).getLast?.all (fun c => !isTrailing c) = true := by
  induction arguments with
  | nil => rfl
  | cons a rest ih =>
    obtain ⟨-, -, -, -, -, -, htrailing⟩ := quote_solid a.quote
    rw [kept]
    split
    · rfl
    · split
      · rw [opening, List.getLast?_concat]
        simpa using htrailing
      · rw [List.getLast?_append]
        cases hlast : (kept shown rest).getLast? with
        | none => simp [shown, htrailing]
        | some c =>
          rw [hlast] at ih
          exact ih

/-- A list that begins with a symbol and goes on with some arguments keeps what is to be kept. -/
theorem argumentLength_arguments {name : Text} (hname : IsSymbol name)
    {arguments : List KeywordArgument} (h : ∀ a ∈ arguments, a.IsProper) (more : Text) :
    argumentLength (':' :: name ++ (arguments.flatMap shown ++ '\n' :: more)) =
      (':' :: name ++ kept shown arguments).length := by
  have hsolid (c : Char) (hc : c ∈ name) :
      CharClass.isBlank c = false ∧ c ≠ ',' ∧ c ≠ '\\' ∧ isTrailing c = false := by
    have hothers : ∀ x ∈ [',', '\\', ' ', '\t', '\r', '\n'], CharClass.isWord x = false := by decide
    have hnot := notMem_of_accepted hothers (hname.word c hc)
    simp only [List.mem_cons, List.not_mem_nil, or_false, not_or] at hnot
    refine ⟨CharClass.isBlank_eq_false_of_isWord (hname.word c hc), hnot.1, hnot.2.1, ?_⟩
    simp [isTrailing, hnot]
  obtain ⟨init, last, hlast⟩ : ∃ init last, name = init ++ [last] :=
    ⟨_, _, (List.dropLast_concat_getLast hname.ne_nil).symm⟩
  obtain ⟨hblank, hcomma, hescape, htrailing⟩ := hsolid last (hlast ▸ by simp)
  have hpassed : continues ((':' :: name).reverse ++ []) = false := by
    have hreverse : (':' :: name).reverse ++ [] = last :: (init.reverse ++ [':']) := by
      rw [hlast]
      simp
    rw [hreverse]
    exact continues_eq_false hblank hcomma hescape _
  have hends : EndsBehind [] ((':' :: name) ++ kept shown arguments)
      ((':' :: name) ++ (arguments.flatMap shown ++ '\n' :: more)) := by
    refine .append ?_ (endsBehind_shown h hpassed more)
    rw [List.cons_append, reach_solid rfl (by decide) (by decide), reach_word hname.word]
    simp only [List.length_cons, List.reverse_cons, List.append_nil]
    omega
  -- the list ends with an argument, or with the name
  have hend := isTrailing_getLast?_kept arguments
  cases hkept : (kept shown arguments).getLast? with
  | none =>
    refine hends.argumentLength_eq ?_ htrailing
    rw [List.getLast?_append, hkept, hlast, ← List.cons_append, List.getLast?_concat]
    rfl
  | some c =>
    rw [hkept] at hend
    refine hends.argumentLength_eq ?_ ((Bool.not_eq_true' _).mp hend)
    rw [List.getLast?_append, hkept]
    rfl

end KeywordArgument

namespace CallSite

open KeywordArgument Statement

/-- A call without parentheses with a factory name and keyword arguments, and what follows on the
next line. -/
def statement (name : Text) (arguments : List KeywordArgument) (back : Text) : Text :=
  ("create :".toList ++ name) ++ (arguments.flatMap spelling ++ '\n' :: back)

/-- The mask of the statement shows its arguments. -/
theorem exists_mask_statement {name : Text} (hname : IsSymbol name)
    {arguments : List KeywordArgument} (h : ∀ a ∈ arguments, a.IsProper) (back : Text) :
    ∃ more, mask (statement name arguments back) =
      ("create :".toList ++ name) ++ (arguments.flatMap shown ++ '\n' :: more) := by
  have hletter : ∀ c ∈ "create :".toList, Phrase.isPlain c = true ∧ c ≠ '\n' := by decide
  have hbreak (before : Text) : Crosses [] [] before ['\n'] ['\n'] back :=
    crosses_plain isCode_nil (by decide) (.of_line (by simp) (by simp))
  have htop : IsTopLevelAt ([] ++ (("create :".toList ++ name) ++
      (arguments.flatMap spelling ++ '\n' :: back))) 0 :=
    ⟨Scan.start _, .refl _, rfl, rfl⟩
  have hsplit : statement name arguments back =
      [] ++ (("create :".toList ++ name) ++ (arguments.flatMap spelling ++ '\n' :: back)) := rfl
  obtain ⟨more, hmore⟩ := exists_mask_of_isShownAs (.inl rfl) htop (fun c hc =>
    (List.mem_append.mp hc).elim (hletter c) fun hc => Phrase.isPlain_of_isWord (hname.word c hc))
    (by simp) (by simp) (isShownAs h) (not_infix_shown h) (by decide) hbreak
  have hnone : mask [] = [] := rfl
  exact ⟨more, by rw [hsplit, hmore, hnone, List.nil_append]⟩

/-- A head behind which a space leads to a factory name begins a call with the list that begins
there. -/
theorem Head.call?_of_space {h : Head} {rest : Text} (hhead : h.isDefinition = false)
    (hafter : h.last.after = ' ' :: rest)
    (hspace : rest.head?.any CharClass.isSpaceOrTab = false) {text : Text}
    (hname : beginsName (text.drop (h.last.offset + 1)) = true) :
    h.call? text = some (h.call text (h.last.offset + 1)
      (h.last.offset + 1 + argumentLength rest) (h.last.offset + 1 + argumentLength rest)) :=
  have hgap : h.last.after = [' '] ++ rest := hafter
  Head.call?_eq_some_iff.mpr ⟨hhead, .bare hgap (by decide) (by decide) hspace hname⟩

/-- A symbol begins a factory name. -/
theorem beginsName_symbol {name : Text} (hname : IsSymbol name) (rest : Text) :
    beginsName (':' :: (name ++ rest)) = true := by
  obtain ⟨x, letters, rfl⟩ := List.exists_cons_of_ne_nil hname.ne_nil
  have hx : (x == ':') = false := by
    rw [beq_eq_false_iff_ne]
    rintro rfl
    exact absurd (hname.word ':' List.mem_cons_self) (by decide)
  rw [List.cons_append, beginsName_cons]
  simp [hx]

/-- The call of the statement. -/
def listed (name : Text) (arguments : List KeywordArgument) : Call where
  variant := .create
  start := 0
  stop := 7 + (':' :: name ++ kept spelling arguments).length
  calleeStart := 0
  calleeStop := 6
  argsStart := 7
  argsStop := 7 + (':' :: name ++ kept spelling arguments).length
  schemaName := some name
  fault := none

section Statement

variable {name : Text} {arguments : List KeywordArgument}

/-- Behind the method name the statement begins with what is kept. -/
theorem exists_statement_eq (name : Text) (arguments : List KeywordArgument) (back : Text) :
    ∃ rest, statement name arguments back =
      "create ".toList ++ ((':' :: name ++ kept spelling arguments) ++ rest) := by
  obtain ⟨rest, hkept⟩ := kept_prefix spelling
    (fun a => ⟨⟨_, rfl⟩, List.prefix_append _ _⟩) arguments
  refine ⟨rest ++ '\n' :: back, ?_⟩
  unfold statement
  rw [← hkept]
  simp only [List.append_assoc]
  rfl

/-- Behind the method name are the factory name and the kept arguments. -/
theorem slice_statement (name : Text) (arguments : List KeywordArgument) (back : Text) :
    (statement name arguments back).slice 7 (7 + (':' :: name ++ kept spelling arguments).length) =
      ':' :: name ++ kept spelling arguments := by
  obtain ⟨rest, hrest⟩ := exists_statement_eq name arguments back
  have hmethod : "create ".toList.length = 7 := rfl
  rw [hrest, ← hmethod, slice_append]

/-- A factory name begins behind the method name. -/
theorem beginsName_statement (hname : IsSymbol name) (arguments : List KeywordArgument)
    (back : Text) : beginsName ((statement name arguments back).drop 7) = true := by
  obtain ⟨rest, hrest⟩ := exists_statement_eq name arguments back
  have hdrop : (statement name arguments back).drop 7 =
      ':' :: (name ++ (kept spelling arguments ++ rest)) := by
    rw [hrest, ← List.append_assoc]
    simp
  rw [hdrop, beginsName_symbol hname]

/-- What is kept goes on behind the name with a comma, if at all. -/
theorem head?_kept (arguments : List KeywordArgument) :
    (kept spelling arguments).head?.any CharClass.isWord = false := by
  cases arguments with
  | nil => rfl
  | cons a rest =>
    rw [kept]
    split
    · rfl
    · split <;> rfl

/-- The call of the statement is found. -/
theorem listed_mem_calls (hname : IsSymbol name) (h : ∀ a ∈ arguments, a.IsProper) (back : Text) :
    listed name arguments ∈ calls (statement name arguments back)
      (mask (statement name arguments back)) := by
  obtain ⟨more, hmask⟩ := exists_mask_statement hname h back
  obtain ⟨after, hafter⟩ : ∃ after, after =
      ':' :: name ++ (arguments.flatMap shown ++ '\n' :: more) := ⟨_, rfl⟩
  have hsplit : mask (statement name arguments back) = "create".toList ++ ' ' :: after := by
    rw [hmask, hafter, List.append_assoc]
    rfl
  have hmem : creatingHead [] (' ' :: after) ∈ heads (mask (statement name arguments back)) := by
    rw [hsplit]
    exact @creatingHead_mem_heads [] _ rfl (by simp [Text.trimRight]) (.inr rfl)
  have hdefinition : (creatingHead [] (' ' :: after)).isDefinition = false :=
    @isDefinition_creatingHead [] _ rfl
  have hoffset : (creatingHead [] (' ' :: after)).last.offset = 6 := rfl
  have hspace : after.head?.any CharClass.isSpaceOrTab = false := by
    rw [hafter]
    rfl
  have hlength : argumentLength after = (':' :: name ++ kept spelling arguments).length := by
    rw [hafter, argumentLength_arguments hname h, List.length_append, List.length_append,
      length_kept]
  refine List.mem_filterMap.mpr ⟨_, hmem, ?_⟩
  have hbegins : beginsName ((statement name arguments back).drop
      ((creatingHead [] (' ' :: after)).last.offset + 1)) = true := by
    rw [hoffset]
    exact beginsName_statement hname arguments back
  have hread := Head.call?_of_space hdefinition rfl hspace hbegins
  rw [hread, hoffset, hlength, Head.call, slice_statement, List.cons_append,
    factoryName?_symbol hname (head?_kept arguments)]
  rfl

/-- The first site of the text is the call of the statement, and has for arguments what is kept of
them: all of them just when no key ends the statement and no string breaks its line. -/
theorem exists_head?_extract_statement (hname : IsSymbol name) (h : ∀ a ∈ arguments, a.IsProper)
    (back : Text) :
    ∃ s, (extract (statement name arguments back)).head? = some s ∧ s.sourceSpan.start = 0 ∧
      s.schemaName = some name ∧ s.fault = none ∧
      s.argumentText = ':' :: (name ++ kept spelling arguments) ∧
      (s.argumentText = ':' :: (name ++ arguments.flatMap spelling) ↔
        ∀ a ∈ arguments, a.isModified = false ∧ '\n' ∉ a.body) := by
  obtain ⟨others, hfirst⟩ := exists_calls_eq_cons (listed_mem_calls hname h back)
    fun other _ => Nat.zero_le other.start
  have hcaptured : (siteOf (statement name arguments back) (listed name arguments)).argumentText =
      ':' :: (name ++ kept spelling arguments) := slice_statement name arguments back
  refine ⟨_, ?_, rfl, rfl, rfl, hcaptured, ?_⟩
  · rw [extract_eq_map, hfirst]
    rfl
  · rw [hcaptured, ← kept_eq_iff, List.cons.injEq, List.append_cancel_left_eq]
    exact and_iff_right rfl

/-- Arguments with an escaped quote, and with what would end the list if it stood in code. -/
def escaped : List KeywordArgument :=
  [⟨"name".toList, .double, "a ".toList ++ '\\' :: '"' :: " if 'b".toList⟩,
    ⟨"note".toList, .single, "c)".toList⟩]

/-- All of these arguments are captured. -/
theorem exists_head?_extract_statement_escaped :
    IsSymbol "user".toList ∧ (∀ a ∈ escaped, a.IsProper) ∧
    ∃ s, (extract (statement "user".toList escaped "post\n".toList)).head? = some s ∧
      s.sourceSpan.start = 0 ∧ s.schemaName = some "user".toList ∧ s.fault = none ∧
      s.argumentText = ":user, name: \"a \\\" if 'b\", note: 'c)'".toList := by
  have hname : IsSymbol "user".toList := ⟨by decide, by decide⟩
  have hend : Code.IsShownAs (some .double) (" if 'b".toList ++ ['"'])
      (" if 'b".toList.map blankOf ++ ['"']) := .of_inside (by decide) (.closing .double)
  have hstring : Code.IsShownAs (some .double) ("a ".toList ++ _)
      ("a ".toList.map blankOf ++ _) := .of_inside (by decide) (.escaped '"' hend)
  have hproper : ∀ a ∈ escaped, a.IsProper := by
    rintro a ha
    rcases List.mem_pair.mp ha with rfl | rfl
    · exact ⟨⟨by decide, by decide⟩, hstring⟩
    · exact ⟨⟨by decide, by decide⟩, .of_inside (by decide) (.closing .single)⟩
  obtain ⟨s, hs, hstart, hschema, hfault, -, hcaptured⟩ :=
    exists_head?_extract_statement hname hproper "post\n".toList
  have hwhole : ∀ a ∈ escaped, a.isModified = false ∧ '\n' ∉ a.body := by decide
  have hspelled : ':' :: ("user".toList ++ escaped.flatMap spelling) =
      ":user, name: \"a \\\" if 'b\", note: 'c)'".toList := by decide
  exact ⟨hname, hproper, s, hs, hstart, hschema, hfault, (hcaptured.mpr hwhole).trans hspelled⟩

/-- A string of two lines is cut behind its quote, and a key named `if` ends the list. -/
theorem argumentText_extract_cut : (extract "create :user, name: \"a\n b\"\n".toList ++
      extract "create :user, if: 'x'\n".toList).map (String.ofList ·.argumentText) =
    [":user, name: \"", ":user,"] := by
  decide +kernel

end Statement

end CallSite

end FactoryDowngrade
