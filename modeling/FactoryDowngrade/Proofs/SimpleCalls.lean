import FactoryDowngrade.Proofs.KeywordArguments
import FactoryDowngrade.Proofs.Ruby.BlockTrees

/-!
# Calls with simple arguments

A call of `create` with a factory symbol and some arguments without blanks and brackets in them is
written with parentheses or without. No keyword begins in it, and nothing of it is masked. With
parentheses the call ends with the closing one. Without them it ends where its statement does, and
takes what else stands in the statement.
-/

namespace FactoryDowngrade

open CallSite Statement

/-- Characters of simple arguments: no blanks, no brackets, nothing that opens a literal, a comment
or a heredoc, and nothing that ends or continues a statement. -/
def isSimple (c : Char) : Bool :=
  Code.isPlain c && !CharClass.isBlank c && !(['=', ';', ',', '\\'].contains c)

/-- The signs with which literals, comments and heredocs begin. -/
def maskSigns : List Char :=
  ['"', '\'', '\x60', '#', '%', '<', '=']

/-- An argument such as a symbol, a number or an identifier. None of its words is a keyword. -/
structure IsSimpleArgument (argument : Text) : Prop where
  nonempty : argument ≠ []
  simple : ∀ c ∈ argument, isSimple c = true
  unmodified : modifiers.contains (argument.takeWhile CharClass.isWord) = false
  keywordFree : Block.IsKeywordFree argument

/-- A call with its arguments, and whether they stand in parentheses. -/
structure SimpleCall where
  factory : Text
  arguments : List Text
  parenthesized : Bool
deriving DecidableEq, Repr

namespace SimpleCall

/-- Arguments with the separators before them. -/
def separated : List Text → Text
  | [] => []
  | argument :: rest => ", ".toList ++ (argument ++ separated rest)

/-- The argument list. -/
def listed (c : SimpleCall) : Text :=
  ':' :: (c.factory ++ separated c.arguments)

/-- What stands between the method name and the list. -/
def opening (c : SimpleCall) : Char :=
  if c.parenthesized then '(' else ' '

/-- What stands behind the list. -/
def closing (c : SimpleCall) : Text :=
  if c.parenthesized then [')'] else []

/-- The call as it is written. -/
def text (c : SimpleCall) : Text :=
  "create".toList ++ c.opening :: (c.listed ++ c.closing)

/-- A call begins with its method. -/
theorem text_eq (c : SimpleCall) :
    c.text = "create".toList ++ c.opening :: (c.listed ++ c.closing) := rfl

/-- The factory name is a symbol, and the arguments are simple. -/
structure IsProper (c : SimpleCall) : Prop where
  factory : IsSymbol c.factory
  arguments : ∀ argument ∈ c.arguments, IsSimpleArgument argument

/-! ### Characters -/

/-- Word characters are simple. -/
theorem isSimple_of_isWord {c : Char} (hc : CharClass.isWord c = true) : isSimple c = true := by
  have hothers : ∀ x ∈ ['=', ';', ',', '\\'], CharClass.isWord x = false := by decide
  have hnot := notMem_of_accepted hothers hc
  simp [isSimple, Code.isPlain_of_isWord hc, CharClass.isBlank_eq_false_of_isWord hc,
    List.contains_eq_mem, hnot]

/-- Simple characters are plain code, no blanks, and no marks of a statement. -/
theorem isPlain_of_isSimple {c : Char} (hc : isSimple c = true) :
    Code.isPlain c = true ∧ CharClass.isBlank c = false ∧ c ∉ ['=', ';', ',', '\\'] := by
  simpa [isSimple, and_assoc] using hc

/-- A list goes over an argument if what stands behind goes on with no word. -/
theorem reach_argument {a rest : Text} (ha : IsSimpleArgument a)
    (hrest : rest.head?.any CharClass.isWord = false) (passed : Text) :
    reach passed 0 (", ".toList ++ (a ++ rest)) =
      a.length + 2 + reach (a.reverse ++ ' ' :: ',' :: passed) 0 rest := by
  have hletters (passed : Text) : reach passed 0 (a ++ rest) =
      a.length + reach (a.reverse ++ passed) 0 rest := by
    refine reach_stretch (fun x hx => ?_) fun before x after hsplit => ?_
    · exact Code.ofChar_of_isPlain (isPlain_of_isSimple (ha.simple x hx)).1
    · obtain ⟨-, hblank, hmark⟩ := isPlain_of_isSimple (ha.simple x (by rw [hsplit]; simp))
      refine endsBefore_eq_false_of_solid ?_ hblank _ _
      rintro rfl
      exact hmark (by decide)
  have hmodifier : modifierAhead (' ' :: (a ++ rest)) = false := by
    obtain ⟨x, letters, rfl⟩ := List.exists_cons_of_ne_nil ha.nonempty
    have hblank := (isPlain_of_isSimple (ha.simple x List.mem_cons_self)).2.1
    have hspace := CharClass.isSpaceOrTab_eq_false hblank
    have hword := ha.unmodified
    rw [← Block.takeWhile_isWord_append hrest] at hword
    rwa [modifierAhead, List.dropWhile_cons_of_pos (by rfl), List.cons_append,
      List.dropWhile_cons_of_neg (by simp [hspace]), ← List.cons_append]
  have hcomma : ", ".toList ++ (a ++ rest) = ',' :: ' ' :: (a ++ rest) := rfl
  rw [hcomma, reach_solid rfl (by decide) (by decide), reach_space hmodifier, hletters]
  omega

/-- What has only simple characters ends with one. -/
theorem exists_eq_concat_of_simple {word : Text} (hword : ∀ x ∈ word, isSimple x = true)
    (hnonempty : word ≠ []) : ∃ init last, word = init ++ [last] ∧ isSimple last = true :=
  ⟨_, _, (List.dropLast_concat_getLast hnonempty).symm, hword _ (List.getLast_mem _)⟩

section Separated

variable {arguments : List Text} (harguments : ∀ a ∈ arguments, IsSimpleArgument a)

include harguments

/-- Arguments hold simple characters and the separators. -/
theorem mem_separated {x : Char} (hx : x ∈ separated arguments) :
    isSimple x = true ∨ x ∈ ", ".toList := by
  induction arguments with
  | nil => cases hx
  | cons a arguments ih =>
    obtain ⟨ha, hmore⟩ := List.forall_mem_cons.mp harguments
    rcases List.mem_append.mp hx with hx | hx
    · exact .inr hx
    · rcases List.mem_append.mp hx with hx | hx
      · exact .inl (ha.simple x hx)
      · exact ih hmore hx

/-- Arguments end with a simple character if they stand behind one. -/
theorem exists_append_separated_eq_concat {front : Text}
    (hfront : ∃ init last, front = init ++ [last] ∧ isSimple last = true) :
    ∃ init last, front ++ separated arguments = init ++ [last] ∧ isSimple last = true := by
  induction arguments generalizing front with
  | nil => simpa [separated] using hfront
  | cons a arguments ih =>
    obtain ⟨ha, hmore⟩ := List.forall_mem_cons.mp harguments
    obtain ⟨init, last, hsplit, hsimple⟩ := exists_eq_concat_of_simple ha.simple ha.nonempty
    have hall := ih hmore ⟨front ++ (", ".toList ++ init), last, rfl, hsimple⟩
    simpa [separated, hsplit] using hall

/-- No keyword begins in arguments, nor at their end if what is behind them goes on with no
word. -/
theorem isKeywordFree_separated {rest : Text} (hfree : Block.IsKeywordFree rest)
    (hend : Block.endsKeyword rest = true) :
    Block.IsKeywordFree (separated arguments ++ rest) ∧
      Block.endsKeyword (separated arguments ++ rest) = true := by
  induction arguments with
  | nil => exact ⟨hfree, hend⟩
  | cons a arguments ih =>
    obtain ⟨ha, hmore⟩ := List.forall_mem_cons.mp harguments
    obtain ⟨hfree, hend⟩ := ih hmore
    have hall := (Block.IsKeywordFree.behind (u := ", ".toList) (by decide) (by decide)
      ha.keywordFree).append hfree hend
    exact ⟨by simpa [separated] using hall, rfl⟩

/-- A list goes over arguments if what stands behind them goes on with no word. -/
theorem reach_separated {rest : Text} (hrest : rest.head?.any CharClass.isWord = false)
    (passed : Text) : reach passed 0 (separated arguments ++ rest) =
      (separated arguments).length + reach ((separated arguments).reverse ++ passed) 0 rest := by
  induction arguments generalizing passed with
  | nil => simp [separated]
  | cons a arguments ih =>
    obtain ⟨ha, hmore⟩ := List.forall_mem_cons.mp harguments
    have hedge : (separated arguments ++ rest).head?.any CharClass.isWord = false := by
      cases arguments with
      | nil => exact hrest
      | cons b arguments => rfl
    have hcomma : ", ".toList.length = 2 := rfl
    have hreverse : (separated (a :: arguments)).reverse ++ passed =
        (separated arguments).reverse ++ (a.reverse ++ ' ' :: ',' :: passed) := by
      simp [separated]
    rw [hreverse, separated, List.append_assoc, List.append_assoc, reach_argument ha hedge,
      ih hmore]
    simp only [List.length_append, hcomma]
    omega

end Separated

section Proper

variable {c : SimpleCall} (hc : c.IsProper)

include hc

/-- A list holds simple characters and the separators. -/
theorem mem_listed {x : Char} (hx : x ∈ c.listed) : isSimple x = true ∨ x ∈ ", ".toList := by
  rcases List.mem_cons.mp hx with rfl | hx
  · exact .inl (by decide)
  rcases List.mem_append.mp hx with hx | hx
  · exact .inl (isSimple_of_isWord (hc.factory.word x hx))
  · exact mem_separated hc.arguments hx

/-- It ends with a simple one. -/
theorem exists_listed_eq_concat :
    ∃ init last, c.listed = init ++ [last] ∧ isSimple last = true := by
  obtain ⟨init, last, hsplit, hsimple⟩ := exists_eq_concat_of_simple
    (fun x hx => isSimple_of_isWord (hc.factory.word x hx)) hc.factory.ne_nil
  have hfront : ':' :: c.factory = (':' :: init) ++ [last] := by
    rw [hsplit]
    rfl
  exact exists_append_separated_eq_concat hc.arguments ⟨_, _, hfront, hsimple⟩

/-- A call stands on one line, and nothing in it is masked. -/
theorem mem_text {x : Char} (hx : x ∈ c.text) : x ∉ '\n' :: maskSigns := by
  have hletters : ∀ x ∈ "create".toList ++ ['(', ')', ',', ' '], x ∉ '\n' :: maskSigns := by decide
  rcases List.mem_append.mp hx with hx | hx
  · exact hletters x (List.mem_append_left _ hx)
  rcases List.mem_cons.mp hx with rfl | hx
  · rw [opening]
    split <;> decide
  rcases List.mem_append.mp hx with hx | hx
  · rcases mem_listed hc hx with hx | hx
    · exact notMem_of_accepted (by decide) hx
    · exact hletters x (List.mem_append_right _ (List.mem_of_mem_drop (i := 2) hx))
  · rw [closing] at hx
    split at hx
    · exact hletters x (by simp [List.mem_singleton.mp hx])
    · cases hx

/-- A list is nested code. -/
theorem isNested_listed : Bracket.IsNested c.listed := by
  refine .of_plain fun x hx => ?_
  rcases mem_listed hc hx with hx | hx
  · exact Code.ofChar_of_isPlain (isPlain_of_isSimple hx).1
  · exact (by decide : ∀ x ∈ ", ".toList, BracketRole.ofChar x = .plain) x hx

/-- So is a call. -/
theorem isNested_text : Bracket.IsNested c.text := by
  have hmethod : Bracket.IsNested "create".toList := .of_plain (by decide)
  rw [text_eq, opening, closing]
  split
  · exact hmethod.append ((isNested_listed hc).group .round)
  · have hspace : Bracket.IsNested [' '] := .singleton rfl
    simpa using hmethod.append (hspace.append (isNested_listed hc))

/-! ### Keywords -/

/-- No keyword begins in a call. -/
theorem isKeywordFree_text : Block.IsKeywordFree c.text := by
  have hclosing : Block.IsKeywordFree c.closing ∧ Block.endsKeyword c.closing = true := by
    rw [closing]
    split
    · exact ⟨.of_not_isWord (by decide), rfl⟩
    · exact ⟨.of_not_isWord (by simp), rfl⟩
  obtain ⟨htail, hend⟩ := isKeywordFree_separated hc.arguments hclosing.1 hclosing.2
  have hopening : Block.IsKeywordFree ([c.opening] ++ ':' :: c.factory) := by
    have hname := Block.IsKeywordFree.spoiled (c := ':') (by decide) (by decide) hc.factory.word
    rw [opening]
    split <;> exact .behind (by decide) (by decide) hname
  have hends : Block.endsKeyword ([c.opening] ++ ':' :: c.factory) = true := by
    rw [opening]
    split <;> rfl
  have hmethod : Block.IsKeywordFree "create".toList := by decide
  have hall := (hmethod.append hopening hends).append htail hend
  simpa [text_eq, listed] using hall

/-- A call as code that opens and closes no block. -/
def quiet : Block.Quiet :=
  ⟨c.text, fun hbreak => mem_text hc hbreak List.mem_cons_self, isKeywordFree_text hc⟩

/-! ### Argument lists -/

/-- A list in a statement goes over simple arguments. -/
theorem reach_listed {rest : Text} (hrest : rest.head?.any CharClass.isWord = false)
    (passed : Text) : reach passed 0 (c.listed ++ rest) =
      c.listed.length + reach (c.listed.reverse ++ passed) 0 rest := by
  rw [listed, List.cons_append, reach_solid rfl (by decide) (by decide), List.append_assoc,
    reach_word hc.factory.word, reach_separated hc.arguments hrest]
  simp only [List.length_cons, List.length_append, List.reverse_cons, List.reverse_append,
    List.append_assoc, List.singleton_append]
  omega

/-- Behind a list a statement ends with its line. -/
theorem continues_listed (passed : Text) : continues (c.listed.reverse ++ passed) = false := by
  obtain ⟨init, last, hsplit, hlast⟩ := exists_listed_eq_concat hc
  obtain ⟨-, hblank, hmark⟩ := isPlain_of_isSimple hlast
  simp only [List.mem_cons, List.not_mem_nil, or_false, not_or] at hmark
  rw [hsplit, List.reverse_append, List.reverse_singleton, List.singleton_append, List.cons_append]
  exact continues_eq_false hblank hmark.2.2.1 hmark.2.2.2 _

end Proper

/-! ### The call -/

/-- The call at an offset, whose list takes something of what stands behind. -/
def callAt (c : SimpleCall) (start : Nat) (taken : Text) : Call where
  variant := .create
  start
  stop := start + (c.text ++ taken).length
  calleeStart := start
  calleeStop := start + 6
  argsStart := start + 7
  argsStop := start + 7 + (c.listed ++ taken).length
  schemaName := some c.factory
  fault := none

section Read

variable {c : SimpleCall} (hc : c.IsProper) {front taken : Text}

include hc

omit hc in
/-- The list stands behind the method name and the character that follows it. -/
theorem slice_listed (rest : Text) :
    (front ++ ("create".toList ++ c.opening :: ((c.listed ++ taken) ++ rest))).slice
      (front.length + 7) (front.length + 7 + (c.listed ++ taken).length) = c.listed ++ taken := by
  have hsplit : front ++ ("create".toList ++ c.opening :: ((c.listed ++ taken) ++ rest)) =
      (front ++ ("create".toList ++ [c.opening])) ++ ((c.listed ++ taken) ++ rest) := by
    simp
  have hlength : (front ++ ("create".toList ++ [c.opening])).length = front.length + 7 :=
    List.length_append
  rw [hsplit, ← hlength, slice_append]

/-- A head with the list behind it begins the call. -/
theorem call_eq_callAt (htaken : taken.head?.any CharClass.isWord = false) {text rest : Text}
    (htext : text = front ++ ("create".toList ++ c.opening :: ((c.listed ++ taken) ++ rest)))
    (after : Text) :
    (creatingHead front.reverse after).call text (front.length + 7)
      (front.length + 7 + (c.listed ++ taken).length)
      (front.length + (c.text ++ taken).length) = c.callAt front.length taken := by
  have hedge : (separated c.arguments ++ taken).head?.any CharClass.isWord = false := by
    cases c.arguments with
    | nil => exact htaken
    | cons a arguments => rfl
  have hname : factoryName? (c.listed ++ taken) = some c.factory := by
    have hsymbol := factoryName?_symbol hc.factory hedge
    simpa [listed] using hsymbol
  have hslice : text.slice (front.length + 7) (front.length + 7 + (c.listed ++ taken).length) =
      c.listed ++ taken := by
    rw [htext, slice_listed]
  have hmethod : "create".toList.length = 6 := rfl
  rw [Head.call, hslice, hname, callAt]
  simp only [creatingHead, Cursor.offset, List.length_reverse, List.length_append, hmethod,
    Option.isNone_some, Bool.false_eq_true, if_false, Call.mk.injEq, true_and, and_true]
  omega

/-- With parentheses the call is what is written. -/
theorem call?_parenthesized (hparenthesized : c.parenthesized = true) {more : Text}
    (hdefinition : (creatingHead front.reverse ('(' :: (c.listed ++ ')' :: more))).isDefinition =
      false) (back : Text) :
    (creatingHead front.reverse ('(' :: (c.listed ++ ')' :: more))).call?
      (front ++ (c.text ++ back)) = some (c.callAt front.length []) := by
  have htext : front ++ (c.text ++ back) =
      front ++ ("create".toList ++ c.opening :: ((c.listed ++ []) ++ ')' :: back)) := by
    simp [text_eq, closing, hparenthesized]
  have hcall := call_eq_callAt hc (by rfl) htext ('(' :: (c.listed ++ ')' :: more))
  have hstop : front.length + 6 + (c.listed.length + 1) =
      front.length + 7 + (c.listed ++ []).length := by
    rw [List.append_nil]
    omega
  have hend : front.length + 7 + (c.listed ++ []).length + 1 =
      front.length + (c.text ++ []).length := by
    simp [text_eq, closing, hparenthesized]
    omega
  rw [Head.call?_of_isNested hdefinition rfl (isNested_listed hc), offset_last_creatingHead,
    List.length_reverse, hstop, hend, hcall]

/-- Without parentheses the call is what is written and what the list takes behind it. -/
theorem call?_bare (hbare : c.parenthesized = false)
    (htaken : taken.head?.any CharClass.isWord = false) {more : Text}
    (hlength : argumentLength (c.listed ++ more) = (c.listed ++ taken).length)
    (hdefinition : (creatingHead front.reverse (' ' :: (c.listed ++ more))).isDefinition = false)
    (rest : Text) :
    (creatingHead front.reverse (' ' :: (c.listed ++ more))).call?
      (front ++ (c.text ++ (taken ++ rest))) = some (c.callAt front.length taken) := by
  have htext : front ++ (c.text ++ (taken ++ rest)) =
      front ++ ("create".toList ++ c.opening :: ((c.listed ++ taken) ++ rest)) := by
    simp [text_eq, closing, hbare]
  have hcall := call_eq_callAt hc htaken htext (' ' :: (c.listed ++ more))
  have hstop : front.length + (c.text ++ taken).length =
      front.length + 7 + (c.listed ++ taken).length := by
    simp [text_eq, closing, hbare]
    omega
  have hoffset : (creatingHead front.reverse (' ' :: (c.listed ++ more))).last.offset + 1 =
      front.length + 7 := by
    rw [offset_last_creatingHead, List.length_reverse]
  have hbegins : beginsName ((front ++ (c.text ++ (taken ++ rest))).drop (front.length + 7)) =
      true := by
    have hdrop : (front ++ (c.text ++ (taken ++ rest))).drop (front.length + 7) =
        ':' :: (c.factory ++ (separated c.arguments ++ (taken ++ rest))) := by
      rw [List.drop_length_add_append]
      simp [text_eq, closing, opening, hbare, listed]
    rw [hdrop, beginsName_symbol hc.factory]
  rw [← hoffset] at hbegins
  rw [Head.call?_of_space hdefinition rfl (by rfl) hbegins, hoffset, hlength, ← hcall, hstop]

end Read

end SimpleCall

end FactoryDowngrade
