import FactoryDowngrade.Proofs.AssignmentTargets
import FactoryDowngrade.Proofs.LiteralArguments
import FactoryDowngrade.Proofs.Ruby.LazyHeads
import FactoryDowngrade.Proofs.SimpleCalls

/-!
# Lazy blocks around one call

A lazy block with one call for its body stands in braces, between `do` and `end` on one line, or on
three lines. Nothing in it is masked, and its call is the first one of the text. The call ends in
front of what closes the block, except that without parentheses it takes an `end` on its line into
its argument list.
-/

namespace FactoryDowngrade

open CallSite Scan

/-! ### Code without signs -/

/-- Outside of literals nothing is masked without a sign that begins a literal, a comment or a
heredoc. -/
theorem Scan.crosses_shown {shown : Text} (h : ∀ c ∈ shown, c ∉ maskSigns) (before rest : Text) :
    Crosses [] [] before shown shown rest := by
  induction shown generalizing before with
  | nil => exact .nil [] before rest
  | cons c shown ih =>
    have hnot := h c List.mem_cons_self
    simp only [maskSigns, List.mem_cons, List.not_mem_nil, or_false, not_or] at hnot
    have hc (masked : Text) : (Scan.mk before masked (c :: (shown ++ rest)) [] []).step =
        ⟨c :: before, c :: masked, shown ++ rest, [], []⟩ := by
      by_cases hbreak : c = '\n'
      · subst hbreak
        exact step_of_lineBreak isCode_nil
      · refine step_of_isShown isCode_nil (isShown_of_notMem hbreak (by simp [hnot]))
          fun _ hcomment => ?_
        obtain ⟨more, hmore⟩ := hcomment
        exact hnot.2.2.2.2.2.2 (List.cons.inj hmore).1.symm
    exact Crosses.cons (fun masked => .step (hc masked))
      (ih (fun x hx => h x (List.mem_cons_of_mem _ hx)) _)

/-- Lines without such signs are shown, and the lines behind them are masked as they would be
alone. -/
theorem mask_shown {shown : Text} (h : ∀ c ∈ shown, c ∉ maskSigns) (back : Text) :
    mask (shown ++ '\n' :: back) = shown ++ '\n' :: mask back :=
  mask_line (crosses_shown h [] _)

/-! ### Layouts -/

/-- The layouts of a block with one statement; on lines of its own the statement is indented. -/
inductive Layout where
  | braces
  | line
  | lines (indent : Text)
deriving DecidableEq, Repr

namespace Layout

/-- What opens the body. -/
def opener : Layout → Text
  | braces => ['\x7b']
  | line => "do".toList
  | lines _ => "do".toList

/-- What stands before the statement. -/
def gap : Layout → Text
  | braces => [' ']
  | line => [' ']
  | lines indent => '\n' :: indent

/-- What stands behind the statement. -/
def closer : Layout → Text
  | braces => [' ', '\x7d']
  | line => " end".toList
  | lines _ => "\nend".toList

/-- Statements are indented by spaces and tabs. -/
def IsProper : Layout → Prop
  | lines indent => ∀ x ∈ indent, CharClass.isSpaceOrTab x = true
  | _ => True

/-- A block opens with a brace or with its keyword. -/
theorem opener_mem (l : Layout) : l.opener ∈ ["\x7b", "do"].map String.toList := by
  cases l <;> simp [opener]

/-- It closes with one, on the line or below it. -/
theorem closer_mem (l : Layout) : l.closer ∈ [" \x7d", " end", "\nend"].map String.toList := by
  cases l <;> simp [closer]

/-- Nothing but blanks stands between the opener and the call. -/
theorem isBlank_of_mem_gap {l : Layout} (h : l.IsProper) :
    ∀ x ∈ l.gap, CharClass.isBlank x = true := by
  cases l with
  | braces => decide
  | line => decide
  | lines indent =>
    intro x hx
    rcases List.mem_cons.mp hx with rfl | hx
    · decide
    · exact CharClass.isBlank_of_isSpaceOrTab (h x hx)

/-- An opener behind a space is read where a gap follows. -/
theorem match?_opener (l : Layout) (outside behind : Text) :
    LazyBinding.openerPattern.match? ⟨' ' :: outside, l.opener ++ (l.gap ++ behind)⟩ =
      some ⟨l.opener.reverse ++ ' ' :: outside, l.gap ++ behind⟩ := by
  cases l <;> rfl

end Layout

/-- A lazy block whose body is one call. -/
structure LazyCreation where
  keyword : Text
  name : Text
  layout : Layout
  call : SimpleCall
deriving DecidableEq, Repr

namespace LazyCreation

/-- The block up to its call. -/
def front (b : LazyCreation) : Text :=
  LazyBinding.lead b.keyword b.name ++ (b.layout.opener ++ b.layout.gap)

/-- The block as it is written, and the lines behind it. -/
def text (b : LazyCreation) (rest : Text) : Text :=
  b.front ++ (b.call.text ++ (b.layout.closer ++ '\n' :: rest))

/-- What the argument list of the call takes of what closes the block. -/
def taken (b : LazyCreation) : Text :=
  if b.layout = .line ∧ b.call.parenthesized = false then b.layout.closer else []

/-- The argument list stands in the text, with what it takes behind it. -/
theorem exists_text_eq (b : LazyCreation) (rest : Text) : ∃ back, b.text rest =
    b.front ++ ("create".toList ++ b.call.opening :: ((b.call.listed ++ b.taken) ++ back)) := by
  rw [text, SimpleCall.text_eq, taken]
  split
  · rename_i htaken
    exact ⟨'\n' :: rest, by simp [SimpleCall.closing, htaken.2]⟩
  · exact ⟨b.call.closing ++ (b.layout.closer ++ '\n' :: rest), by simp⟩

/-- It takes nothing but what closes a block on one line. -/
theorem taken_eq_nil_iff {b : LazyCreation} :
    b.taken = [] ↔ (b.layout = .line → b.call.parenthesized = true) := by
  have hcloser : b.layout.closer ≠ [] := by
    cases b.layout <;> simp [Layout.closer]
  rw [taken]
  split <;> simp_all

/-- The block has a keyword and a name, and its call is one with simple arguments. -/
structure IsProper (b : LazyCreation) : Prop where
  keyword : b.keyword ∈ LazyBinding.keywords
  name : LazyBinding.IsBlockName b.name
  layout : b.layout.IsProper
  call : b.call.IsProper

/-! ### What is shown -/

section Proper

variable {b : LazyCreation} (hb : b.IsProper)

include hb

/-- Nothing before the call is masked. -/
theorem mem_front {x : Char} (hx : x ∈ b.front) : x ∉ maskSigns := by
  obtain ⟨word, mark, -, hword, hmark, hname⟩ := hb.name.split
  have hfixed : ∀ piece ∈ LazyBinding.keywords ++ ["(:", ") ", "?", "!", "", "\x7b", "do"].map
      String.toList, ∀ x ∈ piece, x ∉ maskSigns := by decide
  have hpiece {piece : Text} (hpiece : piece ∈ ["(:", ") ", "?", "!", "", "\x7b", "do"].map
      String.toList) := hfixed piece (List.mem_append_right _ hpiece)
  simp only [front, LazyBinding.lead, hname, List.mem_append] at hx
  rcases hx with (hx | hx | (hx | hx) | hx) | hx | hx
  · exact hfixed _ (List.mem_append_left _ hb.keyword) x hx
  · exact hpiece (by decide) x hx
  · exact notMem_of_accepted (by decide) (hword x hx)
  · exact hpiece ((by decide : ∀ mark ∈ ["", "?", "!"].map String.toList, _) mark hmark) x hx
  · exact hpiece (by decide) x hx
  · exact hpiece ((by decide : ∀ piece ∈ ["\x7b", "do"].map String.toList, _) _
      b.layout.opener_mem) x hx
  · exact notMem_of_accepted (by decide) (Layout.isBlank_of_mem_gap hb.layout x hx)

/-- The block is shown, and the lines behind it are masked as they would be alone. -/
theorem mask_text (rest : Text) : mask (b.text rest) = b.text (mask rest) := by
  have hclosers : ∀ closer ∈ [" \x7d", " end", "\nend"].map String.toList, ∀ x ∈ closer,
      x ∉ maskSigns := by decide
  have hshown : ∀ x ∈ b.front ++ (b.call.text ++ b.layout.closer), x ∉ maskSigns := by
    intro x hx
    rcases List.mem_append.mp hx with hx | hx
    · exact mem_front hb hx
    rcases List.mem_append.mp hx with hx | hx
    · exact fun hmem => SimpleCall.mem_text hb.call hx (List.mem_cons_of_mem _ hmem)
    · exact hclosers _ b.layout.closer_mem x hx
  have hall := mask_shown hshown rest
  simpa [text] using hall

end Proper

end LazyCreation

/-! ### The call -/

namespace CallSite

/-- No head begins behind a character that makes it something else, nor with a letter that begins
neither a library nor a strategy. -/
theorem headAt?_eq_none {c : Cursor}
    (h : c.follows spoilsBefore = true ∨ c.precedes ['b', 'c', 'F'].contains = false) :
    headAt? c = none := by
  by_contra hhead
  obtain ⟨⟨head, stop⟩, hhead⟩ := Option.ne_none_iff_exists'.mp hhead
  have hstands := standsAt_of_headAt? hhead
  rcases h with hspoiled | hletter
  · rw [hstands.unspoiled] at hspoiled
    cases hspoiled
  -- what is passed at the front begins with one of the letters
  have hpassed {word : Text} {d : Cursor} (hpass : c.Passes word d)
      (hword : word.head?.any ['b', 'c', 'F'].contains = true) : False := by
    cases word with
    | nil => cases hword
    | cons x word =>
      rw [Cursor.precedes, hpass.after] at hletter
      exact Bool.eq_false_iff.mp hletter hword
  rcases Pattern.mem_ends_maybe.mp hstands.receiver with hreceiver | hcallee
  · obtain ⟨last, hlibrary, -⟩ := Pattern.mem_ends_seq.mp hreceiver
    rcases List.mem_append.mp hlibrary with hpass | hpass <;>
      exact hpassed (Pattern.mem_ends_literal.mp hpass) (by decide)
  · have hpass := hstands.callee
    rw [hcallee] at hpass
    refine hpassed hpass ?_
    cases head.variant <;> decide

/-- A search for heads finds none in a stretch and goes on behind it. -/
def SkipsHeads (before stretch : Text) : Prop :=
  ∀ rest, Cursor.readAll headAt? ⟨before, stretch ++ rest⟩ =
    Cursor.readAll headAt? ⟨stretch.reverse ++ before, rest⟩

namespace SkipsHeads

variable {before u v : Text}

/-- No head is in an empty stretch. -/
theorem nil (before : Text) : SkipsHeads before [] := fun _ => rfl

/-- A stretch in two parts has no head if no part has one behind what comes before. -/
theorem append (hu : SkipsHeads before u) (hv : SkipsHeads (u.reverse ++ before) v) :
    SkipsHeads before (u ++ v) := by
  intro rest
  rw [List.append_assoc, hu, hv, List.reverse_append, List.append_assoc]

/-- A character is passed if it begins no method name, or if a spoiling one stands before it. -/
theorem one {x : Char}
    (h : before.head?.any spoilsBefore = true ∨ x ∉ ['b', 'c', 'F']) : SkipsHeads before [x] :=
  fun _ => Cursor.readAll_cons_of_none (headAt?_eq_none (h.imp_right fun hx =>
    Bool.eq_false_iff.mpr (mt List.contains_iff_mem.mp hx)))

/-- No head begins in a stretch without the letters. -/
theorem of_letters (h : ∀ x ∈ u, x ∉ ['b', 'c', 'F']) : SkipsHeads before u := by
  induction u generalizing before with
  | nil => exact nil before
  | cons x u ih =>
    exact (one (.inr (h x List.mem_cons_self))).append
      (ih fun y hy => h y (List.mem_cons_of_mem _ hy))

/-- No head begins in a stretch whose characters, and the one before, make it something else. -/
theorem of_spoils (hbefore : before.head?.any spoilsBefore = true)
    (h : ∀ x ∈ u, spoilsBefore x = true) : SkipsHeads before u := by
  induction u generalizing before with
  | nil => exact nil before
  | cons x u ih =>
    exact (one (.inl hbefore)).append
      (ih (h x List.mem_cons_self) fun y hy => h y (List.mem_cons_of_mem _ hy))

end SkipsHeads

end CallSite

namespace LazyCreation

section Proper

variable {b : LazyCreation} (hb : b.IsProper)

/-- What stands behind the method name. -/
def behindMethod (b : LazyCreation) (rest : Text) : Text :=
  b.call.opening :: (b.call.listed ++ (b.call.closing ++ (b.layout.closer ++ '\n' :: rest)))

/-- The method name stands between the front of the creation and what is behind it. -/
theorem text_eq (b : LazyCreation) (rest : Text) :
    b.text rest = b.front ++ ("create".toList ++ b.behindMethod rest) := by
  simp [text, behindMethod, SimpleCall.text_eq]

/-- The method name stands behind blanks, and they behind a brace or a keyword. -/
theorem exists_front_reverse (b : LazyCreation) : ∃ x outer,
    b.front.reverse = b.layout.gap.reverse ++ x :: outer ∧ x ∈ ['\x7b', 'o'] := by
  have hopener := b.layout.opener_mem
  simp only [List.map_cons, List.map_nil, List.mem_cons, List.not_mem_nil, or_false] at hopener
  rcases hopener with hopener | hopener
  · refine ⟨'\x7b', (LazyBinding.lead b.keyword b.name).reverse, ?_, by decide⟩
    simp [front, hopener]
  · refine ⟨'o', 'd' :: (LazyBinding.lead b.keyword b.name).reverse, ?_, by decide⟩
    simp [front, hopener]

include hb

/-- The search for heads comes to the call. -/
theorem skipsHeads_front : SkipsHeads [] b.front := by
  obtain ⟨x, more, hkeyword, hx, hmore⟩ : ∃ x more, b.keyword = [x] ++ more ∧
      (x ∉ ['b', 'c', 'F'] ∧ spoilsBefore x = true) ∧ ∀ y ∈ more, spoilsBefore y = true := by
    have hkeyword := hb.keyword
    simp only [LazyBinding.keywords, List.map_cons, List.map_nil, List.mem_cons, List.not_mem_nil,
      or_false] at hkeyword
    rcases hkeyword with h | h | h | h <;> exact ⟨_, _, h, by decide, by decide⟩
  obtain ⟨word, mark, -, hword, hmark, hname⟩ := hb.name.split
  have hspoils : ∀ y ∈ b.name, spoilsBefore y = true := by
    have hmarks : ∀ mark ∈ ["", "?", "!"].map String.toList, ∀ y ∈ mark, spoilsBefore y = true := by
      decide
    intro y hy
    rw [hname] at hy
    rcases List.mem_append.mp hy with hy | hy
    · simp [spoilsBefore, hword y hy]
    · exact hmarks mark hmark y hy
  have hopener : ∀ opener ∈ ["\x7b", "do"].map String.toList, ∀ y ∈ opener,
      y ∉ ['b', 'c', 'F'] := by decide
  have hgap : ∀ y ∈ b.layout.gap, y ∉ ['b', 'c', 'F'] := fun y hy =>
    notMem_of_accepted (by decide) (Layout.isBlank_of_mem_gap hb.layout y hy)
  have hfirst : SkipsHeads [] b.keyword :=
    hkeyword ▸ (SkipsHeads.one (.inr hx.1)).append (.of_spoils hx.2 hmore)
  have hround : SkipsHeads b.keyword.reverse "(:".toList := .of_letters (by decide)
  have hcolon : SkipsHeads ("(:".toList.reverse ++ b.keyword.reverse) b.name :=
    .of_spoils (by rfl) hspoils
  rw [front, LazyBinding.lead]
  refine (hfirst.append ?_).append ((SkipsHeads.of_letters (hopener _ b.layout.opener_mem)).append
    (.of_letters hgap))
  rw [List.append_nil]
  exact hround.append (hcolon.append (.of_letters (by decide)))

/-- Nothing before the call makes it something else. -/
theorem any_spoilsBefore_front : b.front.reverse.head?.any spoilsBefore = false := by
  obtain ⟨x, outer, hreverse, -⟩ := b.exists_front_reverse
  obtain ⟨y, gap, hgap⟩ : ∃ y gap, b.layout.gap.reverse = y :: gap :=
    List.exists_cons_of_ne_nil (by cases b.layout <;> simp [Layout.gap])
  have hblank := Layout.isBlank_of_mem_gap hb.layout y
    (List.mem_reverse.mp (hgap ▸ List.mem_cons_self))
  have hmarks : ∀ z ∈ ['?', '!', '.', ':', '@', '$'], CharClass.isBlank z = false := by decide
  have hspoils : spoilsBefore y = false := by
    have hmem := notMem_of_accepted hmarks hblank
    rw [spoilsBefore, CharClass.isWord_eq_false_of_isBlank hblank, Bool.false_or,
      Bool.eq_false_iff]
    exact mt List.contains_iff_mem.mp hmem
  rw [hreverse, hgap]
  exact hspoils

/-- The first head of the block is that of the call. -/
theorem exists_readAll_text (rest : Text) : ∃ others,
    Cursor.readAll headAt? (Cursor.start (b.text rest)) =
      creatingHead b.front.reverse (b.behindMethod rest) :: others := by
  have hafter : (b.behindMethod rest).head? = some '(' ∨
      (b.behindMethod rest).head? = some ' ' := by
    rw [behindMethod, SimpleCall.opening]
    split <;> simp
  have hread := headAt?_creatingHead (any_spoilsBefore_front hb) hafter
  have hskip := skipsHeads_front hb ("create".toList ++ b.behindMethod rest)
  rw [List.append_nil] at hskip
  rw [text_eq, Cursor.start, hskip]
  exact ⟨_, Cursor.readAll_of_some isProgressive_headAt? hread⟩

/-- The call is not the name in a method definition. -/
theorem isDefinition_head (after : Text) :
    (creatingHead b.front.reverse after).isDefinition = false := by
  obtain ⟨x, outer, hreverse, hx⟩ := b.exists_front_reverse
  obtain ⟨hblank, hletter⟩ := (by decide : ∀ x ∈ ['\x7b', 'o'],
    CharClass.isBlank x = false ∧ x ∉ "def self.".toList) x hx
  exact Head.isDefinition_eq_false hreverse (fun y hy =>
    Layout.isBlank_of_mem_gap hb.layout y (List.mem_reverse.mp hy)) hblank hletter

omit hb in
/-- A list without parentheses takes an `end` on its line, and else it ends before the closer. -/
theorem endsBehind_closer (hbare : b.call.parenthesized = false) {passed : Text}
    (hpassed : Statement.continues passed = false) (more : Text) :
    Statement.EndsBehind passed b.taken (b.layout.closer ++ '\n' :: more) := by
  rw [taken, hbare]
  cases b.layout with
  | braces =>
    have hblank : ∀ x ∈ [' '], CharClass.isBlank x = true := by decide
    have hgap := Statement.reach_blanks (c := '\x7d') hblank (by decide) (by decide) (by decide)
      passed 0 ('\n' :: more)
    rw [Statement.reach_cons_of_none (Statement.depthBehind?_closes_zero rfl)] at hgap
    exact ⟨[' '], '\x7d' :: '\n' :: more, rfl, by decide, hgap⟩
  | line =>
    -- the word behind the space is no modifier, so the list goes on up to the end of the line
    have hmodifier : Statement.modifierAhead (' ' :: ("end".toList ++ '\n' :: more)) = false :=
      (Statement.modifierAhead_word (by decide) (by decide) (by rfl)).trans (by decide)
    have hspace : " end".toList ++ '\n' :: more = ' ' :: ("end".toList ++ '\n' :: more) := rfl
    have hgoes : Statement.reach passed 0 (" end".toList ++ '\n' :: more) = " end".toList.length +
        Statement.reach (" end".toList.reverse ++ passed) 0 ('\n' :: more) := by
      rw [hspace, Statement.reach_space hmodifier, Statement.reach_word (by decide)]
      exact Nat.add_right_comm ..
    exact .stop hgoes (.nil (Statement.reach_lineBreak (by rfl) more))
  | lines indent => exact .nil (Statement.reach_lineBreak hpassed ("end".toList ++ '\n' :: more))

/-- So the list is what is written and what the call takes. -/
theorem argumentLength_listed (hbare : b.call.parenthesized = false) (more : Text) :
    Statement.argumentLength (b.call.listed ++ (b.layout.closer ++ '\n' :: more)) =
      (b.call.listed ++ b.taken).length := by
  have hedge : (b.layout.closer ++ '\n' :: more).head?.any CharClass.isWord = false := by
    cases b.layout <;> rfl
  have hends := Statement.EndsBehind.append (SimpleCall.reach_listed hb.call hedge [])
    (endsBehind_closer hbare (SimpleCall.continues_listed hb.call []) more)
  obtain ⟨last, hlast, htrailing⟩ : ∃ last, (b.call.listed ++ b.taken).getLast? = some last ∧
      Statement.isTrailing last = false := by
    rw [taken]
    split
    · rename_i htaken
      exact ⟨'d', by simp [htaken.1, Layout.closer], rfl⟩
    · obtain ⟨init, last, hsplit, hlast⟩ := SimpleCall.exists_listed_eq_concat hb.call
      exact ⟨last, by simp [hsplit], Statement.isTrailing_eq_false
        (SimpleCall.isPlain_of_isSimple hlast).2.1⟩
  exact hends.argumentLength_eq hlast htrailing

/-- The call of the block is its first one. -/
theorem exists_calls_text (rest : Text) : ∃ others, calls (b.text rest) (mask (b.text rest)) =
    b.call.callAt b.front.length b.taken :: others := by
  have hcall : (creatingHead b.front.reverse (b.behindMethod (mask rest))).call? (b.text rest) =
      some (b.call.callAt b.front.length b.taken) := by
    have hdefinition := isDefinition_head hb (b.behindMethod (mask rest))
    cases hparenthesized : b.call.parenthesized with
    | true =>
      have hafter : b.behindMethod (mask rest) =
          '(' :: (b.call.listed ++ ')' :: (b.layout.closer ++ '\n' :: mask rest)) := by
        simp [behindMethod, SimpleCall.opening, SimpleCall.closing, hparenthesized]
      have htaken : b.taken = [] := by simp [taken, hparenthesized]
      rw [hafter] at hdefinition ⊢
      rw [htaken]
      exact SimpleCall.call?_parenthesized hb.call hparenthesized hdefinition _
    | false =>
      have hafter : b.behindMethod (mask rest) =
          ' ' :: (b.call.listed ++ (b.layout.closer ++ '\n' :: mask rest)) := by
        simp [behindMethod, SimpleCall.opening, SimpleCall.closing, hparenthesized]
      obtain ⟨behind, hbehind⟩ : b.taken <+: b.layout.closer ++ '\n' :: rest := by
        rw [taken]
        split
        · exact List.prefix_append _ _
        · exact List.nil_prefix
      have hedge : b.taken.head?.any CharClass.isWord = false := by
        rw [taken]
        split
        · cases b.layout <;> rfl
        · rfl
      rw [hafter] at hdefinition ⊢
      rw [text, ← hbehind]
      exact SimpleCall.call?_bare hb.call hparenthesized hedge
        (argumentLength_listed hb hparenthesized _) hdefinition _
  obtain ⟨others, hheads⟩ := exists_readAll_text hb (mask rest)
  rw [mask_text hb, calls, hheads,
    List.filterMap_cons_some (f := (CallSite.Head.call? · (b.text rest))) hcall]
  exact ⟨_, rfl⟩

/-- The call is assigned to nothing. -/
theorem target?_front (after : Text) : Assignment.target? ⟨b.front.reverse, after⟩ = none := by
  by_contra htarget
  obtain ⟨name, htarget⟩ := Option.ne_none_iff_exists'.mp htarget
  have hmem : '=' ∈ b.front := List.mem_reverse.mp (Assignment.mem_before_of_target? htarget)
  exact mem_front hb hmem (by decide)

end Proper

end LazyCreation

end FactoryDowngrade
