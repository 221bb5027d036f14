import FactoryDowngrade.Proofs.PlainCalls
import FactoryDowngrade.Proofs.Ruby.BalancedCode
import FactoryDowngrade.Proofs.Template.Invocations
import FactoryDowngrade.Proofs.WellFormedSites
import FactoryDowngrade.Proofs.WiderSearch

/-!
# A created record that is assigned

A text that begins by assigning a created record to a local name has that call for its first site,
and the name is bound to it. What stands before the call on its line reads as nothing else: if the
name is that of a strategy, it is not called, and no word of the line breaks the statement.
-/

namespace FactoryDowngrade

open Pattern

/-- A name that can be assigned to, and that begins no block body when it stands in a statement. -/
structure IsLocalName (name : Text) : Prop where
  first : name.head?.any CharClass.isLowerStart = true
  word : ∀ c ∈ name, CharClass.isWord c = true
  unreserved : name ≠ "do".toList ∧ name ≠ "then".toList

/-- A factory name that can be written as a symbol without quotes. -/
structure IsSymbol (name : Text) : Prop where
  first : name.head?.any CharClass.isNameStart = true
  word : ∀ c ∈ name, CharClass.isWord c = true

/-- A symbol has a character at least. -/
theorem IsSymbol.ne_nil {name : Text} (h : IsSymbol name) : name ≠ [] := by
  rintro rfl
  cases h.first

/-- The text that assigns a created record to a name and goes on. -/
def assigned (name factory more : Text) : Text :=
  name ++ (" = ".toList ++ ("create(:".toList ++ (factory ++ ')' :: more)))

/-- What follows the text goes on with what follows the call. -/
theorem assigned_append (name factory lead more : Text) :
    assigned name factory lead ++ more = assigned name factory (lead ++ more) := by
  simp [assigned]

section Mask

variable {name factory : Text}

/-- The assignment is shown, whatever follows it. -/
theorem reaches_assigned (hname : IsLocalName name) (hfactory : IsSymbol factory) (rest : Text) :
    (Scan.start (assigned name factory rest)).Reaches
      ⟨(assigned name factory []).reverse, (assigned name factory []).reverse, rest, [], []⟩ := by
  have hword {word : Text} (hword : ∀ c ∈ word, CharClass.isWord c = true) :
      ∀ c ∈ word, Code.isPlain c = true := fun c hc => Code.isPlain_of_isWord (hword c hc)
  have hlead : Code.Writes none none (name ++ " = create".toList) (name ++ " = create".toList) :=
    (Code.Writes.of_plain (hword hname.word)).append (.of_plain (by decide))
  have hargument : Code.Writes none none (':' :: factory) (':' :: factory) := by
    refine .of_plain fun c hc => ?_
    rcases List.mem_cons.mp hc with rfl | hc
    · rfl
    · exact hword hfactory.word c hc
  have hall := hlead.append (hargument.group .round)
  have hfront : name ++ " = create".toList ++
      (BracketKind.round.opener :: (':' :: factory ++ [BracketKind.round.closer])) =
        assigned name factory [] := by
    simp [assigned, BracketKind.opener, BracketKind.closer]
  rw [hfront] at hall
  have hnobreak {word : Text} (hword : ∀ c ∈ word, CharClass.isWord c = true) : '\n' ∉ word :=
    fun hbreak => absurd (hword _ hbreak) (by decide)
  have hline : Scan.IsLineFree [] (assigned name factory []) rest := by
    refine .of_line (fun hbreak => ?_) fun hhead => ?_
    · have hmem := List.mem_of_mem_dropLast hbreak
      simp [assigned, hnobreak hname.word, hnobreak hfactory.word] at hmem
    · have hlower := hname.first
      cases name with
      | nil => cases hlower
      | cons x name =>
        obtain rfl : x = '=' := by simpa [assigned] using hhead
        have hequals : CharClass.isLowerStart '=' = true := hlower
        exact absurd hequals (by decide)
  have hreach := hall.reaches [] [] rest [] Scan.isCode_nil hline
  have hwhole : assigned name factory [] ++ rest = assigned name factory rest := by
    simp [assigned]
  rwa [hwhole, List.append_nil] at hreach

/-- Such a text is masked to one of the same form. -/
theorem exists_mask_assigned (hname : IsLocalName name) (hfactory : IsSymbol factory)
    (rest : Text) : ∃ more, mask (assigned name factory rest) = assigned name factory more := by
  obtain ⟨more, hmore⟩ := exists_mask_of_reaches (reaches_assigned hname hfactory rest)
  exact ⟨more, by rw [hmore, List.reverse_reverse]; simp [assigned]⟩

end Mask

section Line

variable {name rest word : Text} {c d : Cursor}

/-- A whole word before the right-hand side of an assignment is the name. -/
theorem eq_of_word (hname : ∀ x ∈ name, CharClass.isWord x = true)
    (htext : c.text = name ++ (" = ".toList ++ rest)) (hoffset : c.offset < name.length + 3)
    (hpass : c.Passes word d) (hword : ∀ x ∈ word, CharClass.isWord x = true)
    (hnonempty : word ≠ []) (hbefore : c.follows CharClass.isWord = false)
    (hafter : d.precedes CharClass.isWord = false) : c.before = [] ∧ word = name := by
  obtain ⟨before, after⟩ := c
  obtain ⟨x, more, rfl⟩ := List.exists_cons_of_ne_nil hnonempty
  obtain rfl : after = x :: more ++ d.after := hpass.after
  -- behind the name there is no word before the right-hand side
  have hplace : before.length < name.length := by
    by_contra hbehind
    obtain ⟨k, hk⟩ := Nat.exists_eq_add_of_le (Nat.le_of_not_lt hbehind)
    have hx : (Cursor.text ⟨before, x :: more ++ d.after⟩)[name.length + k]? = some x := by
      simp [Cursor.text, ← hk]
    rw [htext, List.getElem?_append_right (by omega), Nat.add_sub_cancel_left] at hx
    have hlt : k < 3 := by
      simp only [Cursor.offset] at hoffset
      omega
    have hplain : ∀ y ∈ " = ".toList, CharClass.isWord y = false := by decide
    rw [List.getElem?_append_left (by simpa using hlt)] at hx
    have hnot := hplain x (List.mem_of_getElem? hx)
    rw [hword x List.mem_cons_self] at hnot
    cases hnot
  cases before with
  | nil =>
    refine ⟨rfl, ?_⟩
    have hsplit : (x :: more) ++ d.after = name ++ (" = ".toList ++ rest) := htext
    exact (append_inj_of_all hword hname hafter (by rfl) hsplit).1
  | cons y before =>
    -- the character before the word belongs to the name
    have hy : (Cursor.text ⟨y :: before, x :: more ++ d.after⟩)[before.length]? = some y := by
      simp [Cursor.text]
    rw [htext, List.getElem?_append_left (by simp only [List.length_cons] at hplace; omega)] at hy
    have hfollows : CharClass.isWord y = false := hbefore
    rw [hname y (List.mem_of_getElem? hy)] at hfollows
    cases hfollows

end Line

/-! ### The statement -/

namespace Assignment

open Invocation (head?_ends_seq)

variable {name : Text}

/-- In front of the call are letters of the name, blanks and the sign of assignment. -/
theorem mem_line {x : Char} (hname : ∀ x ∈ name, CharClass.isWord x = true)
    (hx : x ∈ name ++ " = ".toList) : CharClass.isWord x = true ∨ x = ' ' ∨ x = '=' := by
  rcases List.mem_append.mp hx with hx | hx
  · exact .inl (hname x hx)
  · have hmem : x = ' ' ∨ x = '=' ∨ x = ' ' := by simpa using hx
    tauto

/-- The call has that in front of it on its line. -/
theorem lineHead_line (hname : ∀ x ∈ name, CharClass.isWord x = true) (after : Text) :
    Cursor.lineHead ⟨(name ++ " = ".toList).reverse, after⟩ = name ++ " = ".toList := by
  have hall : ∀ x ∈ (name ++ " = ".toList).reverse, decide (x ≠ '\n') = true := by
    intro x hx
    rw [decide_eq_true_eq]
    rintro rfl
    exact absurd (mem_line hname (List.mem_reverse.mp hx)) (by decide)
  rw [Cursor.lineHead, List.takeWhile_eq_self_iff.mpr hall, List.reverse_reverse]

/-- A keyword ends a statement only as a whole word. -/
theorem passes_of_mem_keyword {word : Text} {c d : Cursor}
    (hword : ∀ x ∈ word, CharClass.isWord x = true) (hnonempty : word ≠ [])
    (h : d ∈ (chain [.wordEdge, .literal word, .wordEdge]).ends c) :
    c.Passes word d ∧ c.follows CharClass.isWord = false ∧
      d.precedes CharClass.isWord = false := by
  obtain ⟨first, hedge, hmore⟩ := mem_ends_seq.mp h
  obtain ⟨hfirst, rfl⟩ := eq_of_mem_condition hedge
  obtain ⟨last, hlast, hend⟩ := mem_ends_seq.mp hmore
  obtain ⟨stop, hedge', hempty⟩ := mem_ends_seq.mp hend
  obtain ⟨hlastEdge, rfl⟩ := eq_of_mem_condition hedge'
  obtain rfl := List.mem_singleton.mp hempty
  have hpass := mem_ends_literal.mp hlast
  obtain ⟨x, more, rfl⟩ := List.exists_cons_of_ne_nil hnonempty
  have hahead : first.precedes CharClass.isWord = true := by
    rw [Cursor.precedes, hpass.after]
    exact hword x List.mem_cons_self
  have hbehind : d.follows CharClass.isWord = true := by
    rw [Cursor.follows, hpass.before, List.head?_append_of_ne_nil _ (by simp)]
    obtain ⟨y, hy⟩ := Option.isSome_iff_exists.mp
      (List.isSome_head?.mpr (by simp : (x :: more).reverse ≠ []))
    rw [hy]
    exact hword y (List.mem_reverse.mp (List.mem_of_head? hy))
  refine ⟨hpass, ?_, ?_⟩
  · rw [hahead] at hfirst
    simpa using hfirst
  · rw [hbehind] at hlastEdge
    simpa using hlastEdge

/-- Nothing before the right-hand side of an assignment breaks the statement. -/
theorem lastStatement_line (hname : IsLocalName name) :
    lastStatement (name ++ " = ".toList) = name ++ " = ".toList := by
  have hnone (c d : Cursor) (htext : c.text = name ++ " = ".toList) :
      d ∉ statementBreak.ends c := by
    intro hd
    have hmem (x : Char) (more : Text) (hafter : c.after = x :: more) :
        CharClass.isWord x = true ∨ x = ' ' ∨ x = '=' := by
      refine mem_line hname.word ?_
      rw [← htext, Cursor.text, hafter]
      simp
    have hkeyword (word : Text) (hword : ∀ x ∈ word, CharClass.isWord x = true)
        (hnonempty : word ≠ []) (h : d ∈ (chain [.wordEdge, .literal word, .wordEdge]).ends c) :
        name = word := by
      obtain ⟨hpass, hbefore, hafter⟩ := passes_of_mem_keyword hword hnonempty h
      have hoffset : c.offset < name.length + 3 := by
        have hlength := congrArg List.length htext
        rw [Cursor.text, hpass.after] at hlength
        have hpos := List.length_pos_iff.mpr hnonempty
        simp only [List.length_append, List.length_reverse] at hlength
        have hthree : " = ".toList.length = 3 := rfl
        rw [Cursor.offset]
        omega
      have hline : c.text = name ++ (" = ".toList ++ []) := by rw [htext, List.append_nil]
      exact (eq_of_word hname.word hline hoffset hpass hword hnonempty hbefore hafter).2.symm
    obtain ⟨p, hp, hd⟩ := mem_ends_choice.mp hd
    simp only [List.mem_cons, List.not_mem_nil, or_false] at hp
    rcases hp with rfl | rfl | rfl | rfl
    · obtain ⟨x, hx, hone⟩ := mem_ends_one.mp hd
      have hsign : x = ';' ∨ x = '\x7b' := by simpa using hx
      have hx := hmem x _ hone.after
      rcases hsign with rfl | rfl <;> exact absurd hx (by decide)
    · exact hname.unreserved.1 (hkeyword _ (by decide) (by decide) hd)
    · exact hname.unreserved.2 (hkeyword _ (by decide) (by decide) hd)
    · obtain ⟨e, he, -⟩ := mem_ends_seq.mp hd
      obtain ⟨x, hx, hone⟩ := mem_ends_one.mp he
      obtain rfl : x = '|' := by simpa using hx
      exact absurd (hmem _ _ hone.after) (by decide)
  have hall : statementBreak.allMatches (name ++ " = ".toList) = [] := by
    rw [allMatches, matchesFrom_eq_readAll takesSome_statementBreak, List.eq_nil_iff_forall_not_mem]
    intro value hvalue
    obtain ⟨stretch, c, stop, hreach, hread⟩ := Cursor.exists_read_of_mem_readAll
      (isProgressive_reading takesSome_statementBreak) hvalue
    obtain ⟨d, hd, -⟩ := Option.map_eq_some_iff.mp hread
    exact hnone c d (by rw [hreach.text, Cursor.text_start]) (List.mem_of_head? hd)
  rw [lastStatement, hall]
  rfl

/-- The name is what an assignment assigns to. -/
theorem targetOf_line (hname : IsLocalName name) : targetOf (name ++ " = ".toList) = some name := by
  have hfirst := hname.first
  obtain ⟨x, more, rfl⟩ : ∃ x more, name = x :: more := by
    cases name with
    | nil => cases hfirst
    | cons x more => exact ⟨x, more, rfl⟩
  have hx : CharClass.isLowerStart x = true := hfirst
  have hsigil : (maybe (char '@')).ends ⟨[], x :: (more ++ " = ".toList)⟩ =
      [⟨[], x :: (more ++ " = ".toList)⟩] := by
    have hnot : x ≠ '@' := by
      rintro rfl
      exact absurd hx (by decide)
    simp [maybe, ends_either, char, ends_one, ends_empty, hnot]
  have hone : (one CharClass.isLowerStart).ends ⟨[], x :: (more ++ " = ".toList)⟩ =
      [⟨[x], more ++ " = ".toList⟩] := if_pos hx
  obtain ⟨shorter, hrun, -⟩ := exists_ends_run CharClass.isWord ⟨[x], more ++ " = ".toList⟩
  have hmore : ∀ y ∈ more, CharClass.isWord y = true := fun y hy =>
    hname.word y (List.mem_cons_of_mem _ hy)
  have hend : afterRun CharClass.isWord ⟨[x], more ++ " = ".toList⟩ =
      ⟨(x :: more).reverse, " = ".toList⟩ := by
    rw [afterRun_append hmore (by rfl), List.reverse_cons]
  have hhead : (targetName.ends ⟨[], x :: (more ++ " = ".toList)⟩).head? =
      some ⟨(x :: more).reverse, " = ".toList⟩ :=
    head?_ends_seq hsigil (Invocation.head?_ends_seq hsigil (Invocation.head?_ends_seq hone
      (head?_ends_seq (hrun.trans (by rw [hend])) rfl)))
  obtain ⟨others, hends⟩ := List.head?_eq_some_iff.mp hhead
  have htail : operatorTail.occursAt ⟨(x :: more).reverse, " = ".toList⟩ = true := rfl
  have hpass : Cursor.Passes ⟨[], x :: (more ++ " = ".toList)⟩ (x :: more)
      ⟨(x :: more).reverse, " = ".toList⟩ := ⟨rfl, (List.append_nil _).symm⟩
  rw [targetOf, Cursor.first?, Cursor.start, List.cons_append, Cursor.findSome?, hends]
  simp only [List.findSome?_cons, htail, if_true, hpass.upTo]

end Assignment

/-! ### The call -/

namespace CallSite

variable {name factory more rest text : Text} {c stop : Cursor} {h : Head}

/-- No longer method name goes on where one ends. -/
theorem precedes_extendsName_of_mem_notKey {d : Cursor} (hd : d ∈ Reference.notKey.ends c) :
    c.precedes Reference.extendsName = false := by
  obtain ⟨before, after⟩ := c
  cases after with
  | nil => rfl
  | cons x after =>
    rw [Bool.eq_false_iff]
    intro hextends
    have hone : (one Reference.extendsName).ends ⟨before, x :: after⟩ = [⟨x :: before, after⟩] :=
      if_pos hextends
    have hempty := (eq_of_mem_condition hd).1
    rw [ends_either, hone] at hempty
    cases hempty

/-- No word goes on where a method name ends. -/
theorem precedes_isWord_of_mem_notKey {d : Cursor} (hd : d ∈ Reference.notKey.ends c) :
    c.precedes CharClass.isWord = false := by
  refine any_eq_false_of_imp (fun x hword => ?_) (precedes_extendsName_of_mem_notKey hd)
  rw [Reference.extendsName, hword]
  rfl

/-- A method name is one word. -/
theorem isWord_of_mem_method {v : Variant} : ∀ x ∈ v.method.toList, CharClass.isWord x = true := by
  cases v <;> decide

/-- A head before the right-hand side of an assignment is the name alone. -/
theorem passes_of_headAt?_line (hname : IsLocalName name)
    (htext : c.text = name ++ (" = ".toList ++ rest)) (hoffset : c.offset < name.length + 3)
    (hhead : headAt? c = some (h, stop)) : c.before = [] ∧ c.Passes name stop := by
  have hstands := standsAt_of_headAt? hhead
  obtain ⟨lead, hlead, hpass⟩ := exists_isLead_of_mem_receiver hstands.receiver
  cases hlead with
  | bare =>
    have hcallee := hstands.callee
    rw [hpass.unique (.refl c)] at hcallee
    obtain ⟨hstart, hmethod⟩ := eq_of_word hname.word htext hoffset hcallee isWord_of_mem_method
      (method_ne_nil _) hstands.follows_isWord (precedes_isWord_of_mem_notKey hstands.notKey)
    exact ⟨hstart, hmethod ▸ hcallee⟩
  | @library library before behind hlibrary hblank hbehind =>
    rw [List.append_assoc] at hpass
    obtain ⟨last, hlast, hmore⟩ := hpass.split
    have hafter : last.precedes CharClass.isWord = false := by
      rw [Cursor.precedes, hmore.after]
      cases before with
      | nil => exact (by decide : CharClass.isWord '.' = false)
      | cons x before => exact CharClass.isWord_eq_false_of_isBlank (hblank x List.mem_cons_self)
    obtain ⟨hword, hcapital, hreverse⟩ := exists_reverse_of_mem_libraries hlibrary
    have hnonempty : library ≠ [] := fun hempty => hreverse (List.reverse_eq_nil_iff.mpr hempty)
    obtain ⟨-, rfl⟩ := eq_of_word hname.word htext hoffset hlast hword hnonempty
      hstands.follows_isWord hafter
    rw [hname.first] at hcapital
    cases hcapital

/-- A strategy's name that is assigned to is not called. -/
theorem call?_line (hbefore : c.before = []) (htext : c.text = name ++ (" = ".toList ++ more))
    (hpass : c.Passes name h.last) : h.call? (name ++ (" = ".toList ++ rest)) = none := by
  have hoffset : h.last.offset = name.length := by
    rw [hpass.offset, Cursor.offset, hbefore]
    simp
  have hafter : h.last.after = ' ' :: '=' :: ' ' :: more := by
    rw [Cursor.text, hbefore, hpass.after] at htext
    exact List.append_cancel_left htext
  have hgap : h.last.after.takeWhile CharClass.isSpaceOrTab = [' '] := by
    rw [hafter]
    rfl
  have hdrop : (name ++ (" = ".toList ++ rest)).drop (name.length + 1) = '=' :: ' ' :: rest := by
    rw [List.drop_length_add_append]
    rfl
  unfold Head.call?
  split
  · rfl
  · dsimp only
    rw [hgap, hoffset, List.length_singleton, hdrop, hafter]
    rfl

/-- What leads to the name in a method definition is `def` with blanks and letters of `self` behind
it, up to the end of the line. -/
theorem exists_suffix_of_definitionLead {line : Text}
    (h : definitionLead.occurs (Cursor.start line) = true) :
    ∃ behind, "def".toList ++ behind <:+ line ∧
      ∀ x ∈ behind, CharClass.isBlank x = true ∨ x ∈ "self.".toList := by
  obtain ⟨stretch, d, hreach, hends⟩ := occurs_iff.mp h
  obtain ⟨e, he⟩ := List.exists_mem_of_ne_nil _ hends
  obtain ⟨c₁, hedge, h₁⟩ := mem_ends_seq.mp he
  obtain ⟨c₂, hdef, h₂⟩ := mem_ends_seq.mp h₁
  obtain ⟨c₃, hblank, h₃⟩ := mem_ends_seq.mp h₂
  obtain ⟨c₄, hblanks, h₄⟩ := mem_ends_seq.mp h₃
  obtain ⟨c₅, hself, h₅⟩ := mem_ends_seq.mp h₄
  obtain ⟨c₆, hend, -⟩ := mem_ends_seq.mp h₅
  obtain ⟨-, rfl⟩ := eq_of_mem_condition hedge
  obtain ⟨hlast, -⟩ := eq_of_mem_condition hend
  have hlast : c₅.after = [] := List.isEmpty_iff.mp hlast
  let accepts (x : Char) : Bool := CharClass.isBlank x || "self.".toList.contains x
  have honly : PassesOnly accepts (.seq (.one CharClass.isBlank) (.seq .blanks
      (.maybe (.chain [.word "self", .blanks, .char '.', .blanks])))) := by
    have hblank (x : Char) (hx : CharClass.isBlank x = true) : accepts x = true := by
      simp [accepts, hx]
    have hdot (x : Char) (hx : (x == '.') = true) : accepts x = true := by
      rw [eq_of_beq hx]
      rfl
    exact (passesOnly_one hblank).seq ((passesOnly_run hblank).seq
      (((passesOnly_literal (by decide)).seq ((passesOnly_run hblank).seq ((passesOnly_one hdot).seq
        ((passesOnly_run hblank).seq passesOnly_empty)))).maybe))
  obtain ⟨behind, hbehind, hpass⟩ := honly c₂ c₅
    (mem_ends_seq.mpr ⟨c₃, hblank, mem_ends_seq.mpr ⟨c₄, hblanks, hself⟩⟩)
  have hall := (mem_ends_literal.mp hdef).trans hpass
  refine ⟨behind, ?_, fun x hx => ?_⟩
  · have htext := hall.text.trans hreach.text
    rw [Cursor.text, hlast, List.append_nil, hall.before, List.reverse_append,
      List.reverse_reverse, Cursor.text_start] at htext
    exact ⟨_, htext⟩
  · exact (Bool.or_eq_true_iff.mp (hbehind x hx)).imp_right List.contains_iff_mem.mp

/-- A name is not that of a method definition if another character than those of `def self.` leads
to it. -/
theorem Head.isDefinition_eq_false {h : Head} {gap outer : Text} {x : Char}
    (hbefore : h.first.before = gap ++ x :: outer)
    (hgap : ∀ y ∈ gap, CharClass.isBlank y = true) (hblank : CharClass.isBlank x = false)
    (hx : x ∉ "def self.".toList) : h.isDefinition = false := by
  rw [Head.isDefinition, Bool.eq_false_iff]
  intro hoccurs
  obtain ⟨behind, hsuffix, hbehind⟩ := exists_suffix_of_definitionLead hoccurs
  have hdefinition : "def".toList ++ behind <:+ h.first.before.reverse :=
    hsuffix.trans (List.reverse_suffix.mpr (List.takeWhile_prefix _))
  have hlead : x :: gap.reverse <:+ h.first.before.reverse := by
    rw [hbefore]
    exact ⟨outer.reverse, by simp⟩
  rcases List.suffix_or_suffix_of_suffix hdefinition hlead with hinside | hinside
  · -- the definition would begin at the character or at a blank
    have hmem : 'd' ∈ x :: gap.reverse := hinside.subset (by simp)
    rcases List.mem_cons.mp hmem with rfl | hmem
    · exact hx (by decide)
    · exact absurd (hgap _ (List.mem_reverse.mp hmem)) (by decide)
  · have hmem : x ∈ "def".toList ++ behind := hinside.subset List.mem_cons_self
    rcases List.mem_append.mp hmem with hmem | hmem
    · exact hx ((by decide : ∀ y ∈ "def".toList, y ∈ "def self.".toList) x hmem)
    · rcases hbehind x hmem with hmem | hmem
      · rw [hmem] at hblank
        cases hblank
      · exact hx ((by decide : ∀ y ∈ "self.".toList, y ∈ "def self.".toList) x hmem)

/-- The call that creates the record. -/
def creation (name factory : Text) : Call where
  variant := .create
  start := name.length + 3
  stop := name.length + factory.length + 12
  calleeStart := name.length + 3
  calleeStop := name.length + 9
  argsStart := name.length + 10
  argsStop := name.length + factory.length + 11
  schemaName := some factory
  fault := none

/-- Its head in a text where more follows. -/
def creationHead (name factory more : Text) : Head where
  first := ⟨(name ++ " = ".toList).reverse, "create(:".toList ++ (factory ++ ')' :: more)⟩
  callee := ⟨(name ++ " = ".toList).reverse, "create(:".toList ++ (factory ++ ')' :: more)⟩
  last := ⟨(name ++ " = create".toList).reverse, "(:".toList ++ (factory ++ ')' :: more)⟩
  variant := .create

/-- A factory name that is a symbol ends where its word does. -/
theorem factoryName?_symbol {tail : Text} (hfactory : IsSymbol factory)
    (htail : tail.head?.any CharClass.isWord = false) :
    factoryName? (':' :: (factory ++ tail)) = some factory := by
  have hfirst := hfactory.first
  cases factory with
  | nil => cases hfirst
  | cons x factory =>
    have hx : CharClass.isNameStart x = true := hfirst
    have hrest : (factory ++ tail).takeWhile CharClass.isWord = factory :=
      (takeWhile_append_stop (fun y hy => hfactory.word y (List.mem_cons_of_mem _ hy)) htail).1
    have htrim : Text.trimLeft (':' :: (x :: factory ++ tail)) =
        ':' :: x :: (factory ++ tail) := rfl
    have hquote : x ≠ '"' := by
      rintro rfl
      exact absurd hx (by decide)
    unfold factoryName?
    rw [htrim]
    split
    · rename_i heq
      exact absurd (List.cons.inj (List.cons.inj heq).2).1 hquote
    · rename_i heq
      obtain ⟨rfl, rfl⟩ := List.cons.inj (List.cons.inj heq).2
      rw [if_pos hx, hrest]
    · rename_i hnot heq
      exact (hnot (List.cons.inj heq).1.symm).elim
    · rename_i hnot
      exact (hnot _ _ _ rfl).elim

/-- A head with nested arguments between parentheses begins a call with these arguments. -/
theorem Head.call?_of_isNested {h : Head} {arguments more : Text} (hhead : h.isDefinition = false)
    (hafter : h.last.after = '(' :: (arguments ++ ')' :: more))
    (hnested : Bracket.IsNested arguments) (text : Text) :
    h.call? text = some (h.call text (h.last.offset + 1) (h.last.offset + (arguments.length + 1))
      (h.last.offset + (arguments.length + 1) + 1)) := by
  have hclose : Bracket.closeDistance BracketRole.ofChar [] h.last.after =
      some (arguments.length + 1) := by
    rw [hafter]
    exact hnested.closeDistance_eq .round more
  exact Head.call?_eq_some_iff.mpr ⟨hhead, .parenthesized (by rw [hafter]; rfl) hclose⟩

/-- The head is that of the creating call. -/
theorem call?_creationHead (hfactory : IsSymbol factory) :
    (creationHead name factory more).call? (assigned name factory rest) =
      some (creation name factory) := by
  have hdefinition : (creationHead name factory more).isDefinition = false := by
    have hbefore : (creationHead name factory more).first.before =
        [' '] ++ '=' :: ' ' :: name.reverse := by simp [creationHead]
    exact Head.isDefinition_eq_false hbefore (by decide) (by decide) (by decide)
  have hnested : Bracket.IsNested (':' :: factory) := by
    refine .of_plain fun x hx => ?_
    rcases List.mem_cons.mp hx with rfl | hx
    · rfl
    · exact Code.ofChar_of_isPlain (Code.isPlain_of_isWord (hfactory.word x hx))
  have hslice : (assigned name factory rest).slice (name.length + 10)
      (name.length + factory.length + 11) = ':' :: factory := by
    have hpass : Cursor.Passes
        ⟨(name ++ " = create(".toList).reverse, (':' :: factory) ++ ')' :: rest⟩ (':' :: factory)
        ⟨(':' :: factory).reverse ++ (name ++ " = create(".toList).reverse, ')' :: rest⟩ :=
      ⟨rfl, rfl⟩
    have hslice := hpass.slice
    have hlead : (name ++ " = create(".toList).length = name.length + 10 := by simp
    rw [hpass.offset, Cursor.offset, Cursor.text, List.reverse_reverse, List.length_reverse,
      hlead] at hslice
    have htext : name ++ " = create(".toList ++ ((':' :: factory) ++ ')' :: rest) =
        assigned name factory rest := by simp [assigned]
    have hstop : name.length + 10 + (':' :: factory).length =
        name.length + factory.length + 11 := by
      simp only [List.length_cons]
      omega
    rwa [htext, hstop] at hslice
  have hoffset : (creationHead name factory more).last.offset = name.length + 9 := by
    simp [creationHead, Cursor.offset]
  have hstart : (creationHead name factory more).first.offset = name.length + 3 := by
    simp [creationHead, Cursor.offset]
  have hcallee : (creationHead name factory more).callee.offset = name.length + 3 := hstart
  have hstop : name.length + 9 + ((':' :: factory).length + 1) =
      name.length + factory.length + 11 := by
    simp only [List.length_cons]
    omega
  have hsymbol : factoryName? (':' :: factory) = some factory := by
    have hnone : ([] : Text).head?.any CharClass.isWord = false := rfl
    simpa using factoryName?_symbol hfactory hnone
  rw [Head.call?_of_isNested hdefinition rfl hnested, hoffset, hstop, Head.call]
  simp only [hslice, hsymbol, hstart, hcallee, hoffset]
  rfl

/-- It is one of the heads of the masked text. -/
theorem creationHead_mem_heads (hname : IsLocalName name) :
    creationHead name factory more ∈ heads (assigned name factory more) := by
  have hread : headAt? (creationHead name factory more).first =
      some (creationHead name factory more, (creationHead name factory more).last) := by
    have hreverse (word : Text) : (name ++ (" = ".toList ++ word)).reverse =
        word.reverse ++ ' ' :: '=' :: ' ' :: name.reverse := by simp
    have hfirst := hreverse []
    have hlast := hreverse "create".toList
    simp only [creationHead, List.append_nil] at hfirst hlast ⊢
    have hcreate : " = create".toList = " = ".toList ++ "create".toList := rfl
    rw [hcreate, hfirst, hlast]
    rfl
  have hreach : (Cursor.start (assigned name factory more)).Passes (name ++ " = ".toList)
      (creationHead name factory more).first :=
    ⟨by simp [assigned, creationHead, Cursor.start], by simp [creationHead, Cursor.start]⟩
  refine Cursor.mem_readAll isProgressive_headAt? hreach hread
    fun first behind hsplit hbehind e e' other he hother => ?_
  have hlength := congrArg List.length hsplit
  have hpos := List.length_pos_iff.mpr hbehind
  have hplace : e.offset < name.length + 3 := by
    rw [he.offset]
    simp only [List.length_append] at hlength
    have hthree : " = ".toList.length = 3 := rfl
    have hstart : (Cursor.start (assigned name factory more)).offset = 0 := rfl
    omega
  obtain ⟨hstart, hpass⟩ := passes_of_headAt?_line hname (he.text.trans (by rfl)) hplace hother
  rw [hpass.offset, hreach.offset, Cursor.offset, hstart, List.length_nil, List.length_append]
  omega

/-- A call that no other one starts before is the first. -/
theorem exists_calls_eq_cons {call : Call} (hmem : call ∈ calls text (mask text))
    (hfirst : ∀ other ∈ calls text (mask text), call.start ≤ other.start) :
    ∃ others, calls text (mask text) = call :: others := by
  have hordered := pairwise_start_calls text
  generalize calls text (mask text) = all at *
  cases all with
  | nil => cases hmem
  | cons first others =>
    obtain ⟨hlater, -⟩ := List.pairwise_cons.mp hordered
    rcases List.mem_cons.mp hmem with rfl | hmem
    · exact ⟨others, rfl⟩
    · exact absurd (hlater _ hmem) (Nat.not_lt.mpr (hfirst first List.mem_cons_self))

/-- The first call of a text is not an argument of another one. -/
theorem enclosing?_of_calls_eq_cons {call : Call} {others : List Call}
    (hcalls : calls text (mask text) = call :: others) :
    Call.enclosing? (calls text (mask text)) call = none := by
  rw [← Option.not_isSome_iff_eq_none, Call.isSome_enclosing?_iff]
  rintro ⟨other, hother, hstart, hholds⟩
  have hcallee := (isSpelled_of_mem_calls hother).start_le
  have hstop := (isSpelled_of_mem_calls hother).stop_eq
  have hargs := (isFramed_of_mem_calls hother).calleeStop_lt
  have hordered := pairwise_start_calls text
  rw [hcalls] at hother hordered
  rcases List.mem_cons.mp hother with rfl | hother
  · exact hstart rfl
  · have hlater := (List.pairwise_cons.mp hordered).1 other hother
    have hinside : other.argsStart ≤ call.start :=
      of_decide_eq_true (Bool.and_eq_true_iff.mp hholds).1
    omega

/-- The first call of the text creates the record. -/
theorem exists_calls_assigned (hname : IsLocalName name) (hfactory : IsSymbol factory)
    (htext : text = assigned name factory rest) (hmask : mask text = assigned name factory more) :
    ∃ others, calls text (mask text) = creation name factory :: others := by
  have hmem : creation name factory ∈ calls text (mask text) := by
    refine List.mem_filterMap.mpr ⟨creationHead name factory more, ?_, ?_⟩
    · rw [hmask]
      exact creationHead_mem_heads hname
    · rw [htext]
      exact call?_creationHead hfactory
  have hfirst : ∀ call ∈ calls text (mask text), name.length + 3 ≤ call.start := by
    intro call hcall
    obtain ⟨head, hhead, hread⟩ := List.mem_filterMap.mp hcall
    rw [(hasHead_of_call? hread).start]
    by_contra hplace
    obtain ⟨stretch, c, stop, hreach, hc⟩ :=
      Cursor.exists_read_of_mem_readAll isProgressive_headAt? hhead
    have hstands := standsAt_of_headAt? hc
    rw [hstands.first] at hplace
    have hwhole : c.text = assigned name factory more := by
      rw [hreach.text, Cursor.text_start, hmask]
    obtain ⟨hbefore, hpass⟩ := passes_of_headAt?_line hname hwhole (Nat.lt_of_not_le hplace) hc
    rw [htext, assigned, call?_line hbefore hwhole (hstands.last ▸ hpass)] at hread
    cases hread
  exact exists_calls_eq_cons hmem hfirst

/-- The first site of the text is the creating call, with the name bound to it. -/
theorem exists_extract_assigned (hname : IsLocalName name) (hfactory : IsSymbol factory)
    (htext : text = assigned name factory rest) (hmask : mask text = assigned name factory more) :
    ∃ sites, extract text = siteOf text (creation name factory) :: sites ∧
      (siteOf text (creation name factory)).bindingName = some name := by
  obtain ⟨others, hcalls⟩ := exists_calls_assigned hname hfactory htext hmask
  refine ⟨others.map (siteOf text), by rw [extract_eq_map, hcalls, List.map_cons], ?_⟩
  have houter := enclosing?_of_calls_eq_cons hcalls
  have hplace : Cursor.place (mask text) (name.length + 3) =
      ⟨(name ++ " = ".toList).reverse, "create(:".toList ++ (factory ++ ')' :: more)⟩ := by
    have hlead : name.length + 3 = (name ++ " = ".toList).length := by simp
    rw [hmask, assigned, ← List.append_assoc, hlead, Cursor.place, List.take_left, List.drop_left]
  have htarget : Assignment.target? (Cursor.place (mask text) (name.length + 3)) = some name := by
    rw [hplace, Assignment.target?, Assignment.lineHead_line hname.word,
      Assignment.lastStatement_line hname, Assignment.targetOf_line hname]
  rw [siteOf, ofCall]
  dsimp only
  rw [houter, creation]
  dsimp only
  rw [boundName?, htarget]
  rfl

end CallSite

end FactoryDowngrade
