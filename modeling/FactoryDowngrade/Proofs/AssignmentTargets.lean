import FactoryDowngrade.Proofs.AssignedCreation
import FactoryDowngrade.Ruby.Reference

/-!
# What an assignment assigns to

The name assigned to is the longest name of a local or an instance variable in front of the
operator at the end of the statement. Nothing asks what stands before that name, so it may be the
tail of something longer: of an attribute behind a dot, of a global variable, of a constant path, or
of a word that begins with a capital or a digit. A reference to the name is not seen in such a
place. With nothing of this kind before it the name is a reference where it is assigned to.
-/

namespace FactoryDowngrade

open Pattern

namespace Assignment

/-! ### Names and operators -/

/-- The name of a local variable, or of an instance variable with its sigils. -/
structure IsTargetName (name : Text) : Prop where
  split : ∃ sigils first more, sigils ∈ ["", "@", "@@"].map String.toList ∧
    CharClass.isLowerStart first = true ∧ (∀ x ∈ more, CharClass.isWord x = true) ∧
    name = sigils ++ first :: more

/-- A sign of equality, with two bars before it perhaps, and blanks on either side. -/
structure IsOperator (gap : Text) : Prop where
  split : ∃ lead bars tail, (∀ x ∈ lead, CharClass.isBlank x = true) ∧
    bars ∈ ["||", ""].map String.toList ∧ (∀ x ∈ tail, CharClass.isBlank x = true) ∧
    gap = lead ++ (bars ++ '=' :: tail)

/-- The name pattern reads the names of variables. -/
theorem mem_ends_targetName {c d : Cursor} :
    d ∈ targetName.ends c ↔ ∃ name, IsTargetName name ∧ c.Passes name d := by
  have hname (e : Cursor) : d ∈ (seq (one CharClass.isLowerStart) (seq wordRun empty)).ends e ↔
      ∃ x more, CharClass.isLowerStart x = true ∧ (∀ y ∈ more, CharClass.isWord y = true) ∧
        e.Passes (x :: more) d := by
    have hrun : (seq wordRun empty).ends = wordRun.ends :=
      funext fun e => List.flatMap_singleton' _
    rw [ends_seq, hrun, ← ends_seq, wordRun, mem_ends_one_run]
  change d ∈ (seq (maybe (char '@')) (seq (maybe (char '@'))
    (seq (one CharClass.isLowerStart) (seq wordRun empty)))).ends c ↔ _
  simp only [mem_ends_seq (p := maybe (char '@')), mem_ends_maybe, mem_ends_char, hname]
  constructor
  · rintro ⟨e, hfirst, e', hsecond, x, more, hx, hmore, hpass⟩
    obtain ⟨sigils, hsigils, hlead⟩ : ∃ sigils ∈ ["", "@", "@@"].map String.toList,
        c.Passes sigils e' := by
      rcases hfirst with hfirst | rfl <;> rcases hsecond with hsecond | rfl
      · exact ⟨_, by decide, hfirst.trans hsecond⟩
      · exact ⟨_, by decide, hfirst⟩
      · exact ⟨_, by decide, hsecond⟩
      · exact ⟨_, by decide, .refl _⟩
    exact ⟨sigils ++ x :: more, ⟨sigils, x, more, hsigils, hx, hmore, rfl⟩, hlead.trans hpass⟩
  · rintro ⟨_, ⟨sigils, x, more, hsigils, hx, hmore, rfl⟩, hpass⟩
    obtain ⟨e, hlead, hrest⟩ := hpass.split
    simp only [List.map_cons, List.map_nil, List.mem_cons, List.not_mem_nil, or_false] at hsigils
    rcases hsigils with rfl | rfl | rfl
    · obtain rfl := hlead.unique (.refl c)
      exact ⟨_, .inr rfl, _, .inr rfl, x, more, hx, hmore, hrest⟩
    · exact ⟨e, .inl hlead, _, .inr rfl, x, more, hx, hmore, hrest⟩
    · have hboth : c.Passes (['@'] ++ ['@']) e := hlead
      obtain ⟨middle, hfirst, hsecond⟩ := hboth.split
      exact ⟨middle, .inl hfirst, e, .inl hsecond, x, more, hx, hmore, hrest⟩

/-- The operator pattern accepts what is left of a text if that is an operator. -/
theorem occursAt_operatorTail_iff {c : Cursor} :
    operatorTail.occursAt c = true ↔ IsOperator c.after := by
  rw [occursAt_iff]
  constructor
  · rintro ⟨d, hd⟩
    obtain ⟨c₁, hlead, h₁⟩ := mem_ends_seq.mp hd
    obtain ⟨c₂, hbars, h₂⟩ := mem_ends_seq.mp h₁
    obtain ⟨c₃, hequals, h₃⟩ := mem_ends_seq.mp h₂
    obtain ⟨c₄, htail, h₄⟩ := mem_ends_seq.mp h₃
    obtain ⟨c₅, hend, -⟩ := mem_ends_seq.mp h₄
    obtain ⟨hempty, rfl⟩ := eq_of_mem_condition hend
    obtain ⟨lead, hblank, hlead⟩ := mem_ends_run.mp hlead
    obtain ⟨x, hx, hequals⟩ := mem_ends_one.mp hequals
    obtain rfl : x = '=' := by simpa using hx
    obtain ⟨tail, hblank', htail⟩ := mem_ends_run.mp htail
    obtain ⟨bars, hmem, hbars⟩ : ∃ bars ∈ ["||", ""].map String.toList, c₁.Passes bars c₂ := by
      rcases mem_ends_maybe.mp hbars with hbars | rfl
      · exact ⟨_, by decide, mem_ends_literal.mp hbars⟩
      · exact ⟨_, by decide, .refl _⟩
    refine ⟨lead, bars, tail, hblank, hmem, hblank', ?_⟩
    rw [(hlead.trans (hbars.trans (hequals.trans htail))).after, List.isEmpty_iff.mp hempty,
      List.append_nil]
    rfl
  · rintro ⟨lead, bars, tail, hblank, hmem, hblank', hafter⟩
    have hpass : c.Passes (lead ++ (bars ++ (['='] ++ tail)))
        ⟨(lead ++ (bars ++ (['='] ++ tail))).reverse ++ c.before, []⟩ := ⟨by simp [hafter], rfl⟩
    obtain ⟨c₁, hlead, h₁⟩ := hpass.split
    obtain ⟨c₂, hbars, h₂⟩ := h₁.split
    obtain ⟨c₃, hequals, htail⟩ := h₂.split
    have hmaybe : c₂ ∈ (maybe (word "||")).ends c₁ := by
      simp only [List.map_cons, List.map_nil, List.mem_cons, List.not_mem_nil, or_false] at hmem
      rcases hmem with rfl | rfl
      · exact mem_ends_maybe.mpr (.inl (mem_ends_literal.mpr hbars))
      · exact mem_ends_maybe.mpr (.inr (hbars.unique (.refl _)))
    exact ⟨_, mem_ends_seq.mpr ⟨c₁, mem_ends_run.mpr ⟨lead, hblank, hlead⟩, mem_ends_seq.mpr
      ⟨c₂, hmaybe, mem_ends_seq.mpr ⟨c₃, mem_ends_one.mpr ⟨'=', rfl, hequals⟩, mem_ends_seq.mpr
        ⟨_, mem_ends_run.mpr ⟨tail, hblank', htail⟩, mem_ends_seq.mpr
          ⟨_, List.mem_singleton_self _, List.mem_singleton_self _⟩⟩⟩⟩⟩⟩

/-- An operator holds nothing that a name may hold. -/
theorem IsOperator.mem {gap : Text} (h : IsOperator gap) {x : Char} (hx : x ∈ gap) :
    CharClass.isWord x = false ∧ x ≠ '@' := by
  obtain ⟨lead, bars, tail, hlead, hbars, htail, rfl⟩ := h
  have hblank (x : Char) (hx : CharClass.isBlank x = true) :
      CharClass.isWord x = false ∧ x ≠ '@' := by
    refine ⟨CharClass.isWord_eq_false_of_isBlank hx, ?_⟩
    rintro rfl
    exact absurd hx (by decide)
  have hsign : ∀ bars ∈ ["||", ""].map String.toList, ∀ x ∈ bars,
      CharClass.isWord x = false ∧ x ≠ '@' := by decide
  rcases List.mem_append.mp hx with hx | hx
  · exact hblank x (hlead x hx)
  rcases List.mem_append.mp hx with hx | hx
  · exact hsign bars hbars x hx
  rcases List.mem_cons.mp hx with rfl | hx
  · decide
  · exact hblank x (htail x hx)

namespace IsTargetName

variable {name : Text}

/-- A name holds word characters and sigils only. -/
theorem mem (h : IsTargetName name) {x : Char} (hx : x ∈ name) :
    CharClass.isWord x = true ∨ x = '@' := by
  obtain ⟨sigils, first, more, hsigils, hfirst, hmore, rfl⟩ := h
  have hsigil : ∀ sigils ∈ ["", "@", "@@"].map String.toList, ∀ x ∈ sigils, x = '@' := by decide
  rcases List.mem_append.mp hx with hx | hx
  · exact .inr (hsigil sigils hsigils x hx)
  rcases List.mem_cons.mp hx with rfl | hx
  · exact .inl (CharClass.isWord_of_isLowerStart hfirst)
  · exact .inl (hmore x hx)

/-- A target has a character at least. -/
theorem ne_nil (h : IsTargetName name) : name ≠ [] := by
  obtain ⟨sigils, first, more, -, -, -, rfl⟩ := h
  simp

/-- No operator begins inside a name. -/
theorem not_isOperator (h : IsTargetName name) {front back gap : Text} (hback : back ≠ [])
    (hsplit : name = front ++ back) : ¬IsOperator (back ++ gap) := by
  intro hgap
  obtain ⟨x, back, rfl⟩ := List.exists_cons_of_ne_nil hback
  obtain ⟨hword, hsigil⟩ := hgap.mem (x := x) (by simp)
  rcases h.mem (x := x) (by simp [hsplit]) with hx | hx
  · rw [hword] at hx
    cases hx
  · exact hsigil hx

/-- In front of an operator a name ends in one way only. -/
theorem eq_of_append (h : IsTargetName name) {other gap gap' : Text} (hother : IsTargetName other)
    (hgap : IsOperator gap) (hgap' : IsOperator gap') {lead : Text}
    (hsplit : lead ++ name ++ gap = other ++ gap') : other = lead ++ name := by
  rcases List.append_eq_append_iff.mp hsplit with ⟨back, hback, rest⟩ | ⟨back, hback, rest⟩
  · by_cases hempty : back = []
    · rw [hback, hempty, List.append_nil]
    · exact absurd (rest ▸ hgap) (hother.not_isOperator hempty hback)
  · by_cases hempty : back = []
    · rw [hback, hempty, List.append_nil]
    · -- what is left over ends as the name does
      obtain ⟨front, x, rfl⟩ := (List.eq_nil_or_concat' back).resolve_left hempty
      obtain ⟨init, y, rfl⟩ := (List.eq_nil_or_concat' name).resolve_left h.ne_nil
      rw [← List.append_assoc, ← List.append_assoc] at hback
      obtain ⟨-, hlast⟩ := List.append_inj' hback rfl
      obtain rfl := (List.cons.inj hlast).1
      obtain ⟨hword, hsigil⟩ := hgap'.mem (x := y) (by simp [rest])
      rcases h.mem (x := y) (by simp) with hy | hy
      · rw [hword] at hy
        cases hy
      · exact absurd hy hsigil

end IsTargetName

/-! ### The longest name before the operator -/

/-- What a place assigns to is the name up to the operator at the end. -/
theorem targetAt?_eq_some_iff {c : Cursor} {name : Text} :
    targetAt? c = some name ↔
      ∃ gap, IsTargetName name ∧ IsOperator gap ∧ c.after = name ++ gap := by
  have hsound {name : Text} (h : targetAt? c = some name) :
      ∃ gap, IsTargetName name ∧ IsOperator gap ∧ c.after = name ++ gap := by
    obtain ⟨d, hd, hname⟩ := List.exists_of_findSome?_eq_some h
    obtain ⟨found, hfound, hpass⟩ := mem_ends_targetName.mp hd
    split at hname
    · rename_i hoperator
      obtain rfl := Option.some.inj hname
      rw [hpass.upTo]
      exact ⟨d.after, hfound, occursAt_operatorTail_iff.mp hoperator, hpass.after⟩
    · cases hname
  refine ⟨hsound, fun ⟨gap, hname, hgap, hafter⟩ => ?_⟩
  have hpass : c.Passes name ⟨name.reverse ++ c.before, gap⟩ := ⟨hafter, rfl⟩
  cases hfound : targetAt? c with
  | none =>
    have hnone := List.findSome?_eq_none_iff.mp hfound _
      (mem_ends_targetName.mpr ⟨name, hname, hpass⟩)
    rw [if_pos (occursAt_operatorTail_iff.mpr hgap)] at hnone
    cases hnone
  | some found =>
    obtain ⟨gap', hfound, hgap', hafter'⟩ := hsound hfound
    have hsplit : [] ++ name ++ gap = found ++ gap' := hafter.symm.trans hafter'
    rw [hname.eq_of_append hfound hgap hgap' hsplit]
    rfl

/-- The name that a statement assigns to is the longest one up to the operator at its end. -/
theorem targetOf_eq_some_iff {statement name : Text} :
    targetOf statement = some name ↔ ∃ lead gap, IsTargetName name ∧ IsOperator gap ∧
      statement = lead ++ name ++ gap ∧
        ∀ front back, lead = front ++ back → IsTargetName (back ++ name) → back = [] := by
  have hfirst : targetOf statement = Cursor.first? targetAt? (Cursor.start statement) := rfl
  rw [hfirst, Cursor.first?_eq_some_iff]
  constructor
  · rintro ⟨lead, d, hpass, hd, hearlier⟩
    obtain ⟨gap, hname, hgap, hafter⟩ := targetAt?_eq_some_iff.mp hd
    have hstatement : statement = lead ++ name ++ gap := by
      rw [List.append_assoc, ← hafter]
      exact hpass.after
    refine ⟨lead, gap, hname, hgap, hstatement, fun front back hlead hlonger => ?_⟩
    by_contra hback
    have he : (Cursor.start statement).Passes front ⟨front.reverse, back ++ name ++ gap⟩ :=
      ⟨by simp [Cursor.start, hstatement, hlead], by simp [Cursor.start]⟩
    have hnone := hearlier front back _ hlead hback he
    rw [targetAt?_eq_some_iff.mpr ⟨gap, hlonger, hgap, rfl⟩] at hnone
    cases hnone
  · rintro ⟨lead, gap, hname, hgap, rfl, hlongest⟩
    refine ⟨lead, ⟨lead.reverse, name ++ gap⟩, ⟨by simp [Cursor.start], by simp [Cursor.start]⟩,
      targetAt?_eq_some_iff.mpr ⟨gap, hname, hgap, rfl⟩, fun front back e hlead hback he => ?_⟩
    rw [Option.eq_none_iff_forall_ne_some]
    intro found hfound
    obtain ⟨gap', hfound, hgap', hafter⟩ := targetAt?_eq_some_iff.mp hfound
    have hrest : back ++ name ++ gap = found ++ gap' := by
      have hwhole := he.after
      rw [Cursor.start, hlead, hafter] at hwhole
      simpa using hwhole
    obtain rfl := hname.eq_of_append hfound hgap hgap' hrest
    exact hback (hlongest front back hlead hfound)

/-! ### What may stand before the name -/

/-- A character with which a local name begins makes a longer name of a local name. -/
theorem IsTargetName.cons_first {name : Text} (h : IsTargetName name)
    (hlocal : name.head? ≠ some '@') {x : Char} (hx : CharClass.isLowerStart x = true) :
    IsTargetName (x :: name) := by
  obtain ⟨sigils, first, more, hsigils, hfirst, hmore, rfl⟩ := h
  simp only [List.map_cons, List.map_nil, List.mem_cons, List.not_mem_nil, or_false] at hsigils
  obtain rfl : sigils = [] := by
    rcases hsigils with rfl | rfl | rfl
    · rfl
    · exact absurd rfl hlocal
    · exact absurd rfl hlocal
  refine ⟨[], x, first :: more, by decide, hx, fun y hy => ?_, rfl⟩
  rcases List.mem_cons.mp hy with rfl | hy
  · exact CharClass.isWord_of_isLowerStart hfirst
  · exact hmore y hy

/-- A sigil makes a longer name of a name with fewer than two. -/
theorem IsTargetName.cons_sigil {name : Text} (h : IsTargetName name)
    (hsigils : name.startsWith "@@".toList = false) : IsTargetName ('@' :: name) := by
  obtain ⟨sigils, first, more, hmem, hfirst, hmore, rfl⟩ := h
  simp only [List.map_cons, List.map_nil, List.mem_cons, List.not_mem_nil, or_false] at hmem
  rcases hmem with rfl | rfl | rfl
  · exact ⟨['@'], first, more, by decide, hfirst, hmore, rfl⟩
  · exact ⟨['@', '@'], first, more, by decide, hfirst, hmore, rfl⟩
  · cases hsigils

/-- Characters that make the name assigned to the tail of something else. -/
def isGlue (name : Text) (x : Char) : Bool :=
  if name.head? = some '@' then CharClass.isWord x || (x == '@' && name.startsWith "@@".toList)
  else (CharClass.isWord x && !CharClass.isLowerStart x) || ['$', ':', '.'].contains x

/-- A reference is refused behind them. -/
theorem refusedBefore_of_isGlue {name : Text} {x : Char} (h : isGlue name x = true) :
    Reference.refusedBefore name x = true := by
  by_cases hsigil : name.head? = some '@'
  · rw [isGlue, if_pos hsigil] at h
    rw [Reference.refusedBefore, if_pos hsigil]
    simp only [Bool.or_eq_true, Bool.and_eq_true] at h ⊢
    exact h.imp_right And.left
  · rw [isGlue, if_neg hsigil] at h
    rw [Reference.refusedBefore, if_neg hsigil]
    simp only [Bool.or_eq_true, Bool.and_eq_true, List.contains_eq_mem, List.mem_cons,
      List.not_mem_nil, or_false, decide_eq_true_eq, beq_iff_eq] at h ⊢
    tauto

/-- Of the characters behind which a reference is refused, the others would make the name longer. -/
theorem isGlue_of_refusedBefore {name : Text} {x : Char} (hname : IsTargetName name)
    (hlongest : ¬IsTargetName (x :: name)) (h : Reference.refusedBefore name x = true) :
    isGlue name x = true := by
  have hdouble : x = '@' → name.startsWith "@@".toList = true := by
    rintro rfl
    by_contra hshort
    exact hlongest (hname.cons_sigil (Bool.eq_false_iff.mpr hshort))
  by_cases hsigil : name.head? = some '@'
  · rw [Reference.refusedBefore, if_pos hsigil] at h
    rw [isGlue, if_pos hsigil]
    simp only [Bool.or_eq_true, Bool.and_eq_true, beq_iff_eq] at h ⊢
    exact h.imp_right fun hx => ⟨hx, hdouble hx⟩
  · have hfirst : CharClass.isLowerStart x = false :=
      Bool.eq_false_iff.mpr fun hx => hlongest (hname.cons_first hsigil hx)
    have hsingle : x ≠ '@' := by
      intro hx
      obtain ⟨more, rfl⟩ := List.isPrefixOf_iff_prefix.mp (hdouble hx)
      exact hsigil rfl
    rw [Reference.refusedBefore, if_neg hsigil] at h
    rw [isGlue, if_neg hsigil]
    simp only [Bool.or_eq_true, Bool.and_eq_true, Bool.not_eq_true', List.contains_eq_mem,
      List.mem_cons, List.not_mem_nil, or_false, decide_eq_true_eq, beq_iff_eq] at h ⊢
    tauto

/-- The last statement of a line begins the line, or stands behind a mark or a whole word. -/
theorem exists_append_lastStatement (line : Text) :
    ∃ front, line = front ++ lastStatement line ∧ ∀ x ∈ front.getLast?, x ∈ [';', '\x7b', '|'] ∨
      CharClass.isWord x = true ∧ (lastStatement line).head?.any CharClass.isWord = false := by
  cases hlast : (statementBreak.allMatches line).getLast? with
  | none => exact ⟨[], by rw [lastStatement, hlast]; rfl, by simp⟩
  | some found =>
    obtain ⟨c, stop⟩ := found
    have hmem := List.mem_of_getLast? hlast
    rw [allMatches, matchesFrom_eq_readAll takesSome_statementBreak] at hmem
    obtain ⟨stretch, d, e, hreach, hread⟩ := Cursor.exists_read_of_mem_readAll
      (isProgressive_reading takesSome_statementBreak) hmem
    obtain ⟨last, hlast', hpair⟩ := Option.map_eq_some_iff.mp hread
    obtain ⟨hpair, -⟩ := Prod.mk.inj hpair
    obtain ⟨rfl, rfl⟩ := Prod.mk.inj hpair
    have hends : last ∈ statementBreak.ends d := List.mem_of_head? hlast'
    obtain ⟨taken, hpass⟩ := passes_of_mem_ends hends
    have hrest : lastStatement line = last.after := by rw [lastStatement, hlast]
    refine ⟨last.before.reverse, ?_, fun x hx => ?_⟩
    · rw [hrest]
      exact ((hreach.trans hpass).text).symm
    rw [List.getLast?_reverse] at hx
    obtain ⟨p, hp, hends⟩ := mem_ends_choice.mp hends
    have hkeyword (word : Text) (hword : ∀ x ∈ word, CharClass.isWord x = true)
        (hnonempty : word ≠ [])
        (hends : last ∈ (chain [.wordEdge, .literal word, .wordEdge]).ends d) :
        CharClass.isWord x = true ∧ (lastStatement line).head?.any CharClass.isWord = false := by
      obtain ⟨hpass, -, hafter⟩ := passes_of_mem_keyword hword hnonempty hends
      refine ⟨?_, by rw [hrest]; exact hafter⟩
      rw [hpass.before, List.head?_append_of_ne_nil _ (by simpa using hnonempty)] at hx
      exact hword x (List.mem_reverse.mp (List.mem_of_head? hx))
    simp only [List.mem_cons, List.not_mem_nil, or_false] at hp
    rcases hp with rfl | rfl | rfl | rfl
    · obtain ⟨y, hy, hone⟩ := mem_ends_one.mp hends
      have hsign : y = ';' ∨ y = '\x7b' := by simpa using hy
      rw [hone.before] at hx
      obtain rfl := Option.some.inj hx
      rcases hsign with rfl | rfl <;> exact .inl (by decide)
    · exact .inr (hkeyword _ (by decide) (by decide) hends)
    · exact .inr (hkeyword _ (by decide) (by decide) hends)
    · obtain ⟨c₁, -, h₁⟩ := mem_ends_seq.mp hends
      obtain ⟨c₂, -, h₂⟩ := mem_ends_seq.mp h₁
      obtain ⟨c₃, hbar, h₃⟩ := mem_ends_seq.mp h₂
      obtain ⟨c₄, hequals, h₄⟩ := mem_ends_seq.mp h₃
      obtain ⟨-, rfl⟩ := eq_of_mem_condition hequals
      obtain rfl := List.mem_singleton.mp h₄
      obtain ⟨y, hy, hone⟩ := mem_ends_one.mp hbar
      rw [hone.before] at hx
      obtain rfl := Option.some.inj hx
      exact .inl (by rw [eq_of_beq hy]; decide)

/-- A reference is seen where the name stands, unless it is refused behind what stands before it. -/
theorem occursAt_pattern_iff {name : Text} {place stop : Cursor} (hpass : place.Passes name stop) :
    (Reference.pattern name).occursAt place = true ↔
      place.follows (Reference.refusedBefore name) = false := by
  rw [occursAt, Reference.pattern, ends_seq, ends_notAfter]
  cases place.follows (Reference.refusedBefore name) with
  | true => simp
  | false => simpa using List.ne_nil_of_mem (mem_ends_literal.mpr hpass)

/-- Of the characters of a line that stand in front of what is assigned to, a reference is refused
behind those alone that make it the tail of something else. -/
theorem isGlue_of_lastStatement {line front lead name gap : Text} {x : Char}
    (hname : IsTargetName name) (hstatement : lastStatement line = lead ++ name ++ gap)
    (hlongest : ∀ before more : Text, lead = before ++ more → IsTargetName (more ++ name) →
      more = [])
    (hfront : ∀ y ∈ front.getLast?, y ∈ [';', '\x7b', '|'] ∨
      CharClass.isWord y = true ∧ (lastStatement line).head?.any CharClass.isWord = false)
    (hx : x ∈ (front ++ lead).getLast?) (hrefused : Reference.refusedBefore name x = true) :
    isGlue name x = true := by
  rcases List.eq_nil_or_concat' lead with rfl | ⟨init, y, rfl⟩
  · rw [List.append_nil] at hx
    rcases hfront x hx with hmark | ⟨hword, hstarts⟩
    · rw [Reference.refusedBefore_mark name x (List.mem_cons_of_mem _ hmark)] at hrefused
      cases hrefused
    · -- behind a whole word the name begins with a sigil
      obtain ⟨z, more, rfl⟩ := List.exists_cons_of_ne_nil hname.ne_nil
      have hz : CharClass.isWord z = false := by
        rw [hstatement] at hstarts
        exact hstarts
      have hsigil : z = '@' := (hname.mem List.mem_cons_self).resolve_left
        (Bool.eq_false_iff.mp hz)
      rw [isGlue, hsigil, List.head?_cons, if_pos rfl, hword, Bool.true_or]
  · -- a character of the same statement
    obtain rfl : y = x := by simpa [← List.append_assoc] using hx
    refine isGlue_of_refusedBefore hname (fun hlonger => ?_) hrefused
    have hempty := hlongest init [y] rfl hlonger
    cases hempty

/-- In front of a call whose result is assigned stands a sign of equality. -/
theorem mem_before_of_target? {c : Cursor} {name : Text} (h : target? c = some name) :
    '=' ∈ c.before := by
  obtain ⟨lead, gap, -, hgap, hstatement, -⟩ := targetOf_eq_some_iff.mp h
  obtain ⟨front, hline, -⟩ := exists_append_lastStatement c.lineHead
  obtain ⟨blanks, bars, tail, -, -, -, rfl⟩ := hgap.split
  have hmem : '=' ∈ front ++ lastStatement c.lineHead :=
    List.mem_append_right _ (by rw [hstatement]; simp)
  rw [← hline] at hmem
  exact (List.takeWhile_prefix _).subset (List.mem_reverse.mp hmem)

/-- What a call's result is assigned to stands in front of the call, with nothing but an operator
between them. A reference to the name is seen there unless a character stands before it that makes
it the tail of something else. -/
theorem exists_passes_of_target? {c : Cursor} {name : Text} (h : target? c = some name) :
    ∃ place stop gap, place.Passes name stop ∧ stop.Passes gap c ∧ IsTargetName name ∧
      IsOperator gap ∧
        ((Reference.pattern name).occursAt place = true ↔ place.follows (isGlue name) = false) := by
  obtain ⟨lead, gap, hname, hgap, hstatement, hlongest⟩ := targetOf_eq_some_iff.mp h
  obtain ⟨front, hline, hfront⟩ := exists_append_lastStatement c.lineHead
  let outer := c.before.dropWhile (· ≠ '\n')
  have hbefore : c.before = (front ++ lead ++ name ++ gap).reverse ++ outer := by
    rw [hstatement] at hline
    rw [← List.append_assoc, ← List.append_assoc] at hline
    rw [← hline, Cursor.lineHead, List.reverse_reverse]
    exact (List.takeWhile_append_dropWhile).symm
  let place : Cursor := ⟨(front ++ lead).reverse ++ outer, name ++ (gap ++ c.after)⟩
  let stop : Cursor := ⟨(front ++ lead ++ name).reverse ++ outer, gap ++ c.after⟩
  have hpass : place.Passes name stop := ⟨rfl, by simp [place, stop]⟩
  refine ⟨place, stop, gap, hpass, ⟨rfl, by rw [hbefore]; simp [stop]⟩, hname, hgap, ?_⟩
  rw [occursAt_pattern_iff hpass]
  cases hneighbour : place.before.head? with
  | none => simp [Cursor.follows, hneighbour]
  | some x =>
    have hfollows (accepts : Char → Bool) : place.follows accepts = accepts x := by
      rw [Cursor.follows, hneighbour]
      rfl
    rw [hfollows, hfollows, ← Bool.not_eq_true, ← Bool.not_eq_true, not_iff_not]
    refine ⟨fun hrefused => ?_, refusedBefore_of_isGlue⟩
    have hhead : ((front ++ lead).getLast?.or outer.head?) = some x := by
      rw [← hneighbour, ← List.head?_reverse, ← List.head?_append]
    rcases Option.or_eq_some_iff.mp hhead with hx | ⟨-, hx⟩
    · exact isGlue_of_lastStatement hname hstatement hlongest hfront hx hrefused
    · have hbreak : x = '\n' := by
        have hstop := List.head?_dropWhile_not (fun x => decide (x ≠ '\n')) c.before
        rw [show (c.before.dropWhile fun x => decide (x ≠ '\n')).head? = some x from hx] at hstop
        simpa using hstop
      rw [hbreak, Reference.refusedBefore_mark name '\n' (by decide)] at hrefused
      cases hrefused

/-- An instance variable that is assigned to unless it is set. -/
theorem exists_passes_of_target?_guarded :
    target? ⟨"@user ||= ".toList.reverse, "create(:user)\n".toList⟩ = some "@user".toList ∧
    ∃ place stop gap, place.Passes "@user".toList stop ∧
      stop.Passes gap ⟨"@user ||= ".toList.reverse, "create(:user)\n".toList⟩ ∧
      IsTargetName "@user".toList ∧ IsOperator gap ∧
      ((Reference.pattern "@user".toList).occursAt place = true ↔
        place.follows (isGlue "@user".toList) = false) := by
  have htarget : target? ⟨"@user ||= ".toList.reverse, "create(:user)\n".toList⟩ =
      some "@user".toList := by decide +kernel
  exact ⟨htarget, exists_passes_of_target? htarget⟩

/-- Behind a dot, a colon or the sigil of a global variable the tail of what is assigned to is taken
for the name of a variable, whatever stands further in front. -/
theorem targetOf_tail {name gap : Text} (hname : IsTargetName name) (hgap : IsOperator gap)
    {x : Char} (hx : x ∈ ['$', ':', '.']) (front : Text) :
    targetOf (front ++ [x] ++ name ++ gap) = some name := by
  have hglue : ∀ x ∈ ['$', ':', '.'], CharClass.isWord x = false ∧ x ≠ '@' := by decide
  refine targetOf_eq_some_iff.mpr ⟨front ++ [x], gap, hname, hgap, rfl,
    fun init back hsplit hlonger => ?_⟩
  rcases List.eq_nil_or_concat' back with rfl | ⟨back, y, rfl⟩
  · rfl
  · rw [← List.append_assoc] at hsplit
    obtain ⟨-, hlast⟩ := List.append_inj' hsplit rfl
    obtain rfl := (List.cons.inj hlast).1
    obtain ⟨hword, hsigil⟩ := hglue x hx
    rcases hlonger.mem (x := x) (by simp) with hmem | hmem
    · rw [hword] at hmem
      cases hmem
    · exact absurd hmem hsigil

/-- An attribute that is assigned to is taken for a local name, to which there is no reference. -/
theorem targetOf_attribute :
    targetOf "post.author = ".toList = some "author".toList ∧
    (Reference.pattern "author".toList).occurs (Cursor.start "post.author = ".toList) = false ∧
    (CallSite.extract "post.author = create(:user)\n".toList).map (·.bindingName) =
      [some "author".toList] := by
  have hname : IsTargetName "author".toList :=
    ⟨"".toList, 'a', "uthor".toList, by decide, by decide, by decide, rfl⟩
  have hgap : IsOperator " = ".toList :=
    ⟨" ".toList, "".toList, " ".toList, by decide, by decide, by decide, rfl⟩
  have hsplit : "post.author = ".toList =
      "post".toList ++ ['.'] ++ "author".toList ++ " = ".toList := by decide
  refine ⟨?_, by decide +kernel, by decide +kernel⟩
  rw [hsplit]
  exact targetOf_tail hname hgap (by decide) _

end Assignment

end FactoryDowngrade
