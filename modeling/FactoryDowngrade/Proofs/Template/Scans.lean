import FactoryDowngrade.Proofs.Template.Letters
import FactoryDowngrade.Ruby.Binding
import FactoryDowngrade.Ruby.Statement

/-!
# Scans of templates

Brackets are matched, argument lists end and blocks are closed at the same item of a template,
whichever of the two words fills its slots: the letters of the words are no brackets and end
nothing, and the words themselves are no keywords.
-/

namespace FactoryDowngrade

namespace Template

variable {w : Text}

/-- A scan that finds nothing in any filling, or the same visible item in all of them. -/
def FindsPlace (t : Template) (scan : Text → Option Nat) : Prop :=
  ∃ place : Option Nat, (∀ index ∈ place, ∃ c, t[index]? = some (some c)) ∧
    ∀ w, IsSlotWord w → scan (fill w t) = place.map (offsetOf w t)

namespace FindsPlace

variable {t : Template} {c : Char} {scan scan' : Text → Option Nat}

/-- A scan that fails in every filling has no place. -/
theorem nothing (h : ∀ w, IsSlotWord w → scan (fill w t) = none) : FindsPlace t scan :=
  ⟨none, fun _ hindex => (nomatch hindex), h⟩

/-- A scan that ends at once, in every filling, has its place at the first item. -/
theorem here (h : ∀ w, IsSlotWord w → scan (fill w (some c :: t)) = some 0) :
    FindsPlace (some c :: t) scan := by
  refine ⟨some 0, fun index hindex => ?_, fun w hw => ?_⟩
  · cases hindex
    exact ⟨c, rfl⟩
  · rw [h w hw, Option.map_some, offsetOf_zero]

/-- A scan that goes on over a character has its place one item further. -/
theorem cons_some (hrest : FindsPlace t scan)
    (h : ∀ w, IsSlotWord w → scan' (fill w (some c :: t)) = (scan (fill w t)).map (· + 1)) :
    FindsPlace (some c :: t) scan' := by
  obtain ⟨place, hvisible, hplace⟩ := hrest
  refine ⟨place.map (· + 1), fun index hindex => ?_, fun w hw => ?_⟩
  · obtain ⟨before, hbefore, rfl⟩ := Option.map_eq_some_iff.mp hindex
    exact hvisible before hbefore
  · rw [h w hw, hplace w hw, Option.map_map, Option.map_map]
    rfl

/-- So has one that goes on over a slot. -/
theorem cons_none (hrest : FindsPlace t scan)
    (h : ∀ w, IsSlotWord w →
      scan' (fill w (none :: t)) = (scan (fill w t)).map (w.length + ·)) :
    FindsPlace (none :: t) scan' := by
  obtain ⟨place, hvisible, hplace⟩ := hrest
  refine ⟨place.map (· + 1), fun index hindex => ?_, fun w hw => ?_⟩
  · obtain ⟨before, hbefore, rfl⟩ := Option.map_eq_some_iff.mp hindex
    exact hvisible before hbefore
  · rw [h w hw, hplace w hw, Option.map_map, Option.map_map]
    congr 1
    funext index
    exact (offsetOf_none_succ w t index).symm

end FindsPlace

/-! ### Brackets -/

/-- Plain characters are passed. -/
theorem closeDistance_append {role : Char → BracketRole} {u : Text}
    (hu : ∀ c ∈ u, role c = .plain) (kinds : List BracketKind) (text : Text) :
    Bracket.closeDistance role kinds (u ++ text) =
      (Bracket.closeDistance role kinds text).map (u.length + ·) := by
  induction u with
  | nil => simp
  | cons c u ih =>
    have hc := hu c List.mem_cons_self
    rw [List.cons_append, Bracket.closeDistance, hc,
      ih fun d hd => hu d (List.mem_cons_of_mem _ hd)]
    simp only [Option.map_map, List.length_cons]
    congr 1
    funext n
    simp only [Function.comp_apply]
    omega

/-- A closing bracket is found at the same item in every filling. -/
theorem findsPlace_closeDistance {role : Char → BracketRole}
    (hrole : ∀ c ∈ letters, role c = .plain) (kinds : List BracketKind) (t : Template) :
    FindsPlace t (Bracket.closeDistance role kinds) := by
  induction t generalizing kinds with
  | nil => exact .nothing fun w _ => by cases kinds <;> rfl
  | cons item t ih =>
    cases item with
    | none =>
      refine (ih kinds).cons_none fun w hw => ?_
      exact closeDistance_append (fun c hc => hrole c (hw.letters c hc)) kinds (fill w t)
    | some c =>
      cases hc : role c with
      | opens kind =>
        refine (ih (kind :: kinds)).cons_some fun w _ => ?_
        rw [fill_some, Bracket.closeDistance, hc]
      | plain =>
        refine (ih kinds).cons_some fun w _ => ?_
        rw [fill_some, Bracket.closeDistance, hc]
      | closes kind =>
        match kinds with
        | [] => exact .nothing fun w _ => by rw [fill_some, Bracket.closeDistance, hc]
        | [last] =>
          by_cases hkind : last = kind
          · refine .here fun w _ => ?_
            rw [fill_some, Bracket.closeDistance, hc]
            exact if_pos hkind
          · refine .nothing fun w _ => ?_
            rw [fill_some, Bracket.closeDistance, hc]
            exact if_neg hkind
        | last :: next :: outer =>
          by_cases hkind : last = kind
          · refine (ih (next :: outer)).cons_some fun w _ => ?_
            rw [fill_some, Bracket.closeDistance, hc]
            exact if_pos hkind
          · refine .nothing fun w _ => ?_
            rw [fill_some, Bracket.closeDistance, hc]
            exact if_neg hkind

/-! ### Stretches of items -/

/-- An offset further on is reached in two stretches. -/
theorem offsetOf_add (w : Text) (t : Template) (i j : Nat) :
    offsetOf w t (i + j) = offsetOf w t i + offsetOf w (t.drop i) j := by
  rw [offsetOf, List.take_add, length_fill_append]
  rfl

/-- A visible item takes one character. -/
theorem offsetOf_succ_of_visible (w : Text) {t : Template} {index : Nat} {c : Char}
    (h : t[index]? = some (some c)) : offsetOf w t (index + 1) = offsetOf w t index + 1 := by
  have hdrop : t.drop index = some c :: t.drop (index + 1) := by
    obtain ⟨hlt, hget⟩ := List.getElem?_eq_some_iff.mp h
    rw [List.drop_eq_getElem_cons hlt, hget]
  rw [offsetOf_add, hdrop, ← Nat.zero_add 1, offsetOf_some_succ, offsetOf_zero]

/-- No item is behind the end of a filling. -/
theorem offsetOf_le_length (w : Text) (t : Template) (index : Nat) :
    offsetOf w t index ≤ (fill w t).length := by
  have hsplit := length_fill_append w (t.take index) (t.drop index)
  rw [List.take_append_drop] at hsplit
  rw [offsetOf]
  omega

/-! ### Words that hold a filled slot -/

/-- A word that stands in a slot is part of the filled template. -/
theorem infix_fill_of_none_mem (w : Text) {t : Template} (h : none ∈ t) : w <:+: fill w t := by
  obtain ⟨before, after, rfl⟩ := List.append_of_mem h
  exact ⟨fill w before, fill w after, by simp⟩

/-- What does not care about texts that hold one of the words is the same for every filling. -/
theorem exists_eq_of_isInfix {β : Type} {g : Text → β} {answer : β}
    (hg : ∀ (f : Filling) (u : Text), f.word <:+: u → g u = answer) (t : Template) :
    ∃ b, ∀ f : Filling, g (fill f.word t) = b := by
  by_cases hslot : none ∈ t
  · exact ⟨answer, fun f => hg f _ (infix_fill_of_none_mem f.word hslot)⟩
  · obtain ⟨text, rfl⟩ := exists_map_some_of_none_notMem hslot
    exact ⟨g text, fun f => by rw [fill_map_some]⟩

/-- A word of a list that holds neither of the two is no word that holds one. -/
theorem contains_eq_false_of_isInfix {names : List Text}
    (hnames : ∀ name ∈ names, ∀ f : Filling, ¬f.word <:+: name) (f : Filling) (u : Text)
    (h : f.word <:+: u) : names.contains u = false := by
  rw [Bool.eq_false_iff]
  intro hmem
  exact hnames u (List.contains_iff_mem.mp hmem) f h

/-! ### Argument lists without parentheses -/

/-- A modifier is ahead of every filling or of none. -/
theorem exists_modifierAhead_fill (t : Template) :
    ∃ b, ∀ f : Filling, Statement.modifierAhead (fill f.word t) = b := by
  have hspace : Ignores CharClass.isSpaceOrTab false := by decide
  have hword : Ignores CharClass.isWord true := by decide
  have hnames : ∀ name ∈ Statement.modifiers, ∀ f : Filling, ¬f.word <:+: name := by
    intro name hname f
    cases f <;> revert name <;> decide
  obtain ⟨b, hb⟩ := exists_eq_of_isInfix
    (fun f u h => contains_eq_false_of_isInfix hnames f u h)
    ((t.dropWhile (onItem false CharClass.isSpaceOrTab)).takeWhile (onItem true CharClass.isWord))
  refine ⟨b, fun f => ?_⟩
  rw [Statement.modifierAhead, dropWhile_fill hspace f.isSlotWord_word,
    takeWhile_fill hword f.isSlotWord_word]
  exact hb f

/-- An argument list ends here in every filling or in none. -/
theorem exists_endsBefore_fill (passed : Template) (c : Char) (t : Template) :
    ∃ b, ∀ f : Filling,
      Statement.endsBefore (fill f.word.reverse passed) c (fill f.word t) = b := by
  have hblank : Ignores CharClass.isBlank false := by decide
  have hjoins : Ignores (fun c => c == ',' || c == '\\') false := by decide
  obtain ⟨ahead, hahead⟩ := exists_modifierAhead_fill (some c :: t)
  let continued := (passed.dropWhile (onItem false CharClass.isBlank)).head?.any
    (onItem false fun c => c == ',' || c == '\\')
  refine ⟨c == ';' || (c == '\n' && !continued) || (CharClass.isSpaceOrTab c && ahead),
    fun f => ?_⟩
  rw [Statement.endsBefore, Statement.continues, dropWhile_fill hblank f.isSlotWord_reverse,
    any_head?_fill hjoins f.isSlotWord_reverse, ← fill_some f.word, hahead f]

/-- The list with one more character in front. -/
theorem gather_cons (passed : Text) (depth : Nat) (c : Char) (rest : Text) :
    Statement.gather passed depth (c :: rest) =
      match BracketRole.ofChar c with
      | .opens _ => Statement.gather (c :: passed) (depth + 1) rest
      | .closes _ =>
        match depth with
        | 0 => passed
        | depth + 1 => Statement.gather (c :: passed) depth rest
      | .plain =>
        if depth = 0 && Statement.endsBefore passed c rest then passed
        else Statement.gather (c :: passed) depth rest :=
  Statement.gather.eq_def passed depth (c :: rest)

/-- Letters belong to the list. -/
theorem gather_append {u : Text} (hu : ∀ c ∈ u, c ∈ letters) (passed : Text) (depth : Nat)
    (text : Text) : Statement.gather passed depth (u ++ text) =
      Statement.gather (u.reverse ++ passed) depth text := by
  have hletter : ∀ c ∈ letters, BracketRole.ofChar c = .plain ∧ (c == ';') = false ∧
      (c == '\n') = false ∧ CharClass.isSpaceOrTab c = false := by decide
  induction u generalizing passed with
  | nil => rfl
  | cons c u ih =>
    obtain ⟨hplain, hsemicolon, hbreak, hspace⟩ := hletter c (hu c List.mem_cons_self)
    have hends : Statement.endsBefore passed c (u ++ text) = false := by
      rw [Statement.endsBefore, hsemicolon, hbreak, hspace]
      rfl
    rw [List.cons_append, gather_cons, hplain]
    dsimp only
    rw [hends, Bool.and_false, if_neg (by decide),
      ih fun d hd => hu d (List.mem_cons_of_mem _ hd), List.reverse_cons, List.append_assoc]
    rfl

/-- An argument list takes the same items in every filling. -/
theorem exists_gather_fill (passed : Template) (depth : Nat) (t : Template) :
    ∃ count, ∀ f : Filling,
      Statement.gather (fill f.word.reverse passed) depth (fill f.word t) =
        fill f.word.reverse ((t.take count).reverse ++ passed) := by
  induction t generalizing passed depth with
  | nil => exact ⟨0, fun f => rfl⟩
  | cons item t ih =>
    have hstop : (((item :: t).take 0).reverse ++ passed) = passed := rfl
    have hnext (count : Nat) : ((item :: t).take (count + 1)).reverse ++ passed =
        (t.take count).reverse ++ item :: passed := by simp
    cases item with
    | none =>
      obtain ⟨count, hcount⟩ := ih (none :: passed) depth
      refine ⟨count + 1, fun f => ?_⟩
      rw [hnext, ← hcount f, fill_none, gather_append f.isSlotWord_word.letters, fill_none]
    | some c =>
      cases hc : BracketRole.ofChar c with
      | opens kind =>
        obtain ⟨count, hcount⟩ := ih (some c :: passed) (depth + 1)
        refine ⟨count + 1, fun f => ?_⟩
        rw [hnext, ← hcount f, fill_some, gather_cons, hc, fill_some]
      | closes kind =>
        cases depth with
        | zero =>
          refine ⟨0, fun f => ?_⟩
          rw [hstop, fill_some, gather_cons, hc]
        | succ depth =>
          obtain ⟨count, hcount⟩ := ih (some c :: passed) depth
          refine ⟨count + 1, fun f => ?_⟩
          rw [hnext, ← hcount f, fill_some, gather_cons, hc, fill_some]
      | plain =>
        obtain ⟨ends, hends⟩ := exists_endsBefore_fill passed c t
        by_cases hstops : (decide (depth = 0) && ends) = true
        · refine ⟨0, fun f => ?_⟩
          rw [hstop, fill_some, gather_cons, hc, hends f]
          exact if_pos hstops
        · obtain ⟨count, hcount⟩ := ih (some c :: passed) depth
          refine ⟨count + 1, fun f => ?_⟩
          rw [hnext, ← hcount f, fill_some, gather_cons, hc, hends f, fill_some]
          exact if_neg hstops

/-- What is left of some items, read backwards, when those at its front are dropped. -/
theorem exists_dropWhile_reverse_take (p : Option Char → Bool) (t : Template) (count : Nat) :
    ∃ kept, (t.take count).reverse.dropWhile p = (t.take kept).reverse := by
  have hfront : ((t.take count).reverse.dropWhile p).reverse <+: t.take count := by
    rw [← List.reverse_suffix, List.reverse_reverse]
    exact List.dropWhile_suffix p
  have hitems := List.prefix_iff_eq_take.mp (hfront.trans (List.take_prefix _ _))
  exact ⟨_, by rw [← List.reverse_reverse ((t.take count).reverse.dropWhile p), ← hitems]⟩

/-- An argument list ends at the same item in every filling. -/
theorem exists_argumentLength_fill (t : Template) :
    ∃ count, ∀ f : Filling, Statement.argumentLength (fill f.word t) = offsetOf f.word t count := by
  have htrailing : Ignores Statement.isTrailing false := by decide
  obtain ⟨gathered, hgathered⟩ := exists_gather_fill [] 0 t
  obtain ⟨kept, hkept⟩ := exists_dropWhile_reverse_take (onItem false Statement.isTrailing) t
    gathered
  refine ⟨kept, fun f => ?_⟩
  have hgather := hgathered f
  rw [fill_nil, List.append_nil] at hgather
  rw [Statement.argumentLength, hgather, dropWhile_fill htrailing f.isSlotWord_reverse, hkept,
    ← fill_reverse, List.length_reverse]
  rfl

/-! ### Blocks -/

/-- Behind a word character no keyword begins. -/
theorem keywordAt?_eq_none {before after : Text}
    (h : before.head?.any CharClass.isWord = true) : Block.keywordAt? ⟨before, after⟩ = none := by
  have hspoiled : Cursor.follows ⟨before, after⟩ Block.spoilsBefore = true :=
    any_of_imp (fun x hx => by simp [Block.spoilsBefore, hx]) h
  rw [Block.keywordAt?, if_pos hspoiled]

/-- No keyword holds one of the two words. -/
theorem keyword?_eq_none_of_isInfix (f : Filling) (u : Text) (h : f.word <:+: u) :
    Block.keyword? u = none := by
  have hspelled (names : List String)
      (hnames : ∀ name ∈ names.map String.toList, ∀ f : Filling, ¬f.word <:+: name) :
      (names.map String.toList).contains u = false :=
    contains_eq_false_of_isInfix hnames f u h
  have hopens := hspelled ["do", "def", "class", "module", "begin", "case", "for"] (by
    intro name hname f
    cases f <;> revert name <;> decide)
  have hconditions := hspelled ["if", "unless", "while", "until"] (by
    intro name hname f
    cases f <;> revert name <;> decide)
  have hcloses := hspelled ["end"] (by
    intro name hname f
    cases f <;> revert name <;> decide)
  simp only [Block.keyword?, hopens, hconditions, hcloses, Bool.false_eq_true, if_false]

/-- The same keyword, or none, begins here in every filling. -/
theorem exists_keywordAt?_fill (before after : Template) :
    ∃ keyword, ∀ f : Filling,
      Block.keywordAt? ⟨fill f.word.reverse before, fill f.word after⟩ = keyword := by
  have hspoils : Ignores Block.spoilsBefore true := by decide
  have hword : Ignores CharClass.isWord true := by decide
  have hmarks : Ignores ['?', '!', ':'].contains false := by decide
  obtain ⟨spelled, hspelled⟩ := exists_eq_of_isInfix keyword?_eq_none_of_isInfix
    (after.takeWhile (onItem true CharClass.isWord))
  let marked := (after.dropWhile (onItem true CharClass.isWord)).head?.any
    (onItem false ['?', '!', ':'].contains)
  refine ⟨if before.head?.any (onItem true Block.spoilsBefore) then none
    else if marked then none else spelled, fun f => ?_⟩
  rw [Block.keywordAt?, Cursor.follows, any_head?_fill hspoils f.isSlotWord_reverse]
  dsimp only
  rw [drop_length_takeWhile, dropWhile_fill hword f.isSlotWord_word,
    any_head?_fill hmarks f.isSlotWord_word, takeWhile_fill hword f.isSlotWord_word, hspelled f]

/-- A statement begins here in every filling or in none. -/
theorem exists_startsStatement_fill (before : Template) :
    ∃ b, ∀ (f : Filling) (after : Text),
      Block.startsStatement ⟨fill f.word.reverse before, after⟩ = b := by
  have hline : Ignores (fun c => decide (c ≠ '\n')) true := by decide
  have hblank : Ignores CharClass.isBlank false := by decide
  have hleads : Ignores ['=', '(', ';'].contains false := by decide
  refine ⟨((before.takeWhile (onItem true fun c => decide (c ≠ '\n'))).dropWhile
    (onItem false CharClass.isBlank)).head?.all (onItem false ['=', '(', ';'].contains),
    fun f after => ?_⟩
  rw [Block.startsStatement, takeWhile_fill hline f.isSlotWord_reverse,
    dropWhile_fill hblank f.isSlotWord_reverse, all_head?_fill hleads f.isSlotWord_reverse]

/-- Inside a word nothing opens or closes a block. -/
theorem closingEnd?_append {u : Text} (hu : ∀ c ∈ u, CharClass.isWord c = true) (depth : Int)
    {before : Text} (hbefore : before.head?.any CharClass.isWord = true) (text : Text) :
    Block.closingEnd? depth before (u ++ text) =
      Block.closingEnd? depth (u.reverse ++ before) text := by
  induction u generalizing before with
  | nil => rfl
  | cons c u ih =>
    have hhead : (c :: before).head?.any CharClass.isWord = true := hu c List.mem_cons_self
    rw [List.cons_append, Block.closingEnd?, keywordAt?_eq_none hbefore]
    dsimp only
    rw [ih (fun d hd => hu d (List.mem_cons_of_mem _ hd)) hhead, List.reverse_cons,
      List.append_assoc]
    rfl

/-- A word that is no keyword opens and closes nothing. -/
theorem closingEnd?_append_word {u text : Text} (hnonempty : u ≠ [])
    (hu : ∀ c ∈ u, CharClass.isWord c = true)
    (hspelled : Block.keyword? ((u ++ text).takeWhile CharClass.isWord) = none) {depth : Int}
    {before : Text} : Block.closingEnd? depth before (u ++ text) =
      Block.closingEnd? depth (u.reverse ++ before) text := by
  obtain ⟨c, rest, rfl⟩ := List.exists_cons_of_ne_nil hnonempty
  have hkeyword : Block.keywordAt? ⟨before, c :: (rest ++ text)⟩ = none := by
    rw [Block.keywordAt?]
    dsimp only
    split
    · rfl
    · split
      · rfl
      · exact hspelled
  have hhead : (c :: before).head?.any CharClass.isWord = true := hu c List.mem_cons_self
  rw [List.cons_append, Block.closingEnd?, hkeyword]
  dsimp only
  rw [closingEnd?_append (fun d hd => hu d (List.mem_cons_of_mem _ hd)) depth hhead,
    List.reverse_cons, List.append_assoc]
  rfl

/-- The end that closes a block is found at the same item in every filling. -/
theorem exists_closingEnd?_fill (depth : Int) (before t : Template) :
    ∃ place : Option Nat, ∀ f : Filling,
      Block.closingEnd? depth (fill f.word.reverse before) (fill f.word t) =
        place.map fun index => ⟨fill f.word.reverse ((t.take index).reverse ++ before),
          fill f.word (t.drop index)⟩ := by
  induction t generalizing depth before with
  | nil => exact ⟨none, fun f => rfl⟩
  | cons item t ih =>
    have hstep (depth : Int) {scan : Filling → Option Cursor}
        (h : ∀ f : Filling, scan f = Block.closingEnd? depth
          (fill f.word.reverse (item :: before)) (fill f.word t)) :
        ∃ place : Option Nat, ∀ f : Filling, scan f = place.map fun index =>
          ⟨fill f.word.reverse (((item :: t).take index).reverse ++ before),
            fill f.word ((item :: t).drop index)⟩ := by
      obtain ⟨place, hplace⟩ := ih depth (item :: before)
      refine ⟨place.map (· + 1), fun f => ?_⟩
      rw [h f, hplace f, Option.map_map]
      congr 1
      funext index
      simp only [Function.comp_apply, List.take_succ_cons, List.reverse_cons, List.append_assoc,
        List.singleton_append, List.drop_succ_cons]
    cases item with
    | none =>
      -- no word is spelled like a keyword, even with what follows it
      refine hstep depth fun f => ?_
      have hword : ∀ c ∈ f.word, CharClass.isWord c = true := fun c hc =>
        (by decide : ∀ c ∈ letters, CharClass.isWord c = true) c (f.isSlotWord_word.letters c hc)
      have hspelled := keyword?_eq_none_of_isInfix f
        ((f.word ++ fill f.word t).takeWhile CharClass.isWord) (by
          rw [List.takeWhile_append_of_pos hword]
          exact List.infix_append' [] _ _)
      exact closingEnd?_append_word f.isSlotWord_word.nonempty hword hspelled
    | some c =>
      obtain ⟨keyword, hkeyword⟩ := exists_keywordAt?_fill before (some c :: t)
      obtain ⟨starts, hstarts⟩ := exists_startsStatement_fill before
      have hcons (f : Filling) := hkeyword f
      simp only [fill_some] at hcons
      cases keyword with
      | none =>
        refine hstep depth fun f => ?_
        rw [fill_some, Block.closingEnd?, hcons f, fill_some]
      | some keyword =>
        cases keyword with
        | opens =>
          refine hstep (depth + 1) fun f => ?_
          rw [fill_some, Block.closingEnd?, hcons f, fill_some]
        | opensStatement =>
          refine hstep (if starts then depth + 1 else depth) fun f => ?_
          rw [fill_some, Block.closingEnd?, hcons f]
          dsimp only
          rw [hstarts f, fill_some]
        | closes =>
          by_cases hdepth : depth = 1
          · refine ⟨some 0, fun f => ?_⟩
            rw [fill_some, Block.closingEnd?, hcons f]
            exact if_pos hdepth
          · refine hstep (depth - 1) fun f => ?_
            rw [fill_some, Block.closingEnd?, hcons f, fill_some]
            exact if_neg hdepth

end Template

end FactoryDowngrade
