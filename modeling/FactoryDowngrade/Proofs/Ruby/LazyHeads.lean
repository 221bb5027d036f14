import FactoryDowngrade.Proofs.Ruby.BoundNames
import FactoryDowngrade.Proofs.Template.Invocations

/-!
# Heads of lazy blocks

A text that begins with the head of a lazy block is read as one: its keyword, the name in its
parentheses and the opener behind them, each as long as it can be. Blocks whose heads come later
begin behind the body's first statement, so that statement belongs to the first block or to none.
-/

namespace FactoryDowngrade

open Pattern

/-- What is found at the head of a list is found first. -/
theorem findSome?_of_head? {α β : Type} {l : List α} {a : α} {b : β} {f : α → Option β}
    (ha : l.head? = some a) (hb : f a = some b) : l.findSome? f = some b := by
  obtain ⟨rest, rfl⟩ := List.head?_eq_some_iff.mp ha
  rw [List.findSome?_cons, hb]

namespace LazyBinding

open Invocation (afterMark head?_ends_mark head?_ends_seq)

/-- The keywords of lazy blocks. -/
def keywords : List Text :=
  ["let", "let!", "subject", "subject!"].map String.toList

/-- A name that a block can define: a local name, with a mark behind it perhaps. -/
structure IsBlockName (name : Text) : Prop where
  split : ∃ word mark, word.head?.any CharClass.isLowerStart = true ∧
    (∀ c ∈ word, CharClass.isWord c = true) ∧ mark ∈ ["", "?", "!"].map String.toList ∧
    name = word ++ mark

/-- The head of a block up to its opener. -/
def lead (keyword name : Text) : Text :=
  keyword ++ ("(:".toList ++ (name ++ ") ".toList))

/-! ### The parts of a head -/

section Parts

variable {keyword name : Text}

/-- A keyword is read with its bang. -/
theorem head?_ends_keyword (hkeyword : keyword ∈ keywords) (rest : Text) :
    (keywordPattern.ends (Cursor.start (keyword ++ '(' :: rest))).head? =
      some ⟨keyword.reverse, '(' :: rest⟩ := by
  simp only [keywords, List.map_cons, List.map_nil, List.mem_cons, List.not_mem_nil, or_false]
    at hkeyword
  rcases hkeyword with rfl | rfl | rfl | rfl <;> rfl

/-- A name is read with its mark. -/
theorem head?_ends_name (hname : IsBlockName name) (before rest : Text) :
    (namePattern.ends ⟨before, name ++ ')' :: rest⟩).head? =
      some ⟨name.reverse ++ before, ')' :: rest⟩ := by
  obtain ⟨word, mark, hfirst, hword, hmark, rfl⟩ := hname.split
  obtain ⟨x, more, rfl⟩ : ∃ x more, word = x :: more := by
    cases word with
    | nil => cases hfirst
    | cons x more => exact ⟨x, more, rfl⟩
  have hx : CharClass.isLowerStart x = true := hfirst
  have hmore : ∀ y ∈ more, CharClass.isWord y = true := fun y hy =>
    hword y (List.mem_cons_of_mem _ hy)
  have hone : (one CharClass.isLowerStart).ends ⟨before, x :: (more ++ (mark ++ ')' :: rest))⟩ =
      [⟨x :: before, more ++ (mark ++ ')' :: rest)⟩] := if_pos hx
  obtain ⟨shorter, hrun, -⟩ :=
    exists_ends_run CharClass.isWord ⟨x :: before, more ++ (mark ++ ')' :: rest)⟩
  have hmarked : (mark ++ ')' :: rest).head?.any CharClass.isWord = false ∧
      afterMark ⟨more.reverse ++ x :: before, mark ++ ')' :: rest⟩ =
        ⟨mark.reverse ++ (more.reverse ++ x :: before), ')' :: rest⟩ := by
    simp only [List.map_cons, List.map_nil, List.mem_cons, List.not_mem_nil, or_false] at hmark
    rcases hmark with rfl | rfl | rfl <;> exact ⟨rfl, rfl⟩
  have hend := afterRun_append hmore hmarked.1 (x :: before)
  obtain ⟨others, hothers⟩ := List.head?_eq_some_iff.mp
    ((head?_ends_mark ⟨more.reverse ++ x :: before, mark ++ ')' :: rest⟩).trans
      (congrArg some hmarked.2))
  have hall := head?_ends_seq hone (head?_ends_seq (hrun.trans (by rw [hend]))
    (head?_ends_seq (q := .empty) hothers rfl))
  simpa [namePattern, chain, wordRun] using hall

/-- A name in parentheses is read before none is. -/
theorem head?_nameReadings (hname : IsBlockName name) (before rest : Text) :
    (nameReadings ⟨before, "(:".toList ++ (name ++ ')' :: rest)⟩).head? =
      some (some name, ⟨')' :: (name.reverse ++ ':' :: '(' :: before), rest⟩) := by
  have hlead : nameLead.ends ⟨before, "(:".toList ++ (name ++ ')' :: rest)⟩ =
      [⟨':' :: '(' :: before, name ++ ')' :: rest⟩] := rfl
  have htail : nameTail.ends ⟨name.reverse ++ ':' :: '(' :: before, ')' :: rest⟩ =
      [⟨')' :: (name.reverse ++ ':' :: '(' :: before), rest⟩] := rfl
  obtain ⟨others, hothers⟩ := List.head?_eq_some_iff.mp
    (head?_ends_name hname (':' :: '(' :: before) rest)
  have hpass : Cursor.Passes ⟨':' :: '(' :: before, name ++ ')' :: rest⟩ name
      ⟨name.reverse ++ ':' :: '(' :: before, ')' :: rest⟩ := ⟨rfl, rfl⟩
  rw [nameReadings, hlead, List.flatMap_singleton, hothers, List.flatMap_cons, htail,
    List.map_singleton, hpass.upTo]
  rfl

/-- A text that begins with a keyword, a name in parentheses, a space and an opener begins with the
head of a block. -/
theorem headAt?_lead (hkeyword : keyword ∈ keywords) (hname : IsBlockName name) {after : Text}
    (hsolid : after.head?.any CharClass.isBlank = false) {body : Cursor}
    (hbody : openerPattern.match? ⟨(lead keyword name).reverse, after⟩ = some body) :
    headAt? (Cursor.start (lead keyword name ++ after)) =
      some (⟨keyword, some name, ⟨(lead keyword name).reverse, after⟩, body⟩, body) := by
  have hspelling : lead keyword name ++ after =
      keyword ++ ("(:".toList ++ (name ++ ')' :: ' ' :: after)) := by
    simp [lead]
  have hreverse : (lead keyword name).reverse =
      ' ' :: ')' :: (name.reverse ++ ':' :: '(' :: keyword.reverse) := by
    simp [lead]
  have hpass : (Cursor.start (lead keyword name ++ after)).Passes keyword
      ⟨keyword.reverse, "(:".toList ++ (name ++ ')' :: ' ' :: after)⟩ :=
    ⟨hspelling, (List.append_nil _).symm⟩
  have hblanks (before : Text) : (Pattern.blanks.ends ⟨before, ' ' :: after⟩).head? =
      some ⟨' ' :: before, after⟩ := by
    obtain ⟨shorter, hrun, -⟩ := exists_ends_run CharClass.isBlank ⟨before, ' ' :: after⟩
    have hend := afterRun_append (by decide : ∀ x ∈ [' '], CharClass.isBlank x = true) hsolid before
    rw [Pattern.blanks, hrun, List.head?_cons]
    exact congrArg some hend
  rw [hspelling] at hpass ⊢
  rw [hreverse] at hbody ⊢
  rw [headAt?, if_neg (by simp [Cursor.start, Cursor.follows])]
  refine findSome?_of_head? (head?_ends_keyword hkeyword _) ?_
  refine findSome?_of_head? (head?_nameReadings hname _ _) ?_
  refine findSome?_of_head? (hblanks _) ?_
  rw [hbody, Option.map_some]
  exact congrArg (fun read => some (Head.mk read _ _ _, body)) hpass.upTo

end Parts

/-! ### Blocks that begin later -/

/-- A head begins with a letter, and the body of its block where the reading ends. -/
theorem body_of_headAt? {c stop : Cursor} {h : Head} (hhead : headAt? c = some (h, stop)) :
    c.precedes CharClass.isBlank = false ∧ h.body = stop := by
  unfold headAt? at hhead
  split at hhead
  · cases hhead
  · obtain ⟨named, hnamed, hhead⟩ := List.exists_of_findSome?_eq_some hhead
    obtain ⟨⟨name, rest⟩, -, hhead⟩ := List.exists_of_findSome?_eq_some hhead
    obtain ⟨opener, -, hhead⟩ := List.exists_of_findSome?_eq_some hhead
    obtain ⟨body, -, hpair⟩ := Option.map_eq_some_iff.mp hhead
    obtain ⟨rfl, rfl⟩ := Prod.mk.inj hpair
    refine ⟨?_, rfl⟩
    obtain ⟨last, hlast, -⟩ := mem_ends_seq.mp hnamed
    have hletter : c.Passes "let".toList last ∨ c.Passes "subject".toList last :=
      (List.mem_append.mp hlast).imp mem_ends_literal.mp mem_ends_literal.mp
    rcases hletter with hpass | hpass <;> rw [Cursor.precedes, hpass.after] <;> rfl

/-- A block whose head is looked for from a place on begins its body behind the blanks there. -/
theorem lt_bodyStart_of_mem {c d : Cursor} {gap : Text} (hpass : c.Passes gap d)
    (hgap : ∀ x ∈ gap, CharClass.isBlank x = true) {b : LazyBinding}
    (hb : b ∈ (Cursor.readAll headAt? c).filterMap ofHead?) : d.offset < b.bodyStart := by
  obtain ⟨h, hmem, hhead⟩ := List.mem_filterMap.mp hb
  obtain ⟨stretch, e, stop, hreach, hread⟩ :=
    Cursor.exists_read_of_mem_readAll isProgressive_headAt? hmem
  obtain ⟨hsolid, hbody⟩ := body_of_headAt? hread
  obtain ⟨taken, hnonempty, htaken⟩ := isProgressive_headAt? e h stop hread
  have hlength := List.length_pos_iff.mpr hnonempty
  have hstart : b.bodyStart = h.body.offset := by
    rw [ofHead?_eq] at hhead
    obtain ⟨name, -, hstop⟩ := Option.bind_eq_some_iff.mp hhead
    obtain ⟨-, -, rfl⟩ := Option.map_eq_some_iff.mp hstop
    rfl
  rw [hstart, hbody, htaken.offset]
  -- the head does not begin at one of the blanks
  have hbehind : d.offset ≤ e.offset := by
    by_contra hbefore
    have htext : e.text = d.text := hreach.text.trans hpass.text.symm
    obtain ⟨rest, hrest⟩ := Cursor.exists_passes htext (Nat.le_of_not_le hbefore)
    cases rest with
    | nil => exact hbefore (hrest.unique (.refl e) ▸ Nat.le_refl _)
    | cons x rest =>
      have hsplit : stretch ++ x :: rest = gap :=
        (hreach.trans hrest).upTo.symm.trans hpass.upTo
      have hx := hgap x (hsplit ▸ by simp)
      rw [Cursor.precedes, hrest.after] at hsolid
      exact absurd hx (by simpa using hsolid)
  omega

/-- Of blocks that all begin behind a place but the first, the first one alone can hold what begins
there. -/
theorem innermost?_cons {b : LazyBinding} {others : List LazyBinding} {start : Nat}
    (hothers : ∀ other ∈ others, start < other.bodyStart) (stop : Nat) :
    innermost? (b :: others) start stop = if b.holds start stop then some b else none := by
  have hnone : others.filter (·.holds start stop) = [] := by
    refine List.filter_eq_nil_iff.mpr fun other hother hholds => ?_
    have hle := of_decide_eq_true (Bool.and_eq_true_iff.mp hholds).1
    have hlt := hothers other hother
    omega
  rw [innermost?_eq_foldl, List.filter_cons, hnone]
  split <;> rfl

end LazyBinding

end FactoryDowngrade
