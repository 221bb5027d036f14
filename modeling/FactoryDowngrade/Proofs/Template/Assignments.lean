import FactoryDowngrade.Proofs.Template.Searches
import FactoryDowngrade.Ruby.Binding

/-!
# Assignments on templates

The name that a call's result is assigned to is the same in every filling. A slot is followed by
arguments, never by an operator, so the name of a slot is assigned nothing.
-/

namespace FactoryDowngrade

open Template Pattern

namespace Assignment

/-! ### Statements -/

/-- A break between statements ends at the same spots in every filling. -/
theorem tracks_statementBreak : Tracks anywhere statementBreak anywhere := by
  have hopener : Tracks anywhere (.anyOf ";\x7b") anywhere :=
    (tracks_one (by decide)).toAnywhere
  have hdo : Tracks anywhere (.chain [.wordEdge, .word "do", .wordEdge]) anywhere :=
    tracks_wordEdge.seq ((tracks_literal (by decide) (by decide)).toAnywhere.seq
      (tracks_wordEdge.seq tracks_empty))
  have hthen : Tracks anywhere (.chain [.wordEdge, .word "then", .wordEdge]) anywhere :=
    tracks_wordEdge.seq ((tracks_literal (by decide) (by decide)).toAnywhere.seq
      (tracks_wordEdge.seq tracks_empty))
  have hbar : Tracks anywhere (.char '|') anywhere := (tracks_one (by decide)).toAnywhere
  have hequals : Tracks anywhere (.notBefore (· == '=')) anywhere :=
    (tracks_one (by decide)).notAhead
  have hparameters : Tracks anywhere (.chain [.char '|',
      .run fun c => CharClass.isWord c || CharClass.isBlank c || c == ',' || c == '*' || c == '&',
      .char '|', .notBefore (· == '=')]) anywhere := by
    have hnames : Ignores (fun c => CharClass.isWord c || CharClass.isBlank c || c == ',' ||
        c == '*' || c == '&') true := by decide
    refine hbar.seq (tracks_run_seq hnames
      (hbar.seq (hequals.seq tracks_empty)) fun d hd => ?_)
    -- a parameter is no bar, so only the whole list can be closed
    have hclosed : (Pattern.char '|').ends d = [] := by
      obtain ⟨before, after⟩ := d
      cases after with
      | nil => rfl
      | cons c after =>
        have hbar : ¬(c == '|') = true := by
          rw [beq_iff_eq]
          rintro rfl
          have haccepts : (fun c => CharClass.isWord c || CharClass.isBlank c || c == ',' ||
            c == '*' || c == '&') '|' = true := hd
          exact absurd haccepts (by decide)
        exact if_neg hbar
    change (Pattern.seq (.char '|') _).ends d = []
    rw [ends_seq, hclosed, List.flatMap_nil]
  exact hopener.either (hdo.either (hthen.either hparameters))

/-- No statement breaks inside a word. -/
theorem skipsWords_statementBreak : SkipsWords statementBreak := by
  have hopener : SkipsWords (.anyOf ";\x7b") := skipsWords_one fun c hc => by
    have hmem : c = ';' ∨ c = '\x7b' := by simpa using hc
    rcases hmem with rfl | rfl <;> decide
  have hbar : SkipsWords (.char '|') := skipsWords_one fun c hc => by
    rw [eq_of_beq hc]
    decide
  exact hopener.either ((skipsWords_wordEdge.seq _).either
    ((skipsWords_wordEdge.seq _).either (hbar.seq _)))

/-- A break between statements is never empty. -/
theorem takesSome_statementBreak : TakesSome statementBreak :=
  (takesSome_one _).either ((TakesSome.seq_right _ ((takesSome_literal (by decide)).seq _)).either
    ((TakesSome.seq_right _ ((takesSome_literal (by decide)).seq _)).either
      ((takesSome_one _).seq _)))

/-- What stands behind the last statement break is the same in every filling. -/
theorem exists_lastStatement_fill {t : Template} (ht : IsOrderly t) :
    ∃ rest, rest <:+: t ∧ ∀ f : Filling, lastStatement (fill f.word t) = fill f.word rest := by
  obtain ⟨found, hgood, hfound⟩ := tracks_statementBreak.exists_allMatches
    skipsWords_statementBreak takesSome_statementBreak ht
  cases hlast : found.getLast? with
  | none =>
    refine ⟨t, List.infix_rfl, fun f => ?_⟩
    rw [lastStatement, hfound f, List.getLast?_map, hlast]
    rfl
  | some v =>
    obtain ⟨hwhole, count, hstop⟩ := hgood v (List.mem_of_getLast? hlast)
    refine ⟨v.2.after, ?_, fun f => ?_⟩
    · rw [← hwhole, hstop]
      exact (List.drop_suffix _ _).isInfix.trans (List.suffix_append _ _).isInfix
    · rw [lastStatement, hfound f, List.getLast?_map, hlast]
      rfl

/-! ### Targets -/

/-- A target that begins off a slot ends off one, at the same spots in every filling. -/
theorem tracks_targetName : Tracks offSlot targetName offSlot := by
  have hsigil : Tracks offSlot (.maybe (.char '@')) offSlot :=
    (tracks_one_of_stains fun c hc => by rw [eq_of_beq hc]; decide).maybe fun _ _ h => h
  have hfirst : Tracks offSlot (.one CharClass.isLowerStart) offSlot :=
    tracks_one_of_stains fun _ hc => stains_of_isWord (CharClass.isWord_of_isLowerStart hc)
  have hrest : Tracks offSlot .wordRun offSlot := tracks_run_offSlot fun _ => stains_of_isWord
  exact hsigil.seq (hsigil.seq (hfirst.seq (hrest.seq tracks_empty)))

/-- All characters of a target spoil a slot. -/
theorem passesOnly_targetName : PassesOnly stains targetName := by
  have hsigil : PassesOnly stains (.maybe (.char '@')) :=
    (passesOnly_one fun c hc => by rw [eq_of_beq hc]; decide).maybe
  have hfirst : PassesOnly stains (.one CharClass.isLowerStart) :=
    passesOnly_one fun c hc => stains_of_isWord (CharClass.isWord_of_isLowerStart hc)
  have hrest : PassesOnly stains .wordRun := passesOnly_run fun _ => stains_of_isWord
  exact hsigil.seq (hsigil.seq (hfirst.seq (hrest.seq passesOnly_empty)))

/-- The rest of an assignment ends at the same spots in every filling. -/
theorem tracks_operatorTail : Tracks anywhere operatorTail anywhere := by
  have hblanks : Tracks anywhere .blanks anywhere := tracks_blanks.toAnywhere
  have hbars : Tracks anywhere (.maybe (.word "||")) anywhere :=
    (tracks_literal_of_rejects (by decide)).maybe fun _ _ h => h
  have hequals : Tracks anywhere (.char '=') anywhere := (tracks_one (by decide)).toAnywhere
  exact hblanks.seq (hbars.seq (hequals.seq (hblanks.seq (tracks_textEnd.seq tracks_empty))))

/-- It is read away from words and slots. -/
theorem shuns_operatorTail : Shuns operatorTail :=
  Shuns.blanks_seq (Shuns.maybe_seq ((shuns_char (by decide)).seq _)
    ((shuns_char (by decide)).seq _))

/-- No target is empty. -/
theorem takesSome_targetName : TakesSome targetName :=
  TakesSome.seq_right _ (TakesSome.seq_right _ ((takesSome_one _).seq _))

/-- Behind a name that takes part of a slot, or all of it, there is no operator. -/
theorem occursAt_operatorTail_eq_false {s : Spot} (hs : IsOrderly s.whole) {rest : Template}
    (hafter : s.after = none :: rest) {f : Filling} {lead : Text} {c last : Cursor}
    (hlead : (s.cursor f).Passes lead c) (hword : ∀ x ∈ lead, CharClass.isWord x = true)
    (hlast : last ∈ targetName.ends c) : operatorTail.occursAt last = false := by
  obtain ⟨stretch, hstains, hpass⟩ := passesOnly_targetName c last hlast
  obtain ⟨same, hnonempty, hpass'⟩ := takesSome_targetName c last hlast
  obtain rfl : stretch = same := hpass.upTo.symm.trans hpass'.upTo
  have hnone := shuns_operatorTail.ends_eq_nil hs hafter
    (List.append_ne_nil_of_right_ne_nil lead hnonempty) (fun x hx => by
      rcases List.mem_append.mp hx with hx | hx
      · exact stains_of_isWord (hword x hx)
      · exact hstains x hx) (hlead.trans hpass)
  rw [occursAt, hnone]
  rfl

/-- What a place on a line assigns to. -/
def targetAt? (first : Cursor) : Option Text :=
  (targetName.ends first).findSome? fun last =>
    if operatorTail.occursAt last then some (first.upTo last) else none

/-- No place inside a slot or at it is assigned to. -/
theorem targetAt?_eq_none {s : Spot} (hs : IsOrderly s.whole) {rest : Template}
    (hafter : s.after = none :: rest) {f : Filling} {lead : Text} {c : Cursor}
    (hlead : (s.cursor f).Passes lead c) (hword : ∀ x ∈ lead, CharClass.isWord x = true) :
    targetAt? c = none := by
  rw [targetAt?, List.findSome?_eq_none_iff]
  intro last hlast
  rw [occursAt_operatorTail_eq_false hs hafter hlead hword hlast]
  rfl

/-- The name that a spot on a line assigns to is the same in every filling. -/
theorem exists_targetAt?_cursor {s : Spot} (hs : IsOrderly s.whole) :
    ∃ found : Option Text, ∀ f : Filling, targetAt? (s.cursor f) = found := by
  by_cases hslot : s.AtSlot
  · obtain ⟨rest, hafter⟩ := exists_after_of_atSlot hslot
    exact ⟨none, fun f => targetAt?_eq_none hs hafter (.refl _) (by simp)⟩
  · obtain ⟨stops, hstops, hends⟩ := tracks_targetName s hs hslot
    obtain ⟨found, -, hfound⟩ := exists_findSome?_map stops
      (fun e f => if operatorTail.occursAt (e.cursor f) then
        some ((s.cursor f).upTo (e.cursor f)) else none)
      (fun (name : Text) _ => name) (fun _ => True) fun e he => by
        obtain ⟨⟨count, rfl⟩, -⟩ := hstops e he
        obtain ⟨empty, hempty⟩ := tracks_operatorTail.exists_isEmpty (s := s.move count)
          (by rwa [Spot.whole_move]) trivial
        obtain ⟨name, hname⟩ := exists_upTo_cursor hs hslot (passesOnly_targetName _ _ (by
          rw [hends .created]
          exact List.mem_map_of_mem he))
        refine ⟨if empty then none else some name, by simp, fun f => ?_⟩
        rw [occursAt, hempty f, hname f]
        cases empty <;> rfl
    refine ⟨found, fun f => ?_⟩
    rw [targetAt?, hends f, List.findSome?_map]
    exact (hfound f).trans (by cases found <;> rfl)

/-- The assigned name is the same in every filling. -/
theorem exists_targetOf_fill {t : Template} (ht : IsOrderly t) :
    ∃ found : Option Text, ∀ f : Filling, targetOf (fill f.word t) = found := by
  have hskips : SkipsSlots targetAt? t := by
    intro s rest hs hafter f p q hword _ _
    have hletters := f.isWord_of_mem_word
    rw [hword] at hletters
    have hlead : (s.cursor f).Passes p
        ⟨p.reverse ++ fill f.word.reverse s.before, q ++ fill f.word rest⟩ := by
      refine ⟨?_, rfl⟩
      rw [Spot.cursor, hafter, fill_none, hword]
      exact List.append_assoc _ _ _
    exact targetAt?_eq_none (hs ▸ ht) hafter hlead fun x hx =>
      hletters x (List.mem_append_left _ hx)
  obtain ⟨found, -, hfound⟩ := exists_first?_cursor targetAt? hskips
    (fun (name : Text) _ => name) (fun _ => True) (fun s hs => by
      obtain ⟨found, hfound⟩ := exists_targetAt?_cursor (s := s) (hs ▸ ht)
      exact ⟨found, by simp, fun f => (hfound f).trans (by cases found <;> rfl)⟩)
    (Spot.start t) rfl
  refine ⟨found, fun f => ?_⟩
  exact (hfound f).trans (by cases found <;> rfl)

/-- The name that the call at a spot is assigned to. -/
theorem exists_target?_cursor {s : Spot} (hs : IsOrderly s.whole) :
    ∃ found : Option Text, ∀ f : Filling, target? (s.cursor f) = found := by
  obtain ⟨rest, hrest, hlast⟩ := exists_lastStatement_fill (hs.of_isInfix s.line_infix)
  obtain ⟨found, hfound⟩ :=
    exists_targetOf_fill ((hs.of_isInfix s.line_infix).of_isInfix hrest)
  refine ⟨found, fun f => ?_⟩
  rw [target?, Spot.lineHead_cursor, hlast f, hfound f]

end Assignment

end FactoryDowngrade
