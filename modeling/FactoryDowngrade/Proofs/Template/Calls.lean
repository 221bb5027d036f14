import FactoryDowngrade.Proofs.PlanSafety
import FactoryDowngrade.Proofs.Template.Heads
import FactoryDowngrade.Proofs.Template.Scans

/-!
# Calls on templates

The calls of an orderly template take the same items in every filling, and whether their arguments
can be read is the same as well. Their factory names are read from a second template, the one of
the text itself, which has its slots at the same items.
-/

namespace FactoryDowngrade

open Template Pattern

namespace CallSite

/-! ### Factory names -/

/-- A text whose first character begins no name gives none. -/
theorem isNone_factoryName?_of_plain {text rest : Text} {c : Char}
    (h : text.trimLeft = c :: rest) (hc : c ≠ ':' ∧ c ≠ '"' ∧ c ≠ '\'') :
    (factoryName? text).isNone = true := by
  obtain ⟨hcolon, hdouble, hsingle⟩ := hc
  rw [factoryName?, h]
  split
  · rename_i heq
    exact absurd (List.cons.inj heq).1 hcolon
  · rename_i heq
    exact absurd (List.cons.inj heq).1 hcolon
  · rename_i heq
    obtain ⟨rfl, -⟩ := List.cons.inj heq
    simp [hdouble, hsingle]
  · rfl

/-- What is there under a condition alone is missing where the condition fails. -/
theorem isNone_ite_some {α : Type} (b : Bool) (x : α) :
    (if b then some x else none).isNone = !b := by
  cases b <;> rfl

/-- What is there unless a condition holds is missing where the condition holds. -/
theorem isNone_ite_none {α : Type} (b : Bool) (x : α) :
    (if b then none else some x).isNone = b := by
  cases b <;> rfl

/-- Whether a text names a factory is told by its first two characters and what ends the name. -/
theorem isNone_factoryName?_of_cons_cons {text rest : Text} {c d : Char}
    (h : text.trimLeft = c :: d :: rest) :
    (factoryName? text).isNone =
      if c = ':' then
        if d = '"' then (rest.takeWhile (· ≠ '"')).isEmpty || (rest.dropWhile (· ≠ '"')).isEmpty
        else !CharClass.isNameStart d
      else !((c == '"' || c == '\'') && CharClass.isNameStart d &&
        (rest.dropWhile isFactoryChar).head?.any ['"', '\''].contains) := by
  rw [factoryName?, h]
  split
  · rename_i heq
    obtain ⟨rfl, htail⟩ := List.cons.inj heq
    obtain ⟨rfl, rfl⟩ := List.cons.inj htail
    rw [if_pos rfl, if_pos rfl, ← drop_length_takeWhile]
    exact isNone_ite_none _ _
  · rename_i hquote heq
    obtain ⟨rfl, htail⟩ := List.cons.inj heq
    obtain ⟨rfl, rfl⟩ := List.cons.inj htail
    rw [if_pos rfl, if_neg hquote, isNone_ite_some]
  · rename_i hother heq
    obtain ⟨rfl, htail⟩ := List.cons.inj heq
    obtain ⟨rfl, rfl⟩ := List.cons.inj htail
    rw [if_neg hother, ← drop_length_takeWhile]
    exact isNone_ite_some _ _
  · rename_i hother
    exact absurd rfl (hother _ _ _)

/-- Behind two items a factory name is given in every filling or in none. -/
theorem exists_factoryName?_of_cons_cons (c : Char) (item : Option Char) (rest : Template) :
    ∃ b, ∀ (f : Filling) (text : Text), text.trimLeft = fill f.word (some c :: item :: rest) →
      (factoryName? text).isNone = b := by
  have hstart : ∀ c ∈ letters, CharClass.isNameStart c = true ∧ c ≠ '"' := by decide
  have hquote : Ignores (fun c => decide (c ≠ '"')) true := by decide
  have hname : Ignores isFactoryChar true := by decide
  have hend : Ignores ['"', '\''].contains false := by decide
  cases item with
  | some d =>
    refine ⟨if c = ':' then
        if d = '"' then (rest.takeWhile (onItem true (· ≠ '"'))).isEmpty ||
          (rest.dropWhile (onItem true (· ≠ '"'))).isEmpty
        else !CharClass.isNameStart d
      else !((c == '"' || c == '\'') && CharClass.isNameStart d &&
        (rest.dropWhile (onItem true isFactoryChar)).head?.any
          (onItem false ['"', '\''].contains)), fun f text hlead => ?_⟩
    rw [fill_some, fill_some] at hlead
    rw [isNone_factoryName?_of_cons_cons hlead, takeWhile_fill hquote f.isSlotWord_word,
      dropWhile_fill hquote f.isSlotWord_word, isEmpty_fill f.isSlotWord_word,
      isEmpty_fill f.isSlotWord_word, dropWhile_fill hname f.isSlotWord_word,
      any_head?_fill hend f.isSlotWord_word]
  | none =>
    -- the word of a slot begins like a name, and its letters belong to one
    refine ⟨if c = ':' then false
      else !((c == '"' || c == '\'') && (rest.dropWhile (onItem true isFactoryChar)).head?.any
        (onItem false ['"', '\''].contains)), fun f text hlead => ?_⟩
    obtain ⟨d, hd, more, hmore, hfill⟩ := exists_fill_none_eq f.isSlotWord_word rest
    obtain ⟨hnameStart, hdquote⟩ := hstart d hd
    rw [fill_some, hfill] at hlead
    rw [isNone_factoryName?_of_cons_cons hlead, if_neg hdquote, hnameStart, Bool.and_true,
      List.dropWhile_append_of_pos fun x hx => hname x (hmore x hx),
      dropWhile_fill hname f.isSlotWord_word, any_head?_fill hend f.isSlotWord_word]
    rfl

/-- A factory name is given in every filling or in none. -/
theorem exists_factoryName?_fill (t : Template) :
    ∃ b, ∀ f : Filling, (factoryName? (fill f.word t)).isNone = b := by
  have hblank : Ignores CharClass.isBlank false := by decide
  have hplain : ∀ c ∈ letters, c ≠ ':' ∧ c ≠ '"' ∧ c ≠ '\'' := by decide
  have htrim (f : Filling) : (fill f.word t).trimLeft =
      fill f.word (t.dropWhile (onItem false CharClass.isBlank)) :=
    dropWhile_fill hblank f.isSlotWord_word t
  match hlead : t.dropWhile (onItem false CharClass.isBlank) with
  | [] =>
    refine ⟨true, fun f => ?_⟩
    rw [factoryName?, htrim f, hlead]
    rfl
  | none :: rest =>
    refine ⟨true, fun f => ?_⟩
    obtain ⟨c, hc, more, -, hfill⟩ := exists_fill_none_eq f.isSlotWord_word rest
    rw [hlead] at htrim
    exact isNone_factoryName?_of_plain ((htrim f).trans hfill) (hplain c hc)
  | [some c] =>
    refine ⟨true, fun f => ?_⟩
    rw [factoryName?, htrim f, hlead]
    split
    · rename_i heq; cases heq
    · rename_i heq; cases heq
    · rename_i heq; cases heq
    · rfl
  | some c :: item :: rest =>
    obtain ⟨b, hb⟩ := exists_factoryName?_of_cons_cons c item rest
    exact ⟨b, fun f => hb f _ (hlead ▸ htrim f)⟩

/-- Whether a name begins here is told by the first character and by a second colon. -/
theorem beginsName_cons (c : Char) (rest : Text) :
    beginsName (c :: rest) = (!(c == ':' && rest.head?.any (· == ':')) &&
      (c == ':' || c == '"' || c == '\'')) := by
  rw [beginsName.eq_def]
  split
  · rename_i heq
    obtain ⟨rfl, rfl⟩ := List.cons.inj heq
    rfl
  · rename_i hcolons heq
    obtain ⟨rfl, rfl⟩ := List.cons.inj heq
    have hfalse : (c == ':' && rest.head?.any (· == ':')) = false := by
      rw [Bool.and_eq_false_iff, beq_eq_false_iff_ne]
      by_cases hc : c = ':'
      · subst hc
        right
        cases rest with
        | nil => rfl
        | cons d rest =>
          refine beq_eq_false_iff_ne.mpr ?_
          rintro rfl
          exact hcolons rest rfl rfl
      · exact .inl hc
    rw [hfalse]
    rfl
  · rename_i heq
    cases heq

/-- A factory name begins here in every filling or in none. -/
theorem exists_beginsName_fill (t : Template) :
    ∃ b, ∀ f : Filling, beginsName (fill f.word t) = b := by
  have hplain : ∀ c ∈ letters, (c == ':' || c == '"' || c == '\'') = false := by decide
  have hcolon : Ignores (fun c => c == ':') false := by decide
  cases t with
  | nil => exact ⟨false, fun f => rfl⟩
  | cons item rest =>
    cases item with
    | none =>
      refine ⟨false, fun f => ?_⟩
      obtain ⟨c, hc, more, -, hfill⟩ := exists_fill_none_eq f.isSlotWord_word rest
      rw [hfill, beginsName_cons, hplain c hc, Bool.and_false]
    | some c =>
      refine ⟨!(c == ':' && rest.head?.any (onItem false (· == ':'))) &&
        (c == ':' || c == '"' || c == '\''), fun f => ?_⟩
      rw [fill_some, beginsName_cons, any_head?_fill hcolon f.isSlotWord_word]

/-! ### Calls -/

/-- A call on a template: its parts are items, and one at a slot takes its strategy from it. -/
structure SpotCall where
  fixed : Option Variant
  start : Nat
  stop : Nat
  calleeStart : Nat
  calleeStop : Nat
  argsStart : Nat
  argsStop : Nat
  schemaName : Filling → Option Text
  fault : Option SiteFault

namespace SpotCall

/-- The strategy of the call in a filling. -/
def variant (k : SpotCall) (f : Filling) : Variant :=
  k.fixed.getD f.variant

/-- The call in a filling. -/
def call (k : SpotCall) (t : Template) (f : Filling) : Call where
  variant := k.variant f
  start := offsetOf f.word t k.start
  stop := offsetOf f.word t k.stop
  calleeStart := offsetOf f.word t k.calleeStart
  calleeStop := offsetOf f.word t k.calleeStop
  argsStart := offsetOf f.word t k.argsStart
  argsStop := offsetOf f.word t k.argsStop
  schemaName := k.schemaName f
  fault := k.fault

/-- What is known of the parts of a call in a template. -/
structure IsIn (k : SpotCall) (t : Template) : Prop where
  start : k.start ≤ t.length
  stop : k.stop ≤ t.length
  calleeStart : k.calleeStart ≤ t.length
  argsStart : k.argsStart ≤ t.length
  slot : k.fixed = none ↔ t[k.calleeStart]? = some none

end SpotCall

/-- The words in front of a defined name end at the same spots in every filling. -/
theorem tracks_definitionLead : Tracks anywhere definitionLead anywhere := by
  have hblanks : Tracks anywhere .blanks anywhere := tracks_blanks.toAnywhere
  have hdot : Tracks anywhere (.char '.') anywhere := (tracks_one (by decide)).toAnywhere
  have hblank : Tracks anywhere (.one CharClass.isBlank) anywhere :=
    (tracks_one (by decide)).toAnywhere
  have hdef : Tracks anywhere (.word "def") anywhere :=
    (tracks_literal (by decide) (by decide)).toAnywhere
  have hself : Tracks anywhere (.word "self") anywhere :=
    (tracks_literal (by decide) (by decide)).toAnywhere
  have hreceiver : Tracks anywhere
      (.maybe (.chain [.word "self", .blanks, .char '.', .blanks])) anywhere :=
    (hself.seq (hblanks.seq (hdot.seq (hblanks.seq tracks_empty)))).maybe fun _ _ h => h
  exact tracks_wordEdge.seq (hdef.seq (hblank.seq (hblanks.seq (hreceiver.seq
    (tracks_textEnd.seq tracks_empty)))))

/-- A head that names a method definition does so in every filling. -/
theorem SpotHead.exists_isDefinition {t : Template} (ht : IsOrderly t) {h : SpotHead}
    (hin : h.IsIn t) : ∃ b, ∀ f : Filling, (h.head f).isDefinition = b := by
  obtain ⟨b, hb⟩ := tracks_definitionLead.exists_occurs (s := Spot.start h.first.line)
    (ht.of_isInfix (hin.whole ▸ h.first.line_infix)) (fun _ _ => trivial)
    ((skipsWords_wordEdge.seq _).skipsSlots _)
  refine ⟨b, fun f => ?_⟩
  rw [← hb f, Spot.cursor_start, ← Spot.lineHead_cursor]
  rfl

namespace SpotHead

variable {t : Template} {h : SpotHead}

/-- The callee of a head is in the template of the head. -/
theorem IsIn.whole_callee (hin : h.IsIn t) : h.callee.whole = t := by
  obtain ⟨count, hcallee⟩ := hin.callee
  rw [hcallee, Spot.whole_move, hin.whole]

/-- So is the last item of the head. -/
theorem IsIn.whole_last (hin : h.IsIn t) : h.last.whole = t := by
  obtain ⟨count, hlast⟩ := hin.last
  rw [hlast, Spot.whole_move, hin.whole_callee]

/-- The call that a head begins, with the items of its arguments and its end. -/
def spotCall (h : SpotHead) (argsStart argsStop stop : Nat) (schemaName : Filling → Option Text)
    (fault : Option SiteFault) : SpotCall :=
  { fixed := h.fixed
    start := h.first.before.length
    stop
    calleeStart := h.callee.before.length
    calleeStop := h.last.before.length
    argsStart
    argsStop
    schemaName
    fault }

/-- A call from a head in a template, with its ends in the template, is a call in it. -/
theorem isIn_spotCall (hin : h.IsIn t) {argsStart argsStop stop : Nat}
    {schemaName : Filling → Option Text} {fault : Option SiteFault} (hargs : argsStart ≤ t.length)
    (hstop : stop ≤ t.length) : (h.spotCall argsStart argsStop stop schemaName fault).IsIn t where
  start := by
    rw [← hin.whole]
    simp [spotCall, Spot.whole]
  stop := hstop
  calleeStart := by
    rw [← hin.whole_callee]
    simp [spotCall, Spot.whole]
  argsStart := hargs
  slot := by
    rw [spotCall, hin.slot, ← hin.whole_callee, Spot.whole, List.getElem?_append_right (by simp),
      List.length_reverse, Nat.sub_self, Spot.AtSlot, List.head?_eq_getElem?]

/-- The call's range in a filling, read from the cursors of its head. -/
theorem call_spotCall (hin : h.IsIn t) (argsStart argsStop stop : Nat)
    (schemaName : Filling → Option Text) (fault : Option SiteFault) (f : Filling) :
    (h.spotCall argsStart argsStop stop schemaName fault).call t f =
      { variant := (h.head f).variant
        start := (h.head f).first.offset
        stop := offsetOf f.word t stop
        calleeStart := (h.head f).callee.offset
        calleeStop := (h.head f).last.offset
        argsStart := offsetOf f.word t argsStart
        argsStop := offsetOf f.word t argsStop
        schemaName := schemaName f
        fault } := by
  rw [head, Spot.offset_cursor, Spot.offset_cursor, Spot.offset_cursor, hin.whole,
    hin.whole_callee, hin.whole_last]
  rfl

/-- A call with its argument range is the same in every filling. -/
theorem exists_call_fill {r : Template} (hr : SameSlots r t) (hin : h.IsIn t)
    {argsStart stop : Nat} (argsStop : Nat) (hargs : argsStart ≤ t.length)
    (hstop : stop ≤ t.length) :
    ∃ k : SpotCall, k.IsIn t ∧ ∀ f : Filling,
      (h.head f).call (fill f.word r) (offsetOf f.word t argsStart) (offsetOf f.word t argsStop)
        (offsetOf f.word t stop) = k.call t f := by
  obtain ⟨unnamed, hunnamed⟩ := exists_factoryName?_fill ((r.take argsStop).drop argsStart)
  refine ⟨h.spotCall argsStart argsStop stop
    (fun f => factoryName? (fill f.word ((r.take argsStop).drop argsStart)))
    (if unnamed then some .unnamedFactory else none), isIn_spotCall hin hargs hstop, fun f => ?_⟩
  have hslice := slice_fill f.word r argsStart argsStop
  rw [hr.offsetOf_eq, hr.offsetOf_eq] at hslice
  rw [call_spotCall hin, Head.call, hslice, hunnamed f]

/-- Some items behind the head, offsets count from the start of the template. -/
theorem offset_last_add (hin : h.IsIn t) (f : Filling) (count : Nat) :
    (h.head f).last.offset + offsetOf f.word h.last.after count =
      offsetOf f.word t (h.last.before.length + count) := by
  rw [← hin.whole_last]
  exact Spot.offset_cursor_add h.last f count

/-- What begins behind a head ends within the template. -/
theorem length_last_add (hin : h.IsIn t) {count : Nat} (hcount : count ≤ h.last.after.length) :
    h.last.before.length + count ≤ t.length := by
  rw [← hin.whole_last, Spot.whole, List.length_append, List.length_reverse]
  omega

section Round

variable (hround : h.last.after.head? = some (some '('))

include hround

/-- An opening parenthesis behind the head is one in every filling. -/
theorem head?_last_eq_round (f : Filling) : (h.head f).last.after.head? = some '(' :=
  (head?_fill_eq_some_iff (by decide) f.isSlotWord_word _).mpr hround

/-- An opening parenthesis is an item of the template. -/
theorem one_le_length_of_round : 1 ≤ h.last.after.length := by
  rw [List.head?_eq_getElem?] at hround
  exact (List.getElem?_eq_some_iff.mp hround).1

/-- The offset behind it. -/
theorem offset_last_succ (hin : h.IsIn t) (f : Filling) :
    (h.head f).last.offset + 1 = offsetOf f.word t (h.last.before.length + 1) := by
  have hvisible : h.last.after[0]? = some (some '(') := by rw [← List.head?_eq_getElem?, hround]
  rw [← offset_last_add hin, offsetOf_succ_of_visible f.word hvisible, offsetOf_zero]

/-- The call behind a head whose opening parenthesis is never closed. -/
theorem exists_call?_of_unclosed {r : Template} (hin : h.IsIn t)
    (hnot : ∀ f : Filling, (h.head f).isDefinition = false)
    (hclose : ∀ f : Filling,
      Bracket.closeDistance BracketRole.ofChar [] (h.head f).last.after = none) :
    ∃ found : Option SpotCall, (∀ k ∈ found, k.IsIn t) ∧
      ∀ f : Filling, (h.head f).call? (fill f.word r) = found.map (·.call t f) := by
  have hline : Ignores (fun c => decide (c ≠ '\n')) true := by decide
  let line := (h.last.after.takeWhile (onItem true fun c => decide (c ≠ '\n'))).length
  have hend : line ≤ h.last.after.length := (List.takeWhile_prefix _).length_le
  refine ⟨some (h.spotCall (h.last.before.length + 1) (h.last.before.length + line)
    (h.last.before.length + line) (fun _ => none) (some .unbalancedArguments)), ?_, fun f => ?_⟩
  · intro k hk
    obtain rfl := Option.mem_some_iff.mp hk
    exact isIn_spotCall hin (length_last_add hin (one_le_length_of_round hround))
      (length_last_add hin hend)
  · have hstop : (h.head f).last.after.firstLine.length = offsetOf f.word h.last.after line :=
      length_takeWhile_fill hline f.isSlotWord_word h.last.after
    rw [Head.call?, hnot f, if_neg (by decide)]
    dsimp only
    rw [if_pos (head?_last_eq_round hround f), hclose f, Option.map_some, call_spotCall hin,
      Head.unbalanced]
    dsimp only
    rw [hstop, offset_last_add hin, offset_last_succ hround hin]

/-- The call behind a head whose opening parenthesis is closed by an item of the template. -/
theorem exists_call?_of_closed {r : Template} (hr : SameSlots r t) (hin : h.IsIn t)
    (hnot : ∀ f : Filling, (h.head f).isDefinition = false) {index : Nat} {c : Char}
    (hc : h.last.after[index]? = some (some c))
    (hclose : ∀ f : Filling, Bracket.closeDistance BracketRole.ofChar [] (h.head f).last.after =
      some (offsetOf f.word h.last.after index)) :
    ∃ found : Option SpotCall, (∀ k ∈ found, k.IsIn t) ∧
      ∀ f : Filling, (h.head f).call? (fill f.word r) = found.map (·.call t f) := by
  have hend : index + 1 ≤ h.last.after.length := (List.getElem?_eq_some_iff.mp hc).1
  obtain ⟨k, hk, hcall⟩ := exists_call_fill hr hin (h.last.before.length + index)
    (length_last_add hin (one_le_length_of_round hround)) (length_last_add hin hend)
  refine ⟨some k, fun k' hk' => ?_, fun f => ?_⟩
  · obtain rfl := Option.mem_some_iff.mp hk'
    exact hk
  · have hbehind : (h.head f).last.offset + offsetOf f.word h.last.after index + 1 =
        offsetOf f.word t (h.last.before.length + (index + 1)) := by
      rw [← offset_last_add hin, offsetOf_succ_of_visible f.word hc, Nat.add_assoc]
    rw [Head.call?, hnot f, if_neg (by decide)]
    dsimp only
    rw [if_pos (head?_last_eq_round hround f), hclose f]
    dsimp only
    rw [hbehind, offset_last_add hin, offset_last_succ hround hin, hcall f]
    rfl

/-- The call behind a head that an opening parenthesis follows. -/
theorem exists_call?_of_round {r : Template} (hr : SameSlots r t) (hin : h.IsIn t)
    (hnot : ∀ f : Filling, (h.head f).isDefinition = false) :
    ∃ found : Option SpotCall, (∀ k ∈ found, k.IsIn t) ∧
      ∀ f : Filling, (h.head f).call? (fill f.word r) = found.map (·.call t f) := by
  have hplain : ∀ c ∈ letters, BracketRole.ofChar c = .plain := by decide
  obtain ⟨place, hclosing, hplace⟩ := findsPlace_closeDistance hplain [] h.last.after
  cases place with
  | none =>
    exact exists_call?_of_unclosed hround hin hnot fun f => hplace f.word f.isSlotWord_word
  | some index =>
    obtain ⟨c, hc⟩ := hclosing index rfl
    exact exists_call?_of_closed hround hr hin hnot hc fun f => hplace f.word f.isSlotWord_word

end Round

/-- The call behind a head that no opening parenthesis follows. -/
theorem exists_call?_of_not_round {r : Template} (hr : SameSlots r t) (hin : h.IsIn t)
    (hnot : ∀ f : Filling, (h.head f).isDefinition = false)
    (hround : h.last.after.head? ≠ some (some '(')) :
    ∃ found : Option SpotCall, (∀ k ∈ found, k.IsIn t) ∧
      ∀ f : Filling, (h.head f).call? (fill f.word r) = found.map (·.call t f) := by
  have hspace : Ignores CharClass.isSpaceOrTab false := by decide
  have hparen (f : Filling) : (h.head f).last.after.head? ≠ some '(' := fun hhead =>
    hround ((head?_fill_eq_some_iff (by decide) f.isSlotWord_word _).mp hhead)
  let gap := h.last.after.takeWhile (onItem false CharClass.isSpaceOrTab)
  have hgap (f : Filling) : (h.head f).last.after.takeWhile CharClass.isSpaceOrTab =
      fill f.word gap := takeWhile_fill hspace f.isSlotWord_word h.last.after
  have hgapLength (f : Filling) : (fill f.word gap).length =
      offsetOf f.word h.last.after gap.length := by
    rw [← hgap f]
    exact length_takeWhile_fill hspace f.isSlotWord_word h.last.after
  have hend : gap.length ≤ h.last.after.length := (List.takeWhile_prefix _).length_le
  obtain ⟨named, hnamed⟩ := exists_beginsName_fill (r.drop (h.last.before.length + gap.length))
  have hbegins (f : Filling) : beginsName ((fill f.word r).drop
      (offsetOf f.word t (h.last.before.length + gap.length))) = named := by
    rw [← hr.offsetOf_eq, drop_offsetOf, hnamed f]
  obtain ⟨count, hcount⟩ := exists_argumentLength_fill (h.last.after.drop gap.length)
  by_cases hcall : (!gap.isEmpty && named) = true
  · let argsStart := h.last.before.length + gap.length
    obtain ⟨k, hk, hcalled⟩ := exists_call_fill hr hin (argsStart + count)
      (length_last_add hin hend) (Nat.min_le_right (argsStart + count) t.length)
    refine ⟨some k, fun k' hk' => ?_, fun f => ?_⟩
    · obtain rfl := Option.mem_some_iff.mp hk'
      exact hk
    · have hrest : (h.head f).last.after.drop (offsetOf f.word h.last.after gap.length) =
          fill f.word (h.last.after.drop gap.length) := drop_offsetOf f.word h.last.after gap.length
      have hstop : offsetOf f.word t argsStart +
          offsetOf f.word (h.last.after.drop gap.length) count =
            offsetOf f.word t (argsStart + count) := by
        rw [← offset_last_add hin, Nat.add_assoc, ← offsetOf_add, offset_last_add hin,
          Nat.add_assoc]
      have hcallf := hcalled f
      rw [offsetOf_min] at hcallf
      rw [Head.call?, hnot f, if_neg (by decide)]
      dsimp only
      rw [if_neg (hparen f), hgap f, hgapLength, offset_last_add hin, hbegins f,
        isEmpty_fill f.isSlotWord_word, if_pos hcall, hrest, hcount f, hstop, hcallf]
      rfl
  · refine ⟨none, by simp, fun f => ?_⟩
    rw [Head.call?, hnot f, if_neg (by decide)]
    dsimp only
    rw [if_neg (hparen f), hgap f, hgapLength, offset_last_add hin, hbegins f,
      isEmpty_fill f.isSlotWord_word, if_neg hcall]
    rfl

/-- A head begins a call in every filling or in none, and the call takes the same items. -/
theorem exists_call?_fill {r : Template} (ht : IsOrderly t) (hr : SameSlots r t) (hin : h.IsIn t) :
    ∃ found : Option SpotCall, (∀ k ∈ found, k.IsIn t) ∧
      ∀ f : Filling, (h.head f).call? (fill f.word r) = found.map (·.call t f) := by
  obtain ⟨definition, hdefinition⟩ := exists_isDefinition ht hin
  cases definition with
  | true => exact ⟨none, by simp, fun f => by rw [Head.call?, if_pos (hdefinition f)]; rfl⟩
  | false =>
    by_cases hround : h.last.after.head? = some (some '(')
    · exact exists_call?_of_round hround hr hin hdefinition
    · exact exists_call?_of_not_round hr hin hdefinition hround

end SpotHead

/-- The calls of an orderly template are the same in every filling. -/
theorem exists_calls_fill {t r : Template} (ht : IsOrderly t) (hr : SameSlots r t) :
    ∃ ks : List SpotCall, (∀ k ∈ ks, k.IsIn t) ∧
      ∀ f : Filling, calls (fill f.word r) (fill f.word t) = ks.map (·.call t f) := by
  obtain ⟨found, hin, hfound⟩ := exists_heads_fill ht
  obtain ⟨ks, hks, hcalls⟩ := exists_filterMap_map found
    (fun (h : SpotHead) f => (h.head f).call? (fill f.word r)) (fun (k : SpotCall) f => k.call t f)
    (fun k => k.IsIn t) fun h hh => h.exists_call?_fill ht hr (hin h hh)
  refine ⟨ks, hks, fun f => ?_⟩
  rw [← hcalls f, calls, ← heads, hfound f, List.filterMap_map]
  rfl

/-! ### Enclosing calls -/

namespace SpotCall

variable {t : Template} {k other : SpotCall}

/-- A call lies in the arguments of another in every filling or in none. -/
theorem holds_call (hother : other.IsIn t) (hk : k.IsIn t) (f : Filling) :
    (other.call t f).holds (k.call t f) =
      (decide (other.argsStart ≤ k.start) && decide (k.stop ≤ other.argsStop)) := by
  have hstart := offsetOf_le_offsetOf_iff f.isSlotWord_word t (j := k.start) hother.argsStart
  have hstop := offsetOf_le_offsetOf_iff f.isSlotWord_word t (j := other.argsStop) hk.stop
  simp only [Call.holds, call, hstart, hstop]

/-- Two calls begin at one offset of a filling just when they begin at one item. -/
theorem start_call_eq_iff (hother : other.IsIn t) (hk : k.IsIn t) (f : Filling) :
    (other.call t f).start = (k.call t f).start ↔ other.start = k.start :=
  offsetOf_inj f.isSlotWord_word hother.start hk.start

/-- A call has an enclosing one in every filling or in none. -/
theorem exists_enclosing? {ks : List SpotCall} (hks : ∀ k ∈ ks, k.IsIn t) (hk : k.IsIn t) :
    ∃ b, ∀ f : Filling,
      ((k.call t f).enclosing? (ks.map (·.call t f))).isSome = b := by
  refine ⟨ks.any fun other => other.start != k.start &&
    (decide (other.argsStart ≤ k.start) && decide (k.stop ≤ other.argsStop)), fun f => ?_⟩
  rw [Bool.eq_iff_iff, Call.isSome_enclosing?_iff, List.any_eq_true]
  constructor
  · rintro ⟨_, hmem, hne, hholds⟩
    obtain ⟨other, hother, rfl⟩ := List.mem_map.mp hmem
    rw [holds_call (hks other hother) hk] at hholds
    rw [ne_eq, start_call_eq_iff (hks other hother) hk] at hne
    exact ⟨other, hother, by rw [hholds, Bool.and_true]; exact bne_iff_ne.mpr hne⟩
  · rintro ⟨other, hother, h⟩
    rw [Bool.and_eq_true, bne_iff_ne] at h
    refine ⟨_, List.mem_map_of_mem hother, ?_, ?_⟩
    · rw [ne_eq, start_call_eq_iff (hks other hother) hk]
      exact h.1
    · rw [holds_call (hks other hother) hk]
      exact h.2

end SpotCall

end CallSite

end FactoryDowngrade
