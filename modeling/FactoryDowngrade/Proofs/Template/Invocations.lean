import FactoryDowngrade.Evidence.Basic
import FactoryDowngrade.Proofs.Template.Chains
import FactoryDowngrade.Proofs.Template.Searches

/-!
# Invocations on templates

Every name of a template is the name of an invocation, and a slot is one or part of one. In every
filling the invocations have their names and arguments at the same items, and their callees are
fillings of the same items.
-/

namespace FactoryDowngrade

open Template Pattern

namespace Invocation

/-! ### Names -/

/-- Characters before a name that make it something else. -/
def spoilsName (c : Char) : Bool :=
  CharClass.isWord c || c == '@' || c == '$' || c == ':'

/-- The place behind a mark that ends a name, if there is one. -/
def afterMark (c : Cursor) : Cursor :=
  if c.precedes "?!".toList.contains then c.skip 1 else c

/-- The first way to end a name is behind its mark, if it has one. -/
theorem head?_ends_mark (c : Cursor) :
    ((maybe (anyOf "?!")).ends c).head? = some (afterMark c) := by
  obtain ⟨before, after⟩ := c
  cases after with
  | nil => rfl
  | cons x after =>
    have hends : (maybe (anyOf "?!")).ends ⟨before, x :: after⟩ =
        (if "?!".toList.contains x then [⟨x :: before, after⟩] else []) ++ [⟨before, x :: after⟩] :=
      rfl
    have hmark : afterMark ⟨before, x :: after⟩ =
        if "?!".toList.contains x then ⟨x :: before, after⟩ else ⟨before, x :: after⟩ := rfl
    rw [hends, hmark]
    split <;> rfl

/-- The first end of two parts is that of the second part behind the first end of the first. -/
theorem head?_ends_seq {p q : Pattern} {c d : Cursor} {stops : List Cursor}
    (hp : p.ends c = d :: stops) {e : Cursor} (hq : (q.ends d).head? = some e) :
    ((seq p q).ends c).head? = some e := by
  rw [ends_seq, hp, List.flatMap_cons, List.head?_append, hq]
  rfl

/-- A name is matched as a whole, with its mark. -/
theorem match?_anyName (c : Cursor) : anyName.match? c =
    if c.follows spoilsName then none
    else if c.precedes CharClass.isNameStart then
      some (afterMark (afterRun CharClass.isWord (c.skip 1)))
    else none := by
  have hanyName : anyName = seq (notAfter spoilsName) (seq (one CharClass.isNameStart)
      (seq wordRun (seq (maybe (anyOf "?!")) empty))) := rfl
  rw [match?, hanyName, ends_seq, ends_notAfter]
  by_cases hspoiled : c.follows spoilsName = true
  · rw [if_pos hspoiled, if_pos hspoiled]
    rfl
  · rw [if_neg hspoiled, if_neg hspoiled, List.flatMap_singleton]
    obtain ⟨before, after⟩ := c
    cases after with
    | nil => rfl
    | cons x after =>
      by_cases hx : CharClass.isNameStart x = true
      · have hfirst : (one CharClass.isNameStart).ends ⟨before, x :: after⟩ =
            [⟨x :: before, after⟩] := if_pos hx
        obtain ⟨shorter, hrun, -⟩ := exists_ends_run CharClass.isWord ⟨x :: before, after⟩
        have hmark := head?_ends_mark (afterRun CharClass.isWord ⟨x :: before, after⟩)
        obtain ⟨more, hmore⟩ := List.head?_eq_some_iff.mp hmark
        have hname : Cursor.precedes ⟨before, x :: after⟩ CharClass.isNameStart = true := hx
        rw [if_pos hname]
        exact head?_ends_seq hfirst (head?_ends_seq hrun (head?_ends_seq hmore rfl))
      · have hfirst : (one CharClass.isNameStart).ends ⟨before, x :: after⟩ = [] := if_neg hx
        have hname : ¬Cursor.precedes ⟨before, x :: after⟩ CharClass.isNameStart = true := hx
        rw [if_neg hname, ends_seq, hfirst]
        rfl

/-- No name begins inside a word. -/
theorem skipsWords_anyName : SkipsWords anyName := by
  have hspoils : SkipsWords (notAfter spoilsName) :=
    skipsWords_notAfter fun c hc => by simp [spoilsName, hc]
  exact hspoils.seq _

/-- No name is empty. -/
theorem takesSome_anyName : TakesSome anyName :=
  .seq_right _ ((takesSome_one _).seq _)

/-- A name has word characters, and a mark at its end. -/
theorem passesOnly_anyName : PassesOnly Reference.extendsName anyName := by
  have hword (x : Char) (hx : CharClass.isWord x = true) : Reference.extendsName x = true := by
    rw [Reference.extendsName, hx, Bool.true_or, Bool.true_or]
  have hguard : PassesOnly Reference.extendsName (.notAfter spoilsName) := fun c d hd => by
    rw [ends_notAfter, ← ite_not] at hd
    exact ⟨[], by simp, (eq_of_mem_condition hd).2 ▸ .refl c⟩
  have hmark : PassesOnly Reference.extendsName (.maybe (.anyOf "?!")) :=
    (passesOnly_one fun x hx => by
      have hmem : x = '?' ∨ x = '!' := by simpa using hx
      rcases hmem with rfl | rfl <;> rfl).maybe
  exact hguard.seq ((passesOnly_one fun x hx => hword x (CharClass.isWord_of_isNameStart hx)).seq
    ((passesOnly_run hword).seq (hmark.seq passesOnly_empty)))

/-- The word that begins with an item ends at the same items in every filling. -/
theorem afterRun_skip_cursor (before : Template) (item : Option Char) (rest : Template)
    (f : Filling) :
    afterRun CharClass.isWord (((Spot.mk before (item :: rest)).cursor f).skip 1) =
      ((Spot.mk before (item :: rest)).move ((rest.takeWhile isWordItem).length + 1)).cursor f := by
  obtain ⟨first, more, hmore, hfill, -⟩ := exists_fill_cons_eq item f
  have hword : fill f.word.reverse (item :: rest.takeWhile isWordItem).reverse =
      (first :: (more ++ fill f.word (rest.takeWhile isWordItem))).reverse := by
    rw [← fill_reverse, hfill]
  rw [Spot.cursor, hfill, Cursor.skip, Cursor.skip, afterRun]
  dsimp only
  rw [takeWhile_isWord_append hmore, dropWhile_isWord_append hmore, Spot.cursor, Spot.move,
    List.take_succ_cons, List.drop_succ_cons, drop_length_takeWhile,
    ← List.prefix_iff_eq_take.mp (List.takeWhile_prefix _), fill_append, hword]
  simp

/-- The mark behind a name stands at the same item in every filling. -/
theorem afterMark_cursor (s : Spot) (f : Filling) : afterMark (s.cursor f) =
    (if s.after.head?.any (onItem false "?!".toList.contains) then s.move 1 else s).cursor f := by
  have hmark : Ignores "?!".toList.contains false := by decide
  have hprecedes : (s.cursor f).precedes "?!".toList.contains =
      s.after.head?.any (onItem false "?!".toList.contains) :=
    any_head?_fill hmark f.isSlotWord_word s.after
  rw [afterMark, hprecedes]
  split
  · rename_i hhead
    obtain ⟨before, after⟩ := s
    cases after with
    | nil => cases hhead
    | cons item after =>
      cases item with
      | none => cases hhead
      | some c => rfl
  · rfl

/-- The name at a spot takes the same items in every filling. -/
theorem exists_match?_anyName (s : Spot) : ∃ count : Option Nat, ∀ f : Filling,
    anyName.match? (s.cursor f) = count.map fun n => (s.move n).cursor f := by
  have hspoils : Ignores spoilsName true := by decide
  have hstart : Ignores CharClass.isNameStart true := by decide
  have hfollows (f : Filling) : (s.cursor f).follows spoilsName =
      s.before.head?.any (onItem true spoilsName) :=
    any_head?_fill hspoils f.isSlotWord_reverse s.before
  have hprecedes (f : Filling) : (s.cursor f).precedes CharClass.isNameStart =
      s.after.head?.any (onItem true CharClass.isNameStart) :=
    any_head?_fill hstart f.isSlotWord_word s.after
  by_cases hname : (!s.before.head?.any (onItem true spoilsName) &&
      s.after.head?.any (onItem true CharClass.isNameStart)) = true
  · obtain ⟨hclean, hbegins⟩ := Bool.and_eq_true_iff.mp hname
    obtain ⟨before, after⟩ := s
    cases after with
    | nil => cases hbegins
    | cons item rest =>
      let last := (Spot.mk before (item :: rest)).move ((rest.takeWhile isWordItem).length + 1)
      refine ⟨some ((rest.takeWhile isWordItem).length + 1 +
        if last.after.head?.any (onItem false "?!".toList.contains) then 1 else 0), fun f => ?_⟩
      rw [match?_anyName, hfollows f, hprecedes f, if_neg (by simpa using hclean), if_pos hbegins,
        afterRun_skip_cursor, afterMark_cursor, Option.map_some]
      change some ((if last.after.head?.any (onItem false "?!".toList.contains) then last.move 1
        else last).cursor f) = _
      split
      · rw [Spot.move_move]
      · rfl
  · refine ⟨none, fun f => ?_⟩
    rw [match?_anyName, hfollows f, hprecedes f]
    split
    · rfl
    · rename_i hclean
      rw [if_neg fun hbegins => hname (by rw [hbegins, Bool.eq_false_iff.mpr hclean]; rfl)]
      rfl

/-! ### Invocations -/

/-- An invocation on a template: its parts are items, and the callee is a template. -/
structure SpotInvocation where
  callee : Template
  nameStart : Nat
  nameStop : Nat
  argsStart : Nat
  argsStop : Nat
  parenthesized : Bool

namespace SpotInvocation

/-- The invocation in a filling. -/
def invocation (i : SpotInvocation) (t : Template) (f : Filling) : Invocation where
  callee := fill f.word i.callee
  nameStart := offsetOf f.word t i.nameStart
  nameStop := offsetOf f.word t i.nameStop
  argsStart := offsetOf f.word t i.argsStart
  argsStop := offsetOf f.word t i.argsStop
  parenthesized := i.parenthesized

/-- What is known of the parts of an invocation in a template. -/
structure IsIn (i : SpotInvocation) (t : Template) : Prop where
  linked : IsLinked (outlineItems 0 i.callee)
  argsStart : i.argsStart ≤ t.length
  argsStop : i.argsStop ≤ t.length

end SpotInvocation

variable {t : Template}

/-- Only a second colon keeps a colon from beginning an argument. -/
theorem beginsArgument_cons (c : Char) (rest : Text) : beginsArgument (c :: rest) =
    if c = ':' then rest.head? != some ':' else !isNoArgument c := by
  by_cases hc : c = ':'
  · subst hc
    rfl
  · rw [if_neg hc, beginsArgument.eq_def]
    split
    · rename_i heq
      cases heq
    · rename_i heq
      exact absurd (List.cons.inj heq).1 hc
    · rename_i heq
      rw [(List.cons.inj heq).1]

/-- An argument begins here in every filling or in none. -/
theorem exists_beginsArgument_fill (t : Template) :
    ∃ b, ∀ f : Filling, beginsArgument (fill f.word t) = b := by
  have hletter : ∀ c ∈ letters, c ≠ ':' ∧ isNoArgument c = false := by decide
  cases t with
  | nil => exact ⟨false, fun f => rfl⟩
  | cons item rest =>
    cases item with
    | none =>
      refine ⟨true, fun f => ?_⟩
      obtain ⟨c, hc, more, -, hfill⟩ := exists_fill_none_eq f.isSlotWord_word rest
      rw [hfill, beginsArgument_cons, if_neg (hletter c hc).1, (hletter c hc).2]
      rfl
    | some c =>
      refine ⟨if c = ':' then !decide (rest.head? = some (some ':')) else !isNoArgument c,
        fun f => ?_⟩
      have hcolon := head?_fill_eq_some_iff (c := ':') (by decide) f.isSlotWord_word rest
      rw [fill_some, beginsArgument_cons, bne, beq_eq_decide, decide_eq_decide.mpr hcolon]

/-- The place some items behind a spot. -/
theorem exists_offset_add {last : Spot} (hlast : last.whole = t) (count : Nat) :
    ∃ index ≤ t.length, ∀ f : Filling,
      (last.cursor f).offset + offsetOf f.word last.after count = offsetOf f.word t index := by
  refine ⟨min (last.before.length + count) t.length, Nat.min_le_right _ _, fun f => ?_⟩
  rw [offsetOf_min, Spot.offset_cursor_add, hlast]

/-- The end of an argument list in round brackets is at the same item in every filling. -/
theorem exists_parenthesizedStop_fill {last : Spot} (hlast : last.whole = t)
    (hround : last.after.head? = some (some '(')) : ∃ stop ≤ t.length, ∀ f : Filling,
      parenthesizedStop (last.cursor f).after (last.cursor f).offset = offsetOf f.word t stop := by
  have hplain : ∀ c ∈ letters, BracketRole.ofChar c = .plain := by decide
  obtain ⟨place, -, hplace⟩ := findsPlace_closeDistance hplain [] last.after
  have hclose (f : Filling) :
      Bracket.closeDistance BracketRole.ofChar [] (last.cursor f).after =
        place.map (offsetOf f.word last.after) := hplace f.word f.isSlotWord_word
  cases place with
  | some index =>
    obtain ⟨stop, hstop, hoffset⟩ := exists_offset_add hlast index
    exact ⟨stop, hstop, fun f => by rw [parenthesizedStop, hclose f]; exact hoffset f⟩
  | none =>
    obtain ⟨rest, hafter⟩ := List.head?_eq_some_iff.mp hround
    obtain ⟨count, hcount⟩ := exists_argumentLength_fill rest
    obtain ⟨stop, hstop, hoffset⟩ := exists_offset_add hlast (count + 1)
    refine ⟨stop, hstop, fun f => ?_⟩
    have htail : (last.cursor f).after.tail = fill f.word rest := by
      rw [Spot.cursor, hafter]
      rfl
    rw [parenthesizedStop, hclose f, Option.map_none]
    dsimp only
    rw [htail, hcount f, ← hoffset f, hafter, offsetOf_some_succ]
    omega

/-- A name with an argument list in round brackets has its parts at the same items in every
filling. -/
theorem exists_ofName_of_round {first last : Spot} (hfirst : first.whole = t)
    (hlast : last.whole = t) {callee : Template} (hlinked : IsLinked (outlineItems 0 callee))
    (hcallee : ∀ f : Filling, Receiver.chainEnding (last.cursor f).before = fill f.word callee)
    (hround : last.after.head? = some (some '(')) :
    ∃ i : SpotInvocation, i.IsIn t ∧
      ∀ f : Filling, ofName (first.cursor f) (last.cursor f) = i.invocation t f := by
  obtain ⟨start, hstart, hstartOffset⟩ := exists_offset_add hlast 1
  obtain ⟨stop, hstop, hstopOffset⟩ := exists_parenthesizedStop_fill hlast hround
  refine ⟨⟨callee, first.before.length, last.before.length, start, stop, true⟩,
    ⟨hlinked, hstart, hstop⟩, fun f => ?_⟩
  have hparen : (last.cursor f).after.head? = some '(' :=
    (head?_fill_eq_some_iff (by decide) f.isSlotWord_word last.after).mpr hround
  obtain ⟨rest, hafter⟩ := List.head?_eq_some_iff.mp hround
  have hone : (last.cursor f).offset + 1 = offsetOf f.word t start := by
    rw [← hstartOffset f, hafter, offsetOf_some_succ, offsetOf_zero]
  rw [ofName, if_pos hparen, hcallee f, hone, hstopOffset f, Spot.offset_cursor, hfirst,
    Spot.offset_cursor, hlast]
  rfl

/-- So has a name with an argument list behind blanks, or with none. -/
theorem exists_ofName_of_not_round {first last : Spot} (hfirst : first.whole = t)
    (hlast : last.whole = t) {callee : Template} (hlinked : IsLinked (outlineItems 0 callee))
    (hcallee : ∀ f : Filling, Receiver.chainEnding (last.cursor f).before = fill f.word callee)
    (hround : last.after.head? ≠ some (some '(')) :
    ∃ i : SpotInvocation, i.IsIn t ∧
      ∀ f : Filling, ofName (first.cursor f) (last.cursor f) = i.invocation t f := by
  have hspace : Ignores CharClass.isSpaceOrTab false := by decide
  have hparen (f : Filling) : (last.cursor f).after.head? ≠ some '(' := fun hhead =>
    hround ((head?_fill_eq_some_iff (by decide) f.isSlotWord_word last.after).mp hhead)
  let gap := last.after.takeWhile (onItem false CharClass.isSpaceOrTab)
  have hgap (f : Filling) : (last.cursor f).after.takeWhile CharClass.isSpaceOrTab =
      fill f.word gap := takeWhile_fill hspace f.isSlotWord_word last.after
  have hgapLength (f : Filling) : (fill f.word gap).length =
      offsetOf f.word last.after gap.length := by
    rw [← hgap f]
    exact length_takeWhile_fill hspace f.isSlotWord_word last.after
  have hrest (f : Filling) : (last.cursor f).after.drop (offsetOf f.word last.after gap.length) =
      fill f.word (last.after.drop gap.length) := drop_offsetOf f.word last.after gap.length
  obtain ⟨begins, hbegins⟩ := exists_beginsArgument_fill (last.after.drop gap.length)
  by_cases hargs : (!gap.isEmpty && begins) = true
  · obtain ⟨count, hcount⟩ := exists_argumentLength_fill (last.after.drop gap.length)
    obtain ⟨start, hstart, hstartOffset⟩ := exists_offset_add hlast gap.length
    obtain ⟨stop, hstop, hstopOffset⟩ := exists_offset_add hlast (gap.length + count)
    refine ⟨⟨callee, first.before.length, last.before.length, start, stop, false⟩,
      ⟨hlinked, hstart, hstop⟩, fun f => ?_⟩
    have hend : offsetOf f.word t start + offsetOf f.word (last.after.drop gap.length) count =
        offsetOf f.word t stop := by
      rw [← hstartOffset f, ← hstopOffset f, Nat.add_assoc, ← offsetOf_add]
    rw [ofName, if_neg (hparen f), hcallee f, hgap f]
    dsimp only
    rw [hgapLength f, hrest f, hbegins f, isEmpty_fill f.isSlotWord_word, if_pos hargs, hcount f,
      hstartOffset f, hend, Spot.offset_cursor, hfirst, Spot.offset_cursor, hlast]
    rfl
  · have hinside : last.before.length ≤ t.length := by
      rw [← hlast, Spot.whole]
      simp
    refine ⟨⟨callee, first.before.length, last.before.length, last.before.length,
      last.before.length, false⟩, ⟨hlinked, hinside, hinside⟩, fun f => ?_⟩
    rw [ofName, if_neg (hparen f), hcallee f, hgap f]
    dsimp only
    rw [hgapLength f, hrest f, hbegins f, isEmpty_fill f.isSlotWord_word, if_neg hargs,
      Spot.offset_cursor, hfirst, Spot.offset_cursor, hlast]
    rfl

/-- The invocation of a name has its parts at the same items in every filling. -/
theorem exists_ofName_fill (ht : IsOrderly t) (hunglued : IsUnglued t) {first last : Spot}
    (hfirst : first.whole = t) (hlast : last.whole = t) :
    ∃ i : SpotInvocation, i.IsIn t ∧
      ∀ f : Filling, ofName (first.cursor f) (last.cursor f) = i.invocation t f := by
  have hbefore : last.before.reverse <:+: t := hlast ▸ (List.prefix_append _ _).isInfix
  obtain ⟨callee, hlinked, hcallee⟩ :=
    exists_chainEnding_fill (ht.of_isInfix hbefore) (hunglued.of_isInfix hbefore)
  by_cases hround : last.after.head? = some (some '(')
  · exact exists_ofName_of_round hfirst hlast hlinked hcallee hround
  · exact exists_ofName_of_not_round hfirst hlast hlinked hcallee hround

/-- The invocations of an orderly template are the same in every filling. -/
theorem exists_all_fill (ht : IsOrderly t) (hunglued : IsUnglued t) :
    ∃ found : List SpotInvocation, (∀ i ∈ found, i.IsIn t) ∧
      ∀ f : Filling, all (fill f.word t) = found.map (·.invocation t f) := by
  obtain ⟨names, hnames, hmatches⟩ := exists_allMatches_of_match? (t := t)
    (fun s _ => exists_match?_anyName s) skipsWords_anyName takesSome_anyName
  obtain ⟨found, hfound, hall⟩ := exists_flatMap_map names
    (fun (v : Spot × Spot) f => [ofName (v.1.cursor f) (v.2.cursor f)])
    (fun (i : SpotInvocation) f => i.invocation t f) (fun i => i.IsIn t) (fun v hv => by
      obtain ⟨hfirst, count, hlast⟩ := hnames v hv
      obtain ⟨i, hi, hname⟩ := exists_ofName_fill ht hunglued hfirst
        (hlast ▸ (v.1.whole_move count).trans hfirst)
      exact ⟨[i], by simpa using hi, fun f => by rw [hname f]; rfl⟩)
  refine ⟨found, hfound, fun f => ?_⟩
  rw [← hall f, all, ofPattern, hmatches f, List.map_map, ← List.map_eq_flatMap]
  rfl

/-- An invocation holds the same items in every filling. -/
theorem holds_invocation {i : SpotInvocation} (hi : i.IsIn t) (start : Nat) {stop : Nat}
    (hstop : stop ≤ t.length) (f : Filling) :
    (i.invocation t f).holds (offsetOf f.word t start) (offsetOf f.word t stop) =
      (decide (i.argsStart ≤ start) && decide (stop ≤ i.argsStop)) := by
  have hbegin := offsetOf_le_offsetOf_iff f.isSlotWord_word t (j := start) hi.argsStart
  have hend := offsetOf_le_offsetOf_iff f.isSlotWord_word t (j := i.argsStop) hstop
  simp only [holds, SpotInvocation.invocation, hbegin, hend]

/-- The place where some arguments begin, in what precedes them together with them. -/
def argumentsSpot (t : Template) (start stop : Nat) : Spot :=
  ⟨(t.take start).reverse, (t.take stop).drop start⟩

/-- The arguments are read in a part of the template. -/
theorem whole_argumentsSpot (t : Template) (start stop : Nat) :
    (argumentsSpot t start stop).whole <:+: t := by
  rw [argumentsSpot, Spot.whole, List.reverse_reverse]
  rcases Nat.le_total start stop with hle | hle
  · have htake : t.take start = (t.take stop).take start := by
      rw [List.take_take, Nat.min_eq_left hle]
    rw [htake, List.take_append_drop]
    exact (List.take_prefix stop t).isInfix
  · have hnone : (t.take stop).drop start = [] := by
      rw [List.drop_eq_nil_iff, List.length_take]
      omega
    rw [hnone, List.append_nil]
    exact (List.take_prefix start t).isInfix

/-- References are looked for in the same items of every filling. -/
theorem refersWithin_fill (t : Template) (name : Text) (start stop : Nat) (f : Filling) :
    Evidence.refersWithin (fill f.word t) name (offsetOf f.word t start) (offsetOf f.word t stop) =
      (Reference.standalone name).occurs ((argumentsSpot t start stop).cursor f) := by
  rw [Evidence.refersWithin, slice_fill, take_offsetOf, argumentsSpot, Spot.cursor]
  dsimp only
  rw [fill_reverse]

end Invocation

end FactoryDowngrade
