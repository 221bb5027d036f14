import FactoryDowngrade.Proofs.Template.Assignments
import FactoryDowngrade.Proofs.Template.Scans

/-!
# Lazy blocks on templates

The lazily evaluated blocks of an orderly template have the same names and hold the same items in
every filling, so a call inside them is bound to the same name.
-/

namespace FactoryDowngrade

open Template Pattern

namespace LazyBinding

/-! ### Parts of a head -/

/-- The keyword of a block is seen alike in all fillings, and no slot comes behind it. -/
theorem tracks_keywordPattern : Tracks anywhere keywordPattern offSlot := by
  have hlet : Tracks anywhere (.word "let") offSlot :=
    tracks_literal (by decide) (by decide)
  have hsubject : Tracks anywhere (.word "subject") offSlot :=
    tracks_literal (by decide) (by decide)
  have hbang : Tracks offSlot (.maybe (.char '!')) offSlot :=
    (tracks_one_of_stains fun c hc => by rw [eq_of_beq hc]; decide).maybe fun _ _ h => h
  exact (hlet.either hsubject).seq hbang

/-- It has no other characters than names may have. -/
theorem passesOnly_keywordPattern : PassesOnly stains keywordPattern := by
  have hbang : PassesOnly stains (.maybe (.char '!')) :=
    (passesOnly_one fun c hc => by rw [eq_of_beq hc]; decide).maybe
  exact ((passesOnly_literal (by decide)).either
    (passesOnly_literal (by decide))).seq hbang

/-- It has some. -/
theorem takesSome_keywordPattern : TakesSome keywordPattern :=
  ((takesSome_literal (by decide)).either (takesSome_literal (by decide))).seq _

/-- No keyword begins at a slot. -/
theorem ends_keywordPattern_eq_nil {s : Spot} (hslot : s.AtSlot) (f : Filling) :
    keywordPattern.ends (s.cursor f) = [] := by
  have hlet : (Pattern.word "let").ends (s.cursor f) = [] :=
    ends_literal_eq_nil hslot (by decide) f
  have hsubject : (Pattern.word "subject").ends (s.cursor f) = [] :=
    ends_literal_eq_nil hslot (by decide) f
  change (Pattern.seq (.either (.word "let") (.word "subject")) _).ends (s.cursor f) = []
  rw [ends_seq, ends_either, hlet, hsubject]
  rfl

/-- What leads to the name of a block is seen alike. -/
theorem tracks_nameLead : Tracks anywhere nameLead offSlot := by
  have hblanks : Tracks anywhere .blanks anywhere := tracks_blanks.toAnywhere
  have hround : Tracks anywhere (.char '(') anywhere := (tracks_one (by decide)).toAnywhere
  have hcolon : Tracks anywhere (.char ':') offSlot :=
    (tracks_one (by decide)).mono (fun _ _ h => h)
      (offSlot_of_behind fun c hc => by rw [eq_of_beq hc]; decide)
  exact hblanks.seq (hround.seq (hblanks.seq (hcolon.seq tracks_empty)))

/-- So is the name. -/
theorem tracks_namePattern : Tracks offSlot namePattern offSlot := by
  have hfirst : Tracks offSlot (.one CharClass.isLowerStart) offSlot :=
    tracks_one_of_stains fun _ hc => stains_of_isWord (CharClass.isWord_of_isLowerStart hc)
  have hrest : Tracks offSlot .wordRun offSlot := tracks_run_offSlot fun _ => stains_of_isWord
  have hmark : Tracks offSlot (.maybe (.anyOf "?!")) offSlot :=
    (tracks_one_of_stains fun c hc => by
      have hmem : c = '?' ∨ c = '!' := by simpa using hc
      rcases hmem with rfl | rfl <;> decide).maybe fun _ _ h => h
  exact hfirst.seq (hrest.seq (hmark.seq tracks_empty))

/-- It has no other characters than names may have. -/
theorem passesOnly_namePattern : PassesOnly stains namePattern := by
  have hfirst : PassesOnly stains (.one CharClass.isLowerStart) :=
    passesOnly_one fun _ hc => stains_of_isWord (CharClass.isWord_of_isLowerStart hc)
  have hrest : PassesOnly stains .wordRun := passesOnly_run fun _ => stains_of_isWord
  have hmark : PassesOnly stains (.maybe (.anyOf "?!")) :=
    (passesOnly_one fun c hc => by
      have hmem : c = '?' ∨ c = '!' := by simpa using hc
      rcases hmem with rfl | rfl <;> decide).maybe
  exact hfirst.seq (hrest.seq (hmark.seq passesOnly_empty))

/-- What stands behind the name is seen alike. -/
theorem tracks_nameTail : Tracks anywhere nameTail anywhere := by
  have hblanks : Tracks anywhere .blanks anywhere := tracks_blanks.toAnywhere
  have hround : Tracks anywhere (.char ')') anywhere := (tracks_one (by decide)).toAnywhere
  exact hblanks.seq (hround.seq tracks_empty)

/-- So is what opens the block. -/
theorem tracks_openerPattern : Tracks anywhere openerPattern anywhere := by
  have hbrace : Tracks anywhere (.char '\x7b') anywhere := (tracks_one (by decide)).toAnywhere
  have hdo : Tracks anywhere (.word "do") anywhere :=
    (tracks_literal (by decide) (by decide)).toAnywhere
  exact hbrace.either (tracks_wordEdge.seq (hdo.seq (tracks_wordEdge.seq tracks_empty)))

/-- The ways to read a name in parentheses are the same in every filling. -/
theorem exists_nameReadings_cursor {s : Spot} (hs : IsOrderly s.whole) :
    ∃ readings : List (Option Text × Spot), (∀ r ∈ readings, ∃ count, r.2 = s.move count) ∧
      ∀ f : Filling, nameReadings (s.cursor f) = readings.map fun r => (r.1, r.2.cursor f) := by
  obtain ⟨leads, hleads, hlead⟩ := tracks_nameLead s hs trivial
  obtain ⟨named, hnamed, hall⟩ := exists_flatMap_map leads
    (fun (first : Spot) f => (namePattern.ends (first.cursor f)).flatMap fun last =>
      (nameTail.ends last).map fun stop => (some ((first.cursor f).upTo last), stop))
    (fun (r : Option Text × Spot) f => (r.1, r.2.cursor f))
    (fun r => ∃ count, r.2 = s.move count) fun first hfirst => by
      obtain ⟨⟨lead, rfl⟩, hoff⟩ := hleads first hfirst
      have horderly : IsOrderly (s.move lead).whole := by rwa [Spot.whole_move]
      obtain ⟨lasts, hlasts, hends⟩ := tracks_namePattern (s.move lead) horderly hoff
      obtain ⟨found, hgood, hfound⟩ := exists_flatMap_map lasts
        (fun (last : Spot) f => (nameTail.ends (last.cursor f)).map fun stop =>
          (some (((s.move lead).cursor f).upTo (last.cursor f)), stop))
        (fun (r : Option Text × Spot) f => (r.1, r.2.cursor f))
        (fun r => ∃ count, r.2 = s.move count) fun last hlast => by
          obtain ⟨⟨length, rfl⟩, -⟩ := hlasts last hlast
          obtain ⟨text, htext⟩ := exists_upTo_cursor horderly hoff (passesOnly_namePattern _ _ (by
            rw [hends .created]
            exact List.mem_map_of_mem hlast))
          obtain ⟨stops, hstops, htail⟩ := tracks_nameTail ((s.move lead).move length)
            (by rwa [Spot.whole_move]) trivial
          refine ⟨stops.map fun stop => (some text, stop), fun r hr => ?_, fun f => ?_⟩
          · obtain ⟨stop, hstop, rfl⟩ := List.mem_map.mp hr
            obtain ⟨⟨tail, rfl⟩, -⟩ := hstops stop hstop
            exact ⟨lead + (length + tail), by rw [Spot.move_move, Spot.move_move]⟩
          · rw [htail f, List.map_map, List.map_map, htext f]
            rfl
      refine ⟨found, hgood, fun f => ?_⟩
      rw [hends f, List.flatMap_map, hfound f]
  refine ⟨named ++ [(none, s)], fun r hr => ?_, fun f => ?_⟩
  · rcases List.mem_append.mp hr with hr | hr
    · exact hnamed r hr
    · obtain rfl := List.mem_singleton.mp hr
      exact ⟨0, rfl⟩
  · rw [nameReadings, hlead f, List.flatMap_map, hall f, List.map_append]
    rfl

/-! ### Heads -/

/-- The head of a block on a template. -/
structure SpotHead where
  keyword : Text
  name : Option Text
  opener : Spot
  body : Spot

/-- The head in a filling. -/
def SpotHead.head (h : SpotHead) (f : Filling) : Head :=
  ⟨h.keyword, h.name, h.opener.cursor f, h.body.cursor f⟩

/-- The parts of a head stand at or behind a spot. -/
def SpotHead.IsBehind (h : SpotHead) (s : Spot) : Prop :=
  (∃ count, h.opener = s.move count) ∧ ∃ count, h.body = s.move count

/-- What is behind a later spot is behind an earlier one. -/
theorem SpotHead.IsBehind.of_move {h : SpotHead} {s : Spot} {count : Nat}
    (hbehind : h.IsBehind (s.move count)) : h.IsBehind s := by
  obtain ⟨⟨opener, hopener⟩, body, hbody⟩ := hbehind
  exact ⟨⟨count + opener, by rw [hopener, Spot.move_move]⟩, count + body,
    by rw [hbody, Spot.move_move]⟩

/-- The opener of a block, behind its keyword and name, is the same in every filling. -/
theorem exists_opening_cursor {s : Spot} (hs : IsOrderly s.whole) (keyword : Text)
    (name : Option Text) : ∃ found : Option SpotHead, (∀ h ∈ found, h.IsBehind s) ∧
      ∀ f : Filling, ((Pattern.blanks.ends (s.cursor f)).findSome? fun opener =>
        (openerPattern.match? opener).map fun body =>
          ((⟨keyword, name, opener, body⟩ : Head), body)) =
        found.map fun h => (h.head f, h.body.cursor f) := by
  obtain ⟨openers, hopeners, hblanks⟩ := (tracks_blanks : Tracks anywhere .blanks _) s hs trivial
  obtain ⟨found, hgood, hfound⟩ := exists_findSome?_map openers
    (fun (opener : Spot) f => (openerPattern.match? (opener.cursor f)).map fun body =>
      ((⟨keyword, name, opener.cursor f, body⟩ : Head), body))
    (fun (h : SpotHead) f => (h.head f, h.body.cursor f)) (fun h => h.IsBehind s)
    fun opener hopener => by
      obtain ⟨⟨gap, rfl⟩, -⟩ := hopeners opener hopener
      obtain ⟨bodies, hbodies, hends⟩ := tracks_openerPattern (s.move gap)
        (by rwa [Spot.whole_move]) trivial
      refine ⟨bodies.head?.map fun body => ⟨keyword, name, s.move gap, body⟩, fun h hh => ?_,
        fun f => ?_⟩
      · obtain ⟨body, hbody, rfl⟩ := Option.map_eq_some_iff.mp hh
        obtain ⟨⟨count, rfl⟩, -⟩ := hbodies body (List.mem_of_head? hbody)
        exact ⟨⟨gap, rfl⟩, gap + count, Spot.move_move s gap count⟩
      · rw [match?, hends f, List.head?_map, Option.map_map, Option.map_map]
        rfl
  refine ⟨found, hgood, fun f => ?_⟩
  rw [hblanks f, List.findSome?_map]
  exact hfound f

/-- What follows the keyword of a block is the same in every filling. -/
theorem exists_named_cursor {s : Spot} (hs : IsOrderly s.whole) (keyword : Text) :
    ∃ found : Option SpotHead, (∀ h ∈ found, h.IsBehind s) ∧
      ∀ f : Filling, ((nameReadings (s.cursor f)).findSome? fun (name, rest) =>
        (Pattern.blanks.ends rest).findSome? fun opener =>
          (openerPattern.match? opener).map fun body =>
            ((⟨keyword, name, opener, body⟩ : Head), body)) =
        found.map fun h => (h.head f, h.body.cursor f) := by
  obtain ⟨readings, hreadings, hreading⟩ := exists_nameReadings_cursor hs
  obtain ⟨found, hgood, hfound⟩ := exists_findSome?_map readings
    (fun (r : Option Text × Spot) f => (Pattern.blanks.ends (r.2.cursor f)).findSome?
      fun opener => (openerPattern.match? opener).map fun body =>
        ((⟨keyword, r.1, opener, body⟩ : Head), body))
    (fun (h : SpotHead) f => (h.head f, h.body.cursor f)) (fun h => h.IsBehind s)
    fun r hr => by
      obtain ⟨count, hcount⟩ := hreadings r hr
      obtain ⟨found, hgood, hfound⟩ := exists_opening_cursor (s := r.2)
        (by rwa [hcount, Spot.whole_move]) keyword r.1
      exact ⟨found, fun h hh => .of_move (hcount ▸ hgood h hh), hfound⟩
  refine ⟨found, hgood, fun f => ?_⟩
  rw [hreading f, List.findSome?_map]
  exact hfound f

/-- Characters before a keyword that make it something else. -/
def spoilsBefore (c : Char) : Bool :=
  CharClass.isWord c || c == '.' || c == ':' || c == '@'

/-- A head begins at the same spots in every filling. -/
theorem exists_headAt?_cursor {s : Spot} (hs : IsOrderly s.whole) :
    ∃ found : Option SpotHead, (∀ h ∈ found, h.IsBehind s) ∧
      ∀ f : Filling, headAt? (s.cursor f) = found.map fun h => (h.head f, h.body.cursor f) := by
  have hspoils : Ignores spoilsBefore true := by decide
  have hfollows (f : Filling) : (s.cursor f).follows
      (fun x => CharClass.isWord x || x == '.' || x == ':' || x == '@') =
        s.before.head?.any (onItem true spoilsBefore) :=
    any_head?_fill hspoils f.isSlotWord_reverse s.before
  by_cases hspoiled : s.before.head?.any (onItem true spoilsBefore) = true
  · refine ⟨none, by simp, fun f => ?_⟩
    rw [headAt?, hfollows f, if_pos hspoiled]
    rfl
  by_cases hslot : s.AtSlot
  · refine ⟨none, by simp, fun f => ?_⟩
    rw [headAt?, hfollows f, if_neg hspoiled, ends_keywordPattern_eq_nil hslot]
    rfl
  obtain ⟨keywords, hkeywords, hkeyword⟩ := tracks_keywordPattern s hs trivial
  obtain ⟨found, hgood, hfound⟩ := exists_findSome?_map keywords
    (fun (named : Spot) f => (nameReadings (named.cursor f)).findSome? fun (name, rest) =>
      (Pattern.blanks.ends rest).findSome? fun opener =>
        (openerPattern.match? opener).map fun body =>
          ((⟨(s.cursor f).upTo (named.cursor f), name, opener, body⟩ : Head), body))
    (fun (h : SpotHead) f => (h.head f, h.body.cursor f)) (fun h => h.IsBehind s)
    fun named hnamed => by
      obtain ⟨⟨length, rfl⟩, -⟩ := hkeywords named hnamed
      obtain ⟨keyword, hupTo⟩ := exists_upTo_cursor hs hslot (passesOnly_keywordPattern _ _ (by
        rw [hkeyword .created]
        exact List.mem_map_of_mem hnamed))
      obtain ⟨found, hgood, hfound⟩ := exists_named_cursor (s := s.move length)
        (by rwa [Spot.whole_move]) keyword
      refine ⟨found, fun h hh => .of_move (hgood h hh), fun f => ?_⟩
      rw [hupTo f]
      exact hfound f
  refine ⟨found, hgood, fun f => ?_⟩
  rw [headAt?, hfollows f, if_neg hspoiled, hkeyword f, List.findSome?_map]
  exact hfound f

/-- No block begins inside a word. -/
theorem skipsWords_headAt? : Cursor.SkipsWords headAt? := fun c hfollows _ => by
  rw [headAt?, if_pos (Cursor.follows_of_imp (fun x hx => by simp [hx]) hfollows)]

/-- Reading a name passes over some text. -/
theorem passes_of_mem_nameReadings {c rest : Cursor} {name : Option Text}
    (h : (name, rest) ∈ nameReadings c) : ∃ stretch, c.Passes stretch rest := by
  rcases List.mem_append.mp h with h | h
  · obtain ⟨first, hfirst, h⟩ := List.mem_flatMap.mp h
    obtain ⟨last, hlast, h⟩ := List.mem_flatMap.mp h
    obtain ⟨stop, hstop, hpair⟩ := List.mem_map.mp h
    obtain ⟨-, rfl⟩ := Prod.mk.inj hpair
    obtain ⟨lead, hlead⟩ := passes_of_mem_ends hfirst
    obtain ⟨text, htext⟩ := passes_of_mem_ends hlast
    obtain ⟨tail, htail⟩ := passes_of_mem_ends hstop
    exact ⟨_, (hlead.trans htext).trans htail⟩
  · obtain ⟨-, rfl⟩ := Prod.mk.inj (List.mem_singleton.mp h)
    exact ⟨[], .refl _⟩

/-- Reading the head of a block gets on. -/
theorem isProgressive_headAt? : Cursor.IsProgressive headAt? := by
  intro c value stop hhead
  unfold headAt? at hhead
  split at hhead
  · cases hhead
  · obtain ⟨named, hnamed, hhead⟩ := List.exists_of_findSome?_eq_some hhead
    obtain ⟨⟨name, rest⟩, hrest, hhead⟩ := List.exists_of_findSome?_eq_some hhead
    obtain ⟨opener, hopener, hhead⟩ := List.exists_of_findSome?_eq_some hhead
    obtain ⟨body, hbody, hpair⟩ := Option.map_eq_some_iff.mp hhead
    obtain ⟨-, rfl⟩ := Prod.mk.inj hpair
    obtain ⟨keyword, hkeyword, hpass⟩ := takesSome_keywordPattern c named hnamed
    obtain ⟨reading, hreading⟩ := passes_of_mem_nameReadings hrest
    obtain ⟨gap, hgap⟩ := passes_of_mem_ends hopener
    obtain ⟨lead, hlead⟩ := passes_of_mem_ends (List.mem_of_head? hbody)
    exact ⟨_, List.append_ne_nil_of_left_ne_nil (List.append_ne_nil_of_left_ne_nil
      (List.append_ne_nil_of_left_ne_nil hkeyword _) _) _,
      ((hpass.trans hreading).trans hgap).trans hlead⟩

/-! ### Blocks -/

/-- A block whose range counts items, with the range it takes in a filled template. -/
def inFilling (b : LazyBinding) (w : Text) (t : Template) : LazyBinding :=
  { b with
    bodyStart := offsetOf w t b.bodyStart
    bodyStop := offsetOf w t b.bodyStop }

/-- The body of a block ends at the same item in every filling. -/
theorem exists_bodyStop_fill (s : Spot) : ∃ stop : Option Nat, ∀ f : Filling,
    (if (s.cursor f).after.head? = some '\x7b' then
      (Bracket.closeDistance BracketRole.ofChar [] (s.cursor f).after).map
        ((s.cursor f).offset + ·)
    else Block.stop? (s.cursor f)) = stop.map (offsetOf f.word s.whole) := by
  by_cases hbrace : s.after.head? = some (some '\x7b')
  · have hplain : ∀ c ∈ letters, BracketRole.ofChar c = .plain := by decide
    obtain ⟨place, -, hplace⟩ := findsPlace_closeDistance hplain [] s.after
    refine ⟨place.map (s.before.length + ·), fun f => ?_⟩
    have hhead : (s.cursor f).after.head? = some '\x7b' :=
      (head?_fill_eq_some_iff (by decide) f.isSlotWord_word _).mpr hbrace
    have hclose : Bracket.closeDistance BracketRole.ofChar [] (s.cursor f).after =
        place.map (offsetOf f.word s.after) := hplace f.word f.isSlotWord_word
    rw [if_pos hhead, hclose, Option.map_map, Option.map_map]
    congr 1
    funext index
    exact s.offset_cursor_add f index
  · obtain ⟨place, hplace⟩ := exists_closingEnd?_fill 0 s.before s.after
    refine ⟨place.map (s.before.length + ·), fun f => ?_⟩
    have hhead : ¬(s.cursor f).after.head? = some '\x7b' := fun hhead =>
      hbrace ((head?_fill_eq_some_iff (by decide) f.isSlotWord_word _).mp hhead)
    have hend : Block.closingEnd? 0 (s.cursor f).before (s.cursor f).after =
        place.map fun index => (s.move index).cursor f := hplace f
    rw [if_neg hhead, Block.stop?, hend, Option.map_map, Option.map_map]
    congr 1
    funext index
    exact (s.passes_move f index).offset.trans (s.offset_cursor_add f index)

/-- A head opens a block if it has a name and the end of its body is found. -/
theorem ofHead?_eq (h : Head) : ofHead? h = h.boundName.bind fun name =>
    (if h.opener.after.head? = some '\x7b' then
      (Bracket.closeDistance BracketRole.ofChar [] h.opener.after).map (h.opener.offset + ·)
    else Block.stop? h.opener).map fun stop => ⟨name, h.keyword, h.body.offset, stop⟩ := by
  unfold ofHead?
  cases h.boundName with
  | none => rfl
  | some name =>
    dsimp only [Option.bind_some, bind, Option.bind]
    split
    · cases Bracket.closeDistance BracketRole.ofChar [] h.opener.after <;> rfl
    · cases Block.stop? h.opener <;> rfl

/-- The block that a head opens holds the same items in every filling. -/
theorem exists_ofHead?_fill {s : Spot} {h : SpotHead} (hh : h.IsBehind s) :
    ∃ found : Option LazyBinding, (∀ b ∈ found, b.bodyStart ≤ s.whole.length) ∧
      ∀ f : Filling, ofHead? (h.head f) = found.map (·.inFilling f.word s.whole) := by
  obtain ⟨⟨opener, hopener⟩, body, hbody⟩ := hh
  have hwhole : h.opener.whole = s.whole := by rw [hopener, Spot.whole_move]
  have hbodyWhole : h.body.whole = s.whole := by rw [hbody, Spot.whole_move]
  obtain ⟨stop, hstop⟩ := exists_bodyStop_fill h.opener
  rw [hwhole] at hstop
  refine ⟨(h.head .created).boundName.bind fun name => stop.map fun stop =>
    ⟨name, h.keyword, h.body.before.length, stop⟩, fun b hb => ?_, fun f => ?_⟩
  · obtain ⟨name, -, hb⟩ := Option.bind_eq_some_iff.mp hb
    obtain ⟨stop, -, rfl⟩ := Option.map_eq_some_iff.mp hb
    rw [← hbodyWhole]
    simp [Spot.whole]
  · have hname : (h.head f).boundName = (h.head .created).boundName := rfl
    have hstart : (h.head f).body.offset = offsetOf f.word s.whole h.body.before.length := by
      rw [← hbodyWhole]
      exact Spot.offset_cursor h.body f
    have hopen : (h.head f).opener = h.opener.cursor f := rfl
    rw [ofHead?_eq, hname, hstart, hopen, hstop f]
    cases (h.head .created).boundName with
    | none => rfl
    | some name => cases stop <;> rfl

/-- The blocks of an orderly template are the same in every filling. -/
theorem exists_all_fill {t : Template} (ht : IsOrderly t) :
    ∃ blocks : List LazyBinding, (∀ b ∈ blocks, b.bodyStart ≤ t.length) ∧
      ∀ f : Filling, all (fill f.word t) = blocks.map (·.inFilling f.word t) := by
  obtain ⟨heads, hheads, hread⟩ := exists_readAll_cursor headAt? isProgressive_headAt?
    (skipsSlots_of_skipsWords skipsWords_headAt? t) (fun (h : SpotHead) f => h.head f)
    (fun h => ∃ s : Spot, s.whole = t ∧ h.IsBehind s) (fun s hs => by
      obtain ⟨found, hgood, hfound⟩ := exists_headAt?_cursor (s := s) (hs ▸ ht)
      cases found with
      | none => exact ⟨none, by simp, hfound⟩
      | some h =>
        have hbehind := hgood h rfl
        obtain ⟨count, hbody⟩ := hbehind.2
        refine ⟨some (h, count), fun v hv => ?_, fun f => ?_⟩
        · obtain rfl := Option.mem_some_iff.mp hv
          exact ⟨s, hs, hbehind⟩
        · rw [hfound f, Option.map_some, Option.map_some, ← hbody]) (Spot.start t) rfl
  obtain ⟨blocks, hblocks, hall⟩ := exists_filterMap_map heads
    (fun (h : SpotHead) f => ofHead? (h.head f)) (fun b f => inFilling b f.word t)
    (fun b => b.bodyStart ≤ t.length) fun h hh => by
      obtain ⟨s, rfl, hbehind⟩ := hheads h hh
      exact exists_ofHead?_fill hbehind
  refine ⟨blocks, hblocks, fun f => ?_⟩
  rw [← hall f, all, ← Spot.cursor_start, hread f, List.filterMap_map]
  rfl

/-- Of two blocks around a range the one that begins later, or the second. -/
def later (best : Option LazyBinding) (b : LazyBinding) : Option LazyBinding :=
  match best with
  | none => some b
  | some last => if last.bodyStart ≤ b.bodyStart then some b else some last

/-- The innermost block is the one that begins last of those that hold the range. -/
theorem innermost?_eq_foldl (blocks : List LazyBinding) (start stop : Nat) :
    innermost? blocks start stop = (blocks.filter (·.holds start stop)).foldl later none := rfl

section Innermost

variable {w : Text} {t : Template}

/-- Blocks begin in the same order in a filling. -/
theorem later_inFilling (hw : IsSlotWord w) {best : Option LazyBinding} {b : LazyBinding}
    (hbest : ∀ last ∈ best, last.bodyStart ≤ t.length) :
    later (best.map (·.inFilling w t)) (b.inFilling w t) =
      (later best b).map (·.inFilling w t) := by
  cases best with
  | none => rfl
  | some last =>
    have hle := offsetOf_le_offsetOf_iff hw t (j := b.bodyStart) (hbest last rfl)
    by_cases hlater : last.bodyStart ≤ b.bodyStart
    · have hfilled : (last.inFilling w t).bodyStart ≤ (b.inFilling w t).bodyStart := hle.mpr hlater
      rw [Option.map_some, later, later, if_pos hlater, if_pos hfilled, Option.map_some]
    · have hfilled : ¬(last.inFilling w t).bodyStart ≤ (b.inFilling w t).bodyStart := fun h =>
        hlater (hle.mp h)
      rw [Option.map_some, later, later, if_neg hlater, if_neg hfilled, Option.map_some]

/-- The block that begins last is the same in every filling. -/
theorem foldl_later_inFilling (hw : IsSlotWord w) {blocks : List LazyBinding}
    (hblocks : ∀ b ∈ blocks, b.bodyStart ≤ t.length) {best : Option LazyBinding}
    (hbest : ∀ last ∈ best, last.bodyStart ≤ t.length) :
    (blocks.map (·.inFilling w t)).foldl later (best.map (·.inFilling w t)) =
      (blocks.foldl later best).map (·.inFilling w t) := by
  induction blocks generalizing best with
  | nil => rfl
  | cons b blocks ih =>
    rw [List.map_cons, List.foldl_cons, later_inFilling hw hbest]
    refine ih (fun d hd => hblocks d (List.mem_cons_of_mem _ hd)) fun last hlast => ?_
    cases best with
    | none => exact Option.mem_some_iff.mp hlast ▸ hblocks b List.mem_cons_self
    | some first =>
      rw [later] at hlast
      split at hlast
      · exact Option.mem_some_iff.mp hlast ▸ hblocks b List.mem_cons_self
      · exact Option.mem_some_iff.mp hlast ▸ hbest first rfl

/-- The innermost block around some items is the same in every filling. -/
theorem innermost?_inFilling (hw : IsSlotWord w) {blocks : List LazyBinding}
    (hblocks : ∀ b ∈ blocks, b.bodyStart ≤ t.length) (start : Nat) {stop : Nat}
    (hstop : stop ≤ t.length) :
    innermost? (blocks.map (·.inFilling w t)) (offsetOf w t start) (offsetOf w t stop) =
      (innermost? blocks start stop).map (·.inFilling w t) := by
  have hfilter : (blocks.map (·.inFilling w t)).filter
      (·.holds (offsetOf w t start) (offsetOf w t stop)) =
        (blocks.filter (·.holds start stop)).map (·.inFilling w t) := by
    rw [List.filter_map]
    congr 1
    refine List.filter_congr fun b hb => ?_
    have hstart := offsetOf_le_offsetOf_iff hw t (j := start) (hblocks b hb)
    have hend := offsetOf_le_offsetOf_iff hw t (j := b.bodyStop) hstop
    simp only [Function.comp_apply, holds, inFilling, hstart, hend]
  rw [innermost?_eq_foldl, hfilter, innermost?_eq_foldl]
  have hnone : ∀ last ∈ (none : Option LazyBinding), last.bodyStart ≤ t.length := by simp
  exact foldl_later_inFilling hw (fun b hb => hblocks b (List.mem_filter.mp hb).1) hnone

end Innermost

end LazyBinding

/-- The name bound to the call between two items is the same in every filling. -/
theorem exists_boundName?_fill {t : Template} (ht : IsOrderly t) (start : Nat) {stop : Nat}
    (hstop : stop ≤ t.length) : ∃ bound : Option Text, ∀ f : Filling,
      boundName? (LazyBinding.all (fill f.word t))
        (Cursor.place (fill f.word t) (offsetOf f.word t start)) (offsetOf f.word t stop) =
          bound := by
  obtain ⟨blocks, hblocks, hall⟩ := LazyBinding.exists_all_fill ht
  obtain ⟨assigned, hassigned⟩ := Assignment.exists_target?_cursor (s := (Spot.start t).move start)
    (by rwa [Spot.whole_move])
  refine ⟨assigned.or ((LazyBinding.innermost? blocks start stop).map (·.name)), fun f => ?_⟩
  have hplace : Cursor.place (fill f.word t) (offsetOf f.word t start) =
      ((Spot.start t).move start).cursor f := by
    rw [Cursor.place, take_offsetOf, drop_offsetOf, fill_reverse, Spot.cursor, Spot.move,
      Spot.start, List.append_nil]
  have hoffset : (Cursor.place (fill f.word t) (offsetOf f.word t start)).offset =
      offsetOf f.word t start := by
    rw [Cursor.offset, Cursor.place, List.length_reverse, List.length_take]
    exact Nat.min_eq_left (offsetOf_le_length f.word t start)
  rw [boundName?, hoffset, hplace, hassigned f, hall f,
    LazyBinding.innermost?_inFilling f.isSlotWord_word hblocks start hstop, Option.map_map]
  rfl

end FactoryDowngrade
