import FactoryDowngrade.CallSite
import FactoryDowngrade.Proofs.CallSiteSpans
import FactoryDowngrade.Proofs.Template.Searches

/-!
# Heads of calls on templates

The heads of the calls of an orderly template stand at the same spots in every filling. A head at a
slot names the strategy that fills the slot; every other head names the same strategy in all
fillings.
-/

namespace FactoryDowngrade

open Template

namespace Pattern

/-- A fixed word has one end at most. -/
theorem ends_literal_append (before chars after : Text) :
    (literal chars).ends ⟨before, chars ++ after⟩ = [⟨chars.reverse ++ before, after⟩] := by
  induction chars generalizing before with
  | nil => rfl
  | cons c chars ih =>
    change (seq (char c) (literal chars)).ends ⟨before, c :: (chars ++ after)⟩ = _
    have hone : (char c).ends ⟨before, c :: (chars ++ after)⟩ =
        [⟨c :: before, chars ++ after⟩] := by simp [char, ends_one]
    rw [ends_seq, hone, List.flatMap_singleton, ih, List.reverse_cons, List.append_assoc]
    rfl

end Pattern

namespace CallSite

open Pattern

/-- A head on a template: its parts are spots, and a head at a slot takes its strategy from it. -/
structure SpotHead where
  first : Spot
  callee : Spot
  last : Spot
  fixed : Option Variant

namespace SpotHead

/-- The strategy of the head in a filling. -/
def variant (h : SpotHead) (f : Filling) : Variant :=
  h.fixed.getD f.variant

/-- The head in a filling. -/
def head (h : SpotHead) (f : Filling) : Head :=
  ⟨h.first.cursor f, h.callee.cursor f, h.last.cursor f, h.variant f⟩

/-- What is known of the parts of a head in a template. -/
structure IsIn (h : SpotHead) (t : Template) : Prop where
  whole : h.first.whole = t
  callee : ∃ count, h.callee = h.first.move count
  last : ∃ count, h.last = h.callee.move count
  slot : h.fixed = none ↔ h.callee.AtSlot
  behind : offSlot h.last

end SpotHead

/-- Neither a longer name nor a colon comes next, in every filling alike. -/
theorem tracks_notKey : Tracks offSlot Reference.notKey offSlot := by
  have hlonger : Tracks offSlot (.one Reference.extendsName) anywhere :=
    tracks_one_offSlot.toAnywhere
  have hcolon : Tracks offSlot (.seq (.char ':') (.notBefore (· == ':'))) anywhere :=
    (tracks_one (by decide)).seq (Tracks.notAhead (tracks_one (by decide))).toAnywhere
  exact (hlonger.either hcolon).notAhead

/-- A name that is no key does not end inside a word. -/
theorem skipsWords_notKey : SkipsWords Reference.notKey := by
  rintro ⟨before, after⟩ - hprecedes
  cases after with
  | nil => cases hprecedes
  | cons c after =>
    have hc : CharClass.isWord c = true := hprecedes
    simp [Reference.notKey, ends_notAhead, ends_either, ends_one, Reference.extendsName, hc]

/-- A receiver ends at the same spots in every filling, if there is one. -/
theorem tracks_receiver : Tracks anywhere (.maybe receiver) anywhere := by
  have hname : Tracks anywhere (.wordOf "FactoryBot" ["FactoryGirl"]) anywhere := by
    refine tracks_choice fun p hp => ?_
    have hmem : p = .word "FactoryBot" ∨ p = .word "FactoryGirl" := by simpa using hp
    rcases hmem with rfl | rfl
    · exact (tracks_literal (by decide) (by decide)).toAnywhere
    · exact (tracks_literal (by decide) (by decide)).toAnywhere
  have hblanks : Tracks anywhere .blanks anywhere := tracks_blanks.toAnywhere
  have hdot : Tracks anywhere (.char '.') anywhere := (tracks_one (by decide)).toAnywhere
  exact (hname.seq (hblanks.seq (hdot.seq (hblanks.seq tracks_empty)))).maybe fun _ _ h => h

/-- A method name that stands where no slot does. -/
theorem tracks_method (v : Variant) :
    Tracks offSlot (.seq (.word v.method) Reference.notKey) offSlot := by
  have hstains : ∀ c ∈ v.method.toList, stains c = true := by cases v <;> decide
  exact (tracks_literal_offSlot hstains).seq tracks_notKey

/-- At a slot the method name of another strategy does not fit. -/
theorem ends_method_eq_nil {s : Spot} {t : Template} (hafter : s.after = none :: t) {f : Filling}
    {v : Variant} (hv : v ≠ f.variant) :
    (Pattern.seq (.word v.method) Reference.notKey).ends (s.cursor f) = [] := by
  have hshorter : ¬f.word <+: v.method.toList := by
    cases f <;> cases v <;> first | exact absurd rfl hv | decide
  rw [ends_seq, List.flatMap_eq_nil_iff]
  intro d hd
  have hpass := mem_ends_literal.mp hd
  have hsplit := hpass.after
  rw [Spot.cursor, hafter, fill_none] at hsplit
  rcases List.append_eq_append_iff.mp hsplit with ⟨more, hmore, -⟩ | ⟨more, hmore, hrest⟩
  · exact absurd ⟨more, hmore.symm⟩ hshorter
  · cases more with
    | nil => exact absurd ⟨[], by simpa using hmore⟩ hshorter
    | cons c more =>
      have hmethod := f.isWord_of_mem_word
      rw [hmore] at hmethod
      refine skipsWords_notKey d ?_ ?_
      · obtain ⟨last, front, hlast⟩ := List.exists_cons_of_ne_nil
          (List.reverse_ne_nil_iff.mpr (method_ne_nil v))
        rw [Cursor.follows, hpass.before, hlast]
        exact hmethod last (List.mem_append_left _
          (List.mem_reverse.mp (hlast ▸ List.mem_cons_self)))
      · rw [Cursor.precedes, hrest]
        exact hmethod c (List.mem_append_right _ List.mem_cons_self)

/-- At a slot the method name of its own strategy takes the slot. -/
theorem ends_method_slot {s : Spot} {t : Template} (hafter : s.after = none :: t) (f : Filling) :
    (Pattern.seq (.word f.variant.method) Reference.notKey).ends (s.cursor f) =
      Reference.notKey.ends ((s.move 1).cursor f) := by
  have hword : (Pattern.word f.variant.method).ends (s.cursor f) = [(s.move 1).cursor f] := by
    have hmove : s.move 1 = ⟨none :: s.before, t⟩ := by simp [Spot.move, hafter]
    rw [Spot.cursor, hafter, fill_none, hmove]
    exact ends_literal_append _ _ _
  rw [ends_seq, hword, List.flatMap_singleton]

/-- When no other strategy answers, the answer of the one counts. -/
theorem findSome?_variant {α : Type} {answer : Variant → Option α} {v : Variant}
    (h : ∀ other, other ≠ v → answer other = none) : Variant.all.findSome? answer = answer v := by
  cases v with
  | buildStubbed =>
    rw [Variant.all, List.findSome?_cons, List.findSome?_cons, List.findSome?_cons,
      h .build (by decide), h .create (by decide)]
    cases answer .buildStubbed <;> rfl
  | build =>
    rw [Variant.all, List.findSome?_cons, List.findSome?_cons, List.findSome?_cons,
      h .buildStubbed (by decide), h .create (by decide)]
    cases answer .build <;> rfl
  | create =>
    rw [Variant.all, List.findSome?_cons, List.findSome?_cons, List.findSome?_cons,
      h .buildStubbed (by decide), h .build (by decide)]
    cases answer .create <;> rfl

/-- The strategy that is named at a spot, and the spot behind it. -/
theorem exists_variant_cursor {t : Template} (ht : IsOrderly t) (first callee : Spot)
    (hwhole : callee.whole = t) (hfirst : first.whole = t)
    (hcallee : ∃ count, callee = first.move count) :
    ∃ found : Option SpotHead, (∀ h ∈ found, h.IsIn t ∧ h.first = first) ∧ ∀ f : Filling,
      (Variant.all.findSome? fun variant =>
        ((Pattern.seq (.word variant.method) Reference.notKey).match? (callee.cursor f)).map
          fun last => ((⟨first.cursor f, callee.cursor f, last, variant⟩ : Head), last)) =
      found.map fun h => (h.head f, h.last.cursor f) := by
  have horderly : IsOrderly callee.whole := hwhole ▸ ht
  by_cases hslot : callee.AtSlot
  · obtain ⟨after, hafter⟩ := exists_after_of_atSlot hslot
    have hbehind : offSlot (callee.move 1) := by
      have hbefore : (callee.move 1).before = none :: callee.before := by
        simp [Spot.move, hafter]
      exact Spot.not_atSlot_of_before (by rwa [Spot.whole_move]) hbefore
    obtain ⟨stops, hstops, hends⟩ := tracks_notKey (callee.move 1) (by rwa [Spot.whole_move])
      hbehind
    refine ⟨stops.head?.map fun last => ⟨first, callee, last, none⟩, fun h hh => ?_, fun f => ?_⟩
    · obtain ⟨last, hlast, rfl⟩ := Option.map_eq_some_iff.mp hh
      obtain ⟨⟨count, rfl⟩, hoff⟩ := hstops last (List.mem_of_head? hlast)
      exact ⟨⟨hfirst, hcallee, ⟨1 + count, Spot.move_move callee 1 count⟩, by simpa using hslot,
        hoff⟩, rfl⟩
    · have hown := ends_method_slot hafter f
      have hother (v : Variant) (hv : v ≠ f.variant) : ((Pattern.seq (.word v.method)
          Reference.notKey).match? (callee.cursor f)).map (fun last =>
            ((⟨first.cursor f, callee.cursor f, last, v⟩ : Head), last)) = none := by
        rw [match?, ends_method_eq_nil hafter hv]
        rfl
      have hmatch : (Pattern.seq (.word f.variant.method) Reference.notKey).match?
          (callee.cursor f) = (stops.map (·.cursor f)).head? := by
        rw [match?, hown, hends f]
      rw [findSome?_variant hother, hmatch, List.head?_map, Option.map_map, Option.map_map]
      rfl
  · obtain ⟨found, hgood, hfound⟩ := exists_findSome?_map Variant.all
      (fun variant f => ((Pattern.seq (.word variant.method) Reference.notKey).match?
        (callee.cursor f)).map fun last =>
          ((⟨first.cursor f, callee.cursor f, last, variant⟩ : Head), last))
      (fun (h : SpotHead) f => (h.head f, h.last.cursor f))
      (fun h => h.IsIn t ∧ h.first = first) fun variant _ => by
        obtain ⟨stops, hstops, hends⟩ := tracks_method variant callee horderly hslot
        refine ⟨stops.head?.map fun last => ⟨first, callee, last, some variant⟩, fun h hh => ?_,
          fun f => ?_⟩
        · obtain ⟨last, hlast, rfl⟩ := Option.map_eq_some_iff.mp hh
          obtain ⟨hmove, hoff⟩ := hstops last (List.mem_of_head? hlast)
          exact ⟨⟨hfirst, hcallee, hmove, by simpa using hslot, hoff⟩, rfl⟩
        · rw [match?, hends f, List.head?_map, Option.map_map, Option.map_map]
          rfl
    exact ⟨found, hgood, hfound⟩

/-- A head begins at the same spots in every filling. -/
theorem exists_headAt?_cursor {t : Template} (ht : IsOrderly t) (s : Spot) (hs : s.whole = t) :
    ∃ found : Option SpotHead, (∀ h ∈ found, h.IsIn t ∧ h.first = s) ∧ ∀ f : Filling,
      headAt? (s.cursor f) = found.map fun h => (h.head f, h.last.cursor f) := by
  have hspoils : Ignores spoilsBefore true := by decide
  have hfollows (f : Filling) : (s.cursor f).follows spoilsBefore =
      s.before.head?.any (onItem true spoilsBefore) :=
    any_head?_fill hspoils f.isSlotWord_reverse s.before
  by_cases hspoiled : s.before.head?.any (onItem true spoilsBefore) = true
  · refine ⟨none, by simp, fun f => ?_⟩
    rw [headAt?, hfollows f, if_pos hspoiled]
    rfl
  · obtain ⟨callees, hcallees, hends⟩ := tracks_receiver s (hs ▸ ht) trivial
    obtain ⟨found, hgood, hfound⟩ := exists_findSome?_map callees
      (fun callee f => Variant.all.findSome? fun variant =>
        ((Pattern.seq (.word variant.method) Reference.notKey).match? (callee.cursor f)).map
          fun last => ((⟨s.cursor f, callee.cursor f, last, variant⟩ : Head), last))
      (fun (h : SpotHead) f => (h.head f, h.last.cursor f)) (fun h => h.IsIn t ∧ h.first = s)
      fun callee hcallee => by
        obtain ⟨⟨count, rfl⟩, -⟩ := hcallees callee hcallee
        exact exists_variant_cursor ht s _ (by rwa [Spot.whole_move]) hs ⟨count, rfl⟩
    refine ⟨found, hgood, fun f => ?_⟩
    rw [headAt?, hfollows f, if_neg hspoiled, hends f, List.findSome?_map]
    exact hfound f

/-- No head begins inside a word. -/
theorem skipsWords_headAt? : Cursor.SkipsWords headAt? := fun c hfollows _ => by
  rw [headAt?, if_pos (Cursor.follows_of_imp (fun x hx => by simp [spoilsBefore, hx]) hfollows)]

/-- The heads of an orderly template are the same in every filling. -/
theorem exists_heads_fill {t : Template} (ht : IsOrderly t) :
    ∃ found : List SpotHead, (∀ h ∈ found, h.IsIn t) ∧
      ∀ f : Filling, heads (fill f.word t) = found.map (·.head f) := by
  refine exists_readAll_cursor headAt? isProgressive_headAt?
    (skipsSlots_of_skipsWords skipsWords_headAt? t) (fun (h : SpotHead) f => h.head f)
    (fun h => h.IsIn t) (fun s hs => ?_) (Spot.start t) rfl
  obtain ⟨found, hgood, hfound⟩ := exists_headAt?_cursor ht s hs
  cases found with
  | none => exact ⟨none, by simp, hfound⟩
  | some h =>
    obtain ⟨hin, rfl⟩ := hgood h rfl
    obtain ⟨lead, hcallee⟩ := hin.callee
    obtain ⟨name, hlast⟩ := hin.last
    have hstop : h.last = h.first.move (lead + name) := by
      rw [hlast, hcallee, Spot.move_move]
    refine ⟨some (h, lead + name), fun v hv => ?_, fun f => ?_⟩
    · obtain rfl := Option.mem_some_iff.mp hv
      exact hin
    · rw [hfound f, Option.map_some, Option.map_some, ← hstop]

end CallSite

end FactoryDowngrade
