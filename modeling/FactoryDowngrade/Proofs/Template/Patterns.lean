import FactoryDowngrade.Proofs.Template.Spot
import FactoryDowngrade.Proofs.Text.PatternEnds

/-!
# Patterns on templates

A pattern tracks a template when it ends at the same spots in every filling. Patterns that reject
the first letter of both words do, and so do patterns that begin where no slot stands and pass
only characters behind which none can stand. A name may also begin at a slot, and then ends inside
it or behind it; there nothing of what is asked behind a name can follow.
-/

namespace FactoryDowngrade

open Template

namespace Template

variable {X V Y : Type}

/-- All answers to a list of questions are the same in every filling if those to each one are. -/
theorem exists_flatMap_map (xs : List X) (ask : X → Filling → List Y) (render : V → Filling → Y)
    (good : V → Prop) (h : ∀ x ∈ xs, ∃ found : List V, (∀ v ∈ found, good v) ∧
      ∀ f : Filling, ask x f = found.map (render · f)) :
    ∃ all : List V, (∀ v ∈ all, good v) ∧
      ∀ f : Filling, xs.flatMap (ask · f) = all.map (render · f) := by
  induction xs with
  | nil => exact ⟨[], by simp, fun f => rfl⟩
  | cons x xs ih =>
    obtain ⟨first, hfirst, hask⟩ := h x List.mem_cons_self
    obtain ⟨all, hall, hrest⟩ := ih fun y hy => h y (List.mem_cons_of_mem _ hy)
    refine ⟨first ++ all, fun v hv => ?_, fun f => ?_⟩
    · exact (List.mem_append.mp hv).elim (hfirst v) (hall v)
    · rw [List.flatMap_cons, hask f, hrest f, List.map_append]

/-- The first answer from a list of questions is the same in every filling if every answer is. -/
theorem exists_findSome?_map (xs : List X) (ask : X → Filling → Option Y)
    (render : V → Filling → Y) (good : V → Prop)
    (h : ∀ x ∈ xs, ∃ found : Option V, (∀ v ∈ found, good v) ∧
      ∀ f : Filling, ask x f = found.map (render · f)) :
    ∃ found : Option V, (∀ v ∈ found, good v) ∧
      ∀ f : Filling, xs.findSome? (ask · f) = found.map (render · f) := by
  induction xs with
  | nil => exact ⟨none, by simp, fun f => rfl⟩
  | cons x xs ih =>
    obtain ⟨found, hgood, hfound⟩ := h x List.mem_cons_self
    cases found with
    | some v =>
      refine ⟨some v, hgood, fun f => ?_⟩
      rw [List.findSome?_cons, hfound f]
      rfl
    | none =>
      obtain ⟨rest, hrestGood, hrest⟩ := ih fun y hy => h y (List.mem_cons_of_mem _ hy)
      refine ⟨rest, hrestGood, fun f => ?_⟩
      rw [List.findSome?_cons, hfound f]
      exact hrest f

/-- The answers that there are to a list of questions are the same in every filling. -/
theorem exists_filterMap_map (xs : List X) (ask : X → Filling → Option Y)
    (render : V → Filling → Y) (good : V → Prop)
    (h : ∀ x ∈ xs, ∃ found : Option V, (∀ v ∈ found, good v) ∧
      ∀ f : Filling, ask x f = found.map (render · f)) :
    ∃ all : List V, (∀ v ∈ all, good v) ∧
      ∀ f : Filling, xs.filterMap (ask · f) = all.map (render · f) := by
  obtain ⟨all, hall, hfound⟩ := exists_flatMap_map xs (fun x f => (ask x f).toList) render good
    fun x hx => by
      obtain ⟨found, hgood, hask⟩ := h x hx
      refine ⟨found.toList, fun v hv => hgood v (Option.mem_toList.mp hv), fun f => ?_⟩
      rw [hask f]
      cases found <;> rfl
  refine ⟨all, hall, fun f => ?_⟩
  rw [List.filterMap_eq_flatMap_toList, hfound f]

end Template

namespace Pattern

/-- The pattern ends at the same spots in every filling, wherever it begins. What holds of the
place where it begins, and of those where it ends, is given with it. -/
def Tracks (pre : Spot → Prop) (p : Pattern) (post : Spot → Prop) : Prop :=
  ∀ s : Spot, IsOrderly s.whole → pre s →
    ∃ stops : List Spot, (∀ e ∈ stops, (∃ count, e = s.move count) ∧ post e) ∧
      ∀ f : Filling, p.ends (s.cursor f) = stops.map (·.cursor f)

/-- No condition on a spot. -/
def anywhere (_ : Spot) : Prop :=
  True

/-- No slot comes next. -/
def offSlot (s : Spot) : Prop :=
  ¬s.AtSlot

/-- An accepted character stands just before. -/
def behind (accepts : Char → Bool) (s : Spot) : Prop :=
  ∃ c before, s.before = some c :: before ∧ accepts c = true

variable {pre mid post : Spot → Prop} {p q : Pattern} {accepts : Char → Bool} {chars : Text}

/-- A pattern with the same ends. -/
theorem Tracks.of_ends (h : Tracks pre q post) (hends : ∀ c, p.ends c = q.ends c) :
    Tracks pre p post := by
  intro s hs hpre
  obtain ⟨stops, hstops, hq⟩ := h s hs hpre
  exact ⟨stops, hstops, fun f => (hends _).trans (hq f)⟩

/-- The condition before may be stronger and the one behind weaker. -/
theorem Tracks.mono {pre' post' : Spot → Prop} (h : Tracks pre p post)
    (hpre : ∀ s, IsOrderly s.whole → pre' s → pre s)
    (hpost : ∀ s, IsOrderly s.whole → post s → post' s) : Tracks pre' p post' := by
  intro s hs hbegin
  obtain ⟨stops, hstops, hends⟩ := h s hs (hpre s hs hbegin)
  refine ⟨stops, fun e he => ?_, hends⟩
  obtain ⟨⟨count, rfl⟩, hpost'⟩ := hstops e he
  exact ⟨⟨count, rfl⟩, hpost _ (by rwa [Spot.whole_move]) hpost'⟩

/-- What holds behind may be read off the text with the one word. -/
theorem Tracks.of_reached {post' : Spot → Prop} (h : Tracks pre p post)
    (hpost : ∀ s e : Spot, pre s → e.whole = s.whole →
      e.cursor .created ∈ p.ends (s.cursor .created) → post' e) : Tracks pre p post' := by
  intro s hs hpre
  obtain ⟨stops, hstops, hends⟩ := h s hs hpre
  refine ⟨stops, fun e he => ?_, hends⟩
  obtain ⟨⟨count, rfl⟩, -⟩ := hstops e he
  refine ⟨⟨count, rfl⟩, hpost s _ hpre (s.whole_move count) ?_⟩
  rw [hends]
  exact List.mem_map_of_mem he

/-- What holds behind may be forgotten. -/
theorem Tracks.toAnywhere (h : Tracks pre p post) : Tracks pre p anywhere :=
  h.mono (fun _ _ hpre => hpre) fun _ _ _ => trivial

/-- Behind a character that stains there is no slot. -/
theorem offSlot_of_behind (haccepts : ∀ c, accepts c = true → stains c = true) (s : Spot)
    (hs : IsOrderly s.whole) (h : behind accepts s) : offSlot s := by
  obtain ⟨c, before, hbefore, hc⟩ := h
  exact Spot.not_atSlot_of_stains hs hbefore (haccepts c hc)

/-! ### Conditions -/

/-- A pattern that stays where it is, in every filling or in none. -/
theorem tracks_of_stays (h : ∀ s : Spot, IsOrderly s.whole → pre s →
    ∃ b : Bool, ∀ f : Filling, p.ends (s.cursor f) = if b then [s.cursor f] else []) :
    Tracks pre p pre := by
  intro s hs hpre
  obtain ⟨b, hb⟩ := h s hs hpre
  cases b with
  | true => exact ⟨[s], by simpa using ⟨⟨0, rfl⟩, hpre⟩, hb⟩
  | false => exact ⟨[], by simp, hb⟩

/-- Taking nothing ends where it begins, in every filling. -/
theorem tracks_empty : Tracks pre empty pre :=
  tracks_of_stays fun _ _ _ => ⟨true, fun _ => rfl⟩

/-- What stands before is refused alike if all letters of the words are answered alike. -/
theorem tracks_notAfter {refused : Char → Bool} {answer : Bool} (h : Ignores refused answer) :
    Tracks pre (notAfter refused) pre := by
  refine tracks_of_stays fun s _ _ => ⟨!s.before.head?.any (onItem answer refused), fun f => ?_⟩
  have hfollows : (s.cursor f).follows refused = s.before.head?.any (onItem answer refused) :=
    any_head?_fill h f.isSlotWord_reverse s.before
  rw [ends_notAfter, hfollows]
  cases s.before.head?.any (onItem answer refused) <;> rfl

/-- The edge of a word is seen alike. -/
theorem tracks_wordEdge : Tracks pre wordEdge pre := by
  have hword : Ignores CharClass.isWord true := by decide
  refine tracks_of_stays fun s _ _ => ⟨s.before.head?.any (onItem true CharClass.isWord) !=
    s.after.head?.any (onItem true CharClass.isWord), fun f => ?_⟩
  have hfollows : (s.cursor f).follows CharClass.isWord =
      s.before.head?.any (onItem true CharClass.isWord) :=
    any_head?_fill hword f.isSlotWord_reverse s.before
  have hprecedes : (s.cursor f).precedes CharClass.isWord =
      s.after.head?.any (onItem true CharClass.isWord) :=
    any_head?_fill hword f.isSlotWord_word s.after
  rw [ends_wordEdge, hfollows, hprecedes]

/-- So is the end of the text. -/
theorem tracks_textEnd : Tracks pre textEnd pre := by
  refine tracks_of_stays fun s _ _ => ⟨s.after.isEmpty, fun f => ?_⟩
  have hempty : (s.cursor f).after.isEmpty = s.after.isEmpty := isEmpty_fill f.isSlotWord_word _
  rw [ends_textEnd, hempty]

/-- Whether a pattern fits is the same in every filling. -/
theorem Tracks.exists_isEmpty (h : Tracks pre p post) {s : Spot} (hs : IsOrderly s.whole)
    (hpre : pre s) : ∃ b, ∀ f : Filling, (p.ends (s.cursor f)).isEmpty = b := by
  obtain ⟨stops, -, hends⟩ := h s hs hpre
  exact ⟨stops.isEmpty, fun f => by rw [hends f, List.isEmpty_map]⟩

/-- Looking ahead for what is seen alike is seen alike. -/
theorem Tracks.ahead (h : Tracks pre p post) : Tracks pre (ahead p) pre := by
  refine tracks_of_stays fun s hs hpre => ?_
  obtain ⟨b, hb⟩ := h.exists_isEmpty hs hpre
  exact ⟨!b, fun f => by rw [ends_ahead, hb f]; cases b <;> rfl⟩

/-- So is looking ahead for what must not be there. -/
theorem Tracks.notAhead (h : Tracks pre p post) : Tracks pre (notAhead p) pre := by
  refine tracks_of_stays fun s hs hpre => ?_
  obtain ⟨b, hb⟩ := h.exists_isEmpty hs hpre
  exact ⟨b, fun f => by rw [ends_notAhead, hb f]⟩

/-! ### Compositions -/

/-- So are two patterns one after the other. -/
theorem Tracks.seq (hp : Tracks pre p mid) (hq : Tracks mid q post) :
    Tracks pre (seq p q) post := by
  intro s hs hpre
  obtain ⟨stops, hstops, hends⟩ := hp s hs hpre
  obtain ⟨all, hall, hmore⟩ := exists_flatMap_map stops (fun e f => q.ends (e.cursor f))
    (fun (e : Spot) f => e.cursor f) (fun e => (∃ count, e = s.move count) ∧ post e)
    fun e he => by
      obtain ⟨⟨count, rfl⟩, hmid⟩ := hstops e he
      obtain ⟨first, hfirst, hq⟩ := hq (s.move count) (by rwa [Spot.whole_move]) hmid
      refine ⟨first, fun d hd => ?_, hq⟩
      obtain ⟨⟨more, rfl⟩, hpost⟩ := hfirst d hd
      exact ⟨⟨count + more, s.move_move count more⟩, hpost⟩
  exact ⟨all, hall, fun f => by rw [ends_seq, hends f, List.flatMap_map, hmore f]⟩

/-- So are alternatives. -/
theorem Tracks.either (hp : Tracks pre p post) (hq : Tracks pre q post) :
    Tracks pre (either p q) post := by
  intro s hs hpre
  obtain ⟨first, hfirst, hp⟩ := hp s hs hpre
  obtain ⟨second, hsecond, hq⟩ := hq s hs hpre
  refine ⟨first ++ second, fun e he => ?_, fun f => ?_⟩
  · rcases List.mem_append.mp he with he | he
    · exact hfirst e he
    · exact hsecond e he
  · rw [ends_either, hp f, hq f, List.map_append]

/-- A pattern that may be left out. -/
theorem Tracks.maybe (hp : Tracks pre p post) (hpost : ∀ s, IsOrderly s.whole → pre s → post s) :
    Tracks pre (maybe p) post :=
  hp.either (tracks_empty.mono (fun _ _ h => h) hpost)

/-- So is any number of them. -/
theorem tracks_choice {first : Pattern} {rest : List Pattern}
    (h : ∀ p ∈ first :: rest, Tracks pre p post) : Tracks pre (choice first rest) post := by
  induction rest generalizing first with
  | nil => exact h first List.mem_cons_self
  | cons second rest ih =>
    exact (h first List.mem_cons_self).either (ih fun p hp => h p (List.mem_cons_of_mem _ hp))

/-! ### Characters -/

/-- One character is passed or not in every filling alike, unless it could be a slot's. -/
theorem tracks_one_of (hslot : ∀ s : Spot, pre s → s.AtSlot →
      ∀ f : Filling, f.word.head?.any accepts = false) :
    Tracks pre (one accepts) (behind accepts) := by
  intro s hs hpre
  cases hafter : s.after with
  | nil =>
    refine ⟨[], by simp, fun f => ?_⟩
    rw [ends_one, Spot.cursor, hafter]
    rfl
  | cons item after =>
    cases item with
    | none =>
      have hreject := hslot s hpre (by rw [Spot.AtSlot, hafter]; rfl)
      refine ⟨[], by simp, fun f => ?_⟩
      obtain ⟨c, rest, hword⟩ := List.exists_cons_of_ne_nil f.isSlotWord_word.nonempty
      have hc : accepts c = false := by
        have hhead := hreject f
        rwa [hword] at hhead
      rw [ends_one, Spot.cursor, hafter, fill_none, hword]
      simp [hc]
    | some c =>
      have hmove : s.move 1 = ⟨some c :: s.before, after⟩ := by simp [Spot.move, hafter]
      by_cases hc : accepts c = true
      · refine ⟨[s.move 1], ?_, fun f => ?_⟩
        · intro e he
          obtain rfl := List.mem_singleton.mp he
          exact ⟨⟨1, rfl⟩, c, s.before, by rw [hmove], hc⟩
        · rw [ends_one, Spot.cursor, hafter, fill_some, hmove]
          simp [hc, Spot.cursor]
      · refine ⟨[], by simp, fun f => ?_⟩
        rw [ends_one, Spot.cursor, hafter, fill_some]
        simp [hc]

/-- A test that rejects the first letter of both words. -/
def RejectsSlots (accepts : Char → Bool) : Prop :=
  ∀ f : Filling, f.word.head?.any accepts = false

instance (accepts : Char → Bool) : Decidable (RejectsSlots accepts) :=
  inferInstanceAs (Decidable (∀ f : Filling, f.word.head?.any accepts = false))

/-- No slot is among the accepted items at the front. -/
theorem takeWhile_fill_of_rejects (h : RejectsSlots accepts) (f : Filling) (t : Template) :
    (fill f.word t).takeWhile accepts = fill f.word (t.takeWhile (onItem false accepts)) := by
  induction t with
  | nil => rfl
  | cons item t ih =>
    cases item with
    | some c => cases hc : accepts c <;> simp [hc, ih]
    | none =>
      obtain ⟨c, rest, hword⟩ := List.exists_cons_of_ne_nil f.isSlotWord_word.nonempty
      have hc : accepts c = false := by
        have hhead := h f
        rwa [hword] at hhead
      simp [hword, hc]

/-- A run that takes no letters of the words ends at a slot. -/
theorem dropWhile_fill_of_rejects (h : RejectsSlots accepts) (f : Filling) (t : Template) :
    (fill f.word t).dropWhile accepts = fill f.word (t.dropWhile (onItem false accepts)) := by
  have hsplit : (fill f.word t).takeWhile accepts ++ (fill f.word t).dropWhile accepts =
      (fill f.word t).takeWhile accepts ++ fill f.word (t.dropWhile (onItem false accepts)) := by
    rw [List.takeWhile_append_dropWhile, takeWhile_fill_of_rejects h, ← fill_append,
      List.takeWhile_append_dropWhile]
  exact List.append_cancel_left hsplit

/-- A character that is no letter of the words is seen alike. -/
theorem tracks_one (h : RejectsSlots accepts) : Tracks pre (one accepts) (behind accepts) :=
  tracks_one_of fun _ _ _ => h

/-- So is any character where no slot comes next. -/
theorem tracks_one_offSlot : Tracks offSlot (one accepts) (behind accepts) :=
  tracks_one_of fun _ hoff hslot => absurd hslot hoff

/-- A character that stains is passed where no slot stands, and none stands behind it. -/
theorem tracks_one_of_stains (h : ∀ c, accepts c = true → stains c = true) :
    Tracks offSlot (one accepts) offSlot :=
  tracks_one_offSlot.mono (fun _ _ h => h) (offSlot_of_behind h)

/-- The places where a run may end are the same spots in every filling: the run goes on from one
visible item to the next, and it never goes on into a slot. -/
theorem exists_runPlaces_cursor (hslot : ∀ s : Spot, IsOrderly s.whole →
      pre s ∨ behind accepts s → s.AtSlot → ∀ f : Filling, f.word.head?.any accepts = false)
    (before after : Template) (hwhole : IsOrderly (Spot.mk before after).whole)
    (hbegin : pre ⟨before, after⟩ ∨ behind accepts ⟨before, after⟩) :
    ∃ stops : List Spot, (∀ e ∈ stops, (∃ count, e = (Spot.mk before after).move count) ∧
        (pre e ∨ behind accepts e)) ∧
      ∀ f : Filling, runPlaces accepts (fill f.word.reverse before) (fill f.word after) =
        stops.map (·.cursor f) := by
  have hhere (s : Spot) (hs : pre s ∨ behind accepts s) :
      ∀ e ∈ [s], (∃ count, e = s.move count) ∧ (pre e ∨ behind accepts e) := by
    intro e he
    obtain rfl := List.mem_singleton.mp he
    exact ⟨⟨0, rfl⟩, hs⟩
  induction after generalizing before with
  | nil => exact ⟨[⟨before, []⟩], hhere _ hbegin, fun f => rfl⟩
  | cons item after ih =>
    cases item with
    | none =>
      have hreject := hslot _ hwhole hbegin rfl
      refine ⟨[⟨before, none :: after⟩], hhere _ hbegin, fun f => ?_⟩
      obtain ⟨c, rest, hword⟩ := List.exists_cons_of_ne_nil f.isSlotWord_word.nonempty
      have hc : accepts c = false := by
        have hhead := hreject f
        rwa [hword] at hhead
      rw [fill_none, hword, List.cons_append, runPlaces, hc]
      simp [Spot.cursor, hword]
    | some c =>
      by_cases hc : accepts c = true
      · obtain ⟨stops, hstops, hruns⟩ := ih (some c :: before)
          (by simpa [Spot.whole] using hwhole) (.inr ⟨c, before, rfl, hc⟩)
        refine ⟨⟨before, some c :: after⟩ :: stops, fun e he => ?_, fun f => ?_⟩
        · rcases List.mem_cons.mp he with rfl | he
          · exact ⟨⟨0, rfl⟩, hbegin⟩
          · obtain ⟨⟨count, rfl⟩, hpost⟩ := hstops e he
            exact ⟨⟨count + 1, by simp [Spot.move]⟩, hpost⟩
        · have hrest := hruns f
          rw [fill_some] at hrest
          rw [fill_some, runPlaces, if_pos hc, hrest]
          rfl
      · refine ⟨[⟨before, some c :: after⟩], hhere _ hbegin, fun f => ?_⟩
        rw [fill_some, runPlaces, if_neg hc]
        rfl

/-- A run is as long in every filling, unless it could pass a slot. -/
theorem tracks_run_of (hslot : ∀ s : Spot, IsOrderly s.whole → pre s ∨ behind accepts s → s.AtSlot →
      ∀ f : Filling, f.word.head?.any accepts = false) :
    Tracks pre (run accepts) fun s => pre s ∨ behind accepts s := by
  intro s hs hpre
  obtain ⟨stops, hstops, hruns⟩ := exists_runPlaces_cursor hslot s.before s.after hs (.inl hpre)
  refine ⟨stops.reverse, fun e he => hstops e (List.mem_reverse.mp he), fun f => ?_⟩
  rw [ends_run, Spot.cursor, hruns f, List.map_reverse]

/-- So is a run of characters that are no letters of the words. -/
theorem tracks_run (h : RejectsSlots accepts) :
    Tracks pre (run accepts) fun s => pre s ∨ behind accepts s :=
  tracks_run_of fun _ _ _ _ => h

/-- A run of characters that stain never comes to a slot. -/
theorem tracks_run_offSlot (h : ∀ c, accepts c = true → stains c = true) :
    Tracks offSlot (run accepts) offSlot := by
  refine (tracks_run_of fun s hs hbegin hslot => ?_).mono (fun _ _ h => h) fun s hs hend => ?_
  · rcases hbegin with hoff | hbehind
    · exact absurd hslot hoff
    · exact absurd hslot (offSlot_of_behind h s hs hbehind)
  · exact hend.elim id (offSlot_of_behind h s hs)

/-- So is a run of blanks. -/
theorem tracks_blanks : Tracks pre blanks fun s => pre s ∨ behind CharClass.isBlank s :=
  tracks_run (by decide)

/-- A whole run is as long in every filling. -/
theorem exists_afterRun_cursor {answer : Bool} (haccepts : Ignores accepts answer) (s : Spot) :
    ∃ count, ∀ f : Filling, afterRun accepts (s.cursor f) = (s.move count).cursor f := by
  have hprefix := List.takeWhile_prefix (l := s.after) (onItem answer accepts)
  have htake := List.prefix_iff_eq_take.mp hprefix
  refine ⟨(s.after.takeWhile (onItem answer accepts)).length, fun f => ?_⟩
  rw [afterRun, Spot.cursor]
  dsimp only
  rw [takeWhile_fill haccepts f.isSlotWord_word, dropWhile_fill haccepts f.isSlotWord_word,
    fill_reverse, ← fill_append, Spot.cursor, Spot.move, ← htake, drop_length_takeWhile]

/-- A run that may pass slots, with something behind it that no accepted character begins. -/
theorem tracks_run_seq {answer : Bool} (haccepts : Ignores accepts answer)
    (hq : Tracks anywhere q post)
    (hstop : ∀ d : Cursor, d.precedes accepts = true → q.ends d = []) :
    Tracks pre (.seq (run accepts) q) post := by
  intro s hs _
  obtain ⟨count, hcount⟩ := exists_afterRun_cursor haccepts s
  obtain ⟨stops, hstops, hends⟩ := hq (s.move count) (by rwa [Spot.whole_move]) trivial
  refine ⟨stops, fun e he => ?_, fun f => ?_⟩
  · obtain ⟨⟨more, rfl⟩, hpost⟩ := hstops e he
    exact ⟨⟨count + more, s.move_move count more⟩, hpost⟩
  · rw [ends_run_seq fun d _ => hstop d, hcount f, hends f]

/-! ### Words -/

/-- A word that begins where no slot stands. -/
theorem tracks_literal_offSlot (hstains : ∀ c ∈ chars, stains c = true) :
    Tracks offSlot (literal chars) offSlot := by
  induction chars with
  | nil => exact tracks_empty
  | cons c chars ih =>
    have hc := hstains c List.mem_cons_self
    have hone : Tracks offSlot (char c) offSlot :=
      tracks_one_of_stains fun d hd => (eq_of_beq hd) ▸ hc
    exact hone.seq (ih fun d hd => hstains d (List.mem_cons_of_mem _ hd))

/-- A word none of whose characters begins one of the two words. -/
theorem tracks_literal_of_rejects (h : ∀ c ∈ chars, RejectsSlots (· == c)) :
    Tracks anywhere (literal chars) anywhere := by
  induction chars with
  | nil => exact tracks_empty
  | cons c chars ih =>
    exact (tracks_one (h c List.mem_cons_self)).toAnywhere.seq
      (ih fun d hd => h d (List.mem_cons_of_mem _ hd))

/-- A slot that comes next, with what is behind it. -/
theorem exists_after_of_atSlot {s : Spot} (h : s.AtSlot) : ∃ t, s.after = none :: t := by
  cases hafter : s.after with
  | nil => simp [Spot.AtSlot, hafter] at h
  | cons item t =>
    obtain rfl : item = none := by simpa [Spot.AtSlot, hafter] using h
    exact ⟨t, rfl⟩

/-- A word that neither begins one of the two words nor begins with one does not fit at a slot. -/
theorem ends_literal_eq_nil {s : Spot} (hslot : s.AtSlot)
    (hclash : ∀ f : Filling, ¬chars <+: f.word ∧ ¬f.word <+: chars) (f : Filling) :
    (literal chars).ends (s.cursor f) = [] := by
  obtain ⟨after, hafter⟩ := exists_after_of_atSlot hslot
  rw [List.eq_nil_iff_forall_not_mem]
  intro d hd
  have hpass := (mem_ends_literal.mp hd).after
  rw [Spot.cursor, hafter, fill_none] at hpass
  rcases List.append_eq_append_iff.mp hpass with ⟨more, hmore, -⟩ | ⟨more, hmore, -⟩
  · exact (hclash f).2 ⟨more, hmore.symm⟩
  · exact (hclash f).1 ⟨more, hmore.symm⟩

/-- A word that neither begins one of the two words nor begins with one. -/
theorem tracks_literal (hstains : ∀ c ∈ chars, stains c = true)
    (hclash : ∀ f : Filling, ¬chars <+: f.word ∧ ¬f.word <+: chars) :
    Tracks pre (literal chars) offSlot := by
  intro s hs _
  by_cases hslot : s.AtSlot
  · exact ⟨[], by simp, fun f => ends_literal_eq_nil hslot hclash f⟩
  · exact tracks_literal_offSlot hstains s hs hslot

end Pattern

end FactoryDowngrade
