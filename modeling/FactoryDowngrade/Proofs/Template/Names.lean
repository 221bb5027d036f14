import FactoryDowngrade.Proofs.Template.Patterns
import FactoryDowngrade.Proofs.Text.CharClasses

/-!
# Names on templates

A name that begins at a slot ends inside the slot's word or right behind it. What shuns both
places, as a dot or an equals sign does, makes the whole pattern fail there in every filling.
-/

namespace FactoryDowngrade

open Template

/-- The cursor stands between two word characters. -/
def Cursor.InWord (c : Cursor) : Prop :=
  c.follows CharClass.isWord = true ∧ c.precedes CharClass.isWord = true

/-- Behind a part of a slot's word and before another one. -/
theorem Template.inWord_of_split {f : Filling} {p q before after : Text} (hword : f.word = p ++ q)
    (hp : p ≠ []) (hq : q ≠ []) : Cursor.InWord ⟨p.reverse ++ before, q ++ after⟩ := by
  have hletters := f.isWord_of_mem_word
  rw [hword] at hletters
  constructor
  · obtain ⟨c, front, hlast⟩ := List.exists_cons_of_ne_nil (List.reverse_ne_nil_iff.mpr hp)
    rw [Cursor.follows, hlast]
    exact hletters c (List.mem_append_left _ (List.mem_reverse.mp (hlast ▸ List.mem_cons_self)))
  · obtain ⟨c, more, rfl⟩ := List.exists_cons_of_ne_nil hq
    exact hletters c (List.mem_append_right _ List.mem_cons_self)

namespace Pattern

variable {pre post : Spot → Prop} {p q : Pattern} {accepts : Char → Bool} {chars name : Text}

/-- Characters that may follow a slot and the spaces behind it. -/
def mayTrail (c : Char) : Bool :=
  c == '(' || CharClass.isSpaceOrTab c || c == ':' || c == '"' || c == '\''

/-- Only spaces stand between a slot and the spot. -/
def Trails (s : Spot) : Prop :=
  ∃ gap before, s.before = gap ++ none :: before ∧
    ∀ item ∈ gap, ∃ c, item = some c ∧ CharClass.isSpaceOrTab c = true

/-- A pattern that fits nowhere inside a word. -/
def SkipsWords (p : Pattern) : Prop :=
  ∀ c : Cursor, c.follows CharClass.isWord = true → c.precedes CharClass.isWord = true →
    p.ends c = []

/-- A sequence fits nowhere inside a word if its first part does not. -/
theorem SkipsWords.seq (hp : SkipsWords p) (q : Pattern) : SkipsWords (seq p q) :=
  fun c hfollows hprecedes => by rw [ends_seq, hp c hfollows hprecedes, List.flatMap_nil]

/-- Nor does a choice between patterns that do not. -/
theorem SkipsWords.either (hp : SkipsWords p) (hq : SkipsWords q) : SkipsWords (either p q) :=
  fun c hfollows hprecedes => by
    rw [ends_either, hp c hfollows hprecedes, hq c hfollows hprecedes, List.append_nil]

/-- No word has an edge inside. -/
theorem skipsWords_wordEdge : SkipsWords wordEdge := fun c hfollows hprecedes => by
  rw [ends_wordEdge, hfollows, hprecedes]
  rfl

/-- A look back that refuses word characters fails inside a word. -/
theorem skipsWords_notAfter {refused : Char → Bool}
    (h : ∀ c, CharClass.isWord c = true → refused c = true) : SkipsWords (notAfter refused) :=
  fun c hfollows _ => by rw [ends_notAfter, if_pos (Cursor.follows_of_imp h hfollows)]

/-- A character that is no word character is not inside a word. -/
theorem skipsWords_one (h : ∀ c, accepts c = true → CharClass.isWord c = false) :
    SkipsWords (one accepts) := by
  rintro ⟨before, after⟩ - hprecedes
  cases after with
  | nil => rfl
  | cons c after =>
    have hword : CharClass.isWord c = true := hprecedes
    have hc : ¬accepts c = true := fun hc => by
      rw [h c hc] at hword
      cases hword
    rw [ends_one]
    exact if_neg hc

/-- A pattern that fits neither inside a word nor behind a slot. -/
structure Shuns (p : Pattern) : Prop where
  inWord : SkipsWords p
  behindSlot : ∀ s : Spot, IsOrderly s.whole → Trails s → ∀ f : Filling, p.ends (s.cursor f) = []

/-- Dropping spaces drops a gap. -/
theorem dropWhile_gap {gap t : Template}
    (hgap : ∀ item ∈ gap, ∃ c, item = some c ∧ CharClass.isSpaceOrTab c = true) :
    (gap ++ t).dropWhile (onItem false CharClass.isSpaceOrTab) =
      t.dropWhile (onItem false CharClass.isSpaceOrTab) := by
  refine List.dropWhile_append_of_pos fun item hitem => ?_
  obtain ⟨c, rfl, hc⟩ := hgap item hitem
  exact hc

/-- What comes next behind a slot. -/
theorem mayTrail_of_trails {s : Spot} (hs : IsOrderly s.whole) (h : Trails s) {item : Option Char}
    {t : Template} (hafter : s.after = item :: t) : ∃ c, item = some c ∧ mayTrail c = true := by
  obtain ⟨gap, before, hbefore, hgap⟩ := h
  have harguments := hs.arguments before.reverse (gap.reverse ++ item :: t) (by
    simp [Spot.whole, hbefore, hafter])
  have hreverse : ∀ x ∈ gap.reverse, ∃ c, x = some c ∧ CharClass.isSpaceOrTab c = true :=
    fun x hx => hgap x (List.mem_reverse.mp hx)
  cases hlead : gap.reverse with
  | nil =>
    rw [hlead] at harguments
    cases item with
    | none => cases harguments
    | some c =>
      simp only [List.nil_append, opensArguments, Bool.or_eq_true, Bool.and_eq_true] at harguments
      refine ⟨c, rfl, ?_⟩
      rcases harguments with hround | ⟨hspace, -⟩
      · simp [mayTrail, hround]
      · simp [mayTrail, hspace]
  | cons lead more =>
    rw [hlead] at harguments hreverse
    obtain ⟨d, rfl, hd⟩ := hreverse lead List.mem_cons_self
    have hround : (d == '(') = false := by
      rw [beq_eq_false_iff_ne]
      rintro rfl
      exact absurd hd (by decide)
    simp only [List.cons_append, opensArguments, hround, hd, Bool.false_or, Bool.true_and]
      at harguments
    rw [dropWhile_gap fun x hx => hreverse x (List.mem_cons_of_mem _ hx)] at harguments
    cases item with
    | none => cases harguments
    | some c =>
      refine ⟨c, rfl, ?_⟩
      by_cases hc : CharClass.isSpaceOrTab c = true
      · simp [mayTrail, hc]
      · rw [List.dropWhile_cons_of_neg (by simpa using hc)] at harguments
        simp only [opensName, Bool.or_eq_true] at harguments
        rcases harguments with (hname | hname) | hname <;> simp [mayTrail, hname]

/-! ### Patterns that shun words and slots -/

/-- A character that neither belongs to words nor follows slots is read away from them. -/
theorem shuns_one (h : ∀ c, accepts c = true → CharClass.isWord c = false ∧ mayTrail c = false) :
    Shuns (one accepts) where
  inWord := skipsWords_one fun c hc => (h c hc).1
  behindSlot := by
    intro s hs htrails f
    cases hafter : s.after with
    | nil =>
      rw [ends_one, Spot.cursor, hafter]
      rfl
    | cons item t =>
      obtain ⟨c, rfl, htrail⟩ := mayTrail_of_trails hs htrails hafter
      have hc : ¬accepts c = true := fun hc => by
        rw [(h c hc).2] at htrail
        cases htrail
      rw [ends_one, Spot.cursor, hafter, fill_some]
      exact if_neg hc

/-- So is a given character of that kind. -/
theorem shuns_char {c : Char} (h : CharClass.isWord c = false ∧ mayTrail c = false) :
    Shuns (char c) :=
  shuns_one fun _ hd => (eq_of_beq hd) ▸ h

/-- A sequence is read away from words and slots if its first part is. -/
theorem Shuns.seq (hp : Shuns p) (q : Pattern) : Shuns (seq p q) where
  inWord := hp.inWord.seq q
  behindSlot := fun s hs htrails f => by
    rw [ends_seq, hp.behindSlot s hs htrails f, List.flatMap_nil]

/-- A part that may be left out makes no difference if what follows shuns the place as well. -/
theorem Shuns.maybe_seq (hp : Shuns p) (hq : Shuns q) : Shuns (.seq (maybe p) q) where
  inWord := fun c hfollows hprecedes => by
    rw [ends_seq, maybe, ends_either, hp.inWord c hfollows hprecedes, List.nil_append, ends_empty,
      List.flatMap_singleton, hq.inWord c hfollows hprecedes]
  behindSlot := fun s hs htrails f => by
    rw [ends_seq, maybe, ends_either, hp.behindSlot s hs htrails f, List.nil_append, ends_empty,
      List.flatMap_singleton, hq.behindSlot s hs htrails f]

/-- The only blanks that may come next behind a slot are spaces and tabs. -/
theorem isSpaceOrTab_of_mayTrail {c : Char} (h : mayTrail c = true)
    (hblank : CharClass.isBlank c = true) : CharClass.isSpaceOrTab c = true := by
  simp only [mayTrail, Bool.or_eq_true, beq_iff_eq] at h
  rcases h with (((rfl | hspace) | rfl) | rfl) | rfl
  · exact absurd hblank (by decide)
  · exact hspace
  · exact absurd hblank (by decide)
  · exact absurd hblank (by decide)
  · exact absurd hblank (by decide)

/-- One space further on only spaces stand between the slot and the spot. -/
theorem Trails.cons {before after : Template} {c : Char} (h : Trails ⟨before, some c :: after⟩)
    (hspace : CharClass.isSpaceOrTab c = true) : Trails ⟨some c :: before, after⟩ := by
  obtain ⟨gap, outer, hbefore, hgap⟩ := h
  exact ⟨some c :: gap, outer, by simp [← hbefore],
    List.forall_mem_cons.mpr ⟨⟨c, rfl, hspace⟩, hgap⟩⟩

/-- Where blanks lead from behind a slot a pattern that shuns the place does not fit either. -/
theorem Shuns.ends_of_mem_runPlaces (hq : Shuns q) {before after : Template}
    (hs : IsOrderly (Spot.mk before after).whole) (htrails : Trails ⟨before, after⟩) {f : Filling}
    {d : Cursor}
    (hd : d ∈ runPlaces CharClass.isBlank (fill f.word.reverse before) (fill f.word after)) :
    q.ends d = [] := by
  induction after generalizing before with
  | nil =>
    obtain rfl := List.mem_singleton.mp hd
    exact hq.behindSlot _ hs htrails f
  | cons item after ih =>
    obtain ⟨c, rfl, htrail⟩ := mayTrail_of_trails hs htrails rfl
    rw [fill_some, runPlaces, List.mem_cons] at hd
    rcases hd with rfl | hd
    · exact hq.behindSlot _ hs htrails f
    · by_cases hblank : CharClass.isBlank c = true
      · rw [if_pos hblank] at hd
        exact ih (by simpa [Spot.whole] using hs)
          (htrails.cons (isSpaceOrTab_of_mayTrail htrail hblank)) hd
      · rw [if_neg hblank] at hd
        cases hd

/-- Blanks do not lead away from a word or from behind a slot. -/
theorem Shuns.blanks_seq (hq : Shuns q) : Shuns (.seq blanks q) where
  inWord := by
    rintro ⟨before, after⟩ hfollows hprecedes
    have hplaces : runPlaces CharClass.isBlank before after = [⟨before, after⟩] := by
      cases after with
      | nil => rfl
      | cons c after =>
        have hword : CharClass.isWord c = true := hprecedes
        have hblank : ¬CharClass.isBlank c = true := fun hblank => by
          rw [CharClass.isWord_eq_false_of_isBlank hblank] at hword
          cases hword
        rw [runPlaces, if_neg hblank]
    rw [ends_seq, blanks, ends_run, hplaces, List.reverse_singleton, List.flatMap_singleton,
      hq.inWord _ hfollows hprecedes]
  behindSlot := by
    intro s hs htrails f
    rw [ends_seq, List.flatMap_eq_nil_iff]
    intro d hd
    rw [blanks, ends_run, List.mem_reverse] at hd
    exact hq.ends_of_mem_runPlaces hs htrails hd

/-! ### Names -/

/-- Characters of a name that are passed from a slot on belong to the slot's word, since nothing
behind the word may belong to a name. -/
theorem prefix_word_of_passes {s : Spot} (hs : IsOrderly s.whole) {t : Template}
    (hafter : s.after = none :: t) {f : Filling} {stretch : Text} {d : Cursor}
    (hstains : ∀ c ∈ stretch, stains c = true) (hpass : (s.cursor f).Passes stretch d) :
    stretch <+: f.word := by
  have hsplit := hpass.after
  rw [Spot.cursor, hafter, fill_none] at hsplit
  rcases List.append_eq_append_iff.mp hsplit with ⟨more, hmore, hrest⟩ | ⟨more, hmore, -⟩
  · cases more with
    | nil => exact ⟨[], by simpa using hmore⟩
    | cons c more =>
      have harguments := Spot.opensArguments_of_after hs hafter
      have hc := hstains c (by simp [hmore])
      cases t with
      | nil => cases hrest
      | cons item t =>
        cases item with
        | none => cases harguments
        | some x =>
          obtain ⟨rfl, -⟩ := List.cons.inj hrest
          simp only [opensArguments, Bool.or_eq_true, Bool.and_eq_true, beq_iff_eq] at harguments
          rcases harguments with rfl | ⟨hspace, -⟩
          · exact absurd hc (by decide)
          · simp only [CharClass.isSpaceOrTab, Bool.or_eq_true, beq_iff_eq] at hspace
            rcases hspace with rfl | rfl
            · exact absurd hc (by decide)
            · exact absurd hc (by decide)
  · exact ⟨more, hmore.symm⟩

/-- Characters of a name that are passed from a slot on end inside the slot's word, if they are not
just the word. -/
theorem SkipsWords.ends_eq_nil (hq : SkipsWords q) {s : Spot} (hs : IsOrderly s.whole)
    {t : Template} (hafter : s.after = none :: t) {f : Filling} {stretch : Text} {d : Cursor}
    (hnonempty : stretch ≠ []) (hstains : ∀ c ∈ stretch, stains c = true)
    (hpass : (s.cursor f).Passes stretch d) (hother : stretch ≠ f.word) : q.ends d = [] := by
  obtain ⟨more, hword⟩ := prefix_word_of_passes hs hafter hstains hpass
  have hmore : more ≠ [] := by
    rintro rfl
    exact hother (by simpa using hword)
  have hd : d = ⟨stretch.reverse ++ fill f.word.reverse s.before, more ++ fill f.word t⟩ :=
    hpass.unique ⟨by simp [Spot.cursor, hafter, ← hword], rfl⟩
  have hinside : Cursor.InWord ⟨stretch.reverse ++ fill f.word.reverse s.before,
      more ++ fill f.word t⟩ := inWord_of_split hword.symm hnonempty hmore
  rw [hd]
  exact hq _ hinside.1 hinside.2

/-- Whatever characters of a name are passed from a slot on, the end is shunned. -/
theorem Shuns.ends_eq_nil (hq : Shuns q) {s : Spot} (hs : IsOrderly s.whole) {t : Template}
    (hafter : s.after = none :: t) {f : Filling} {stretch : Text} {d : Cursor}
    (hnonempty : stretch ≠ []) (hstains : ∀ c ∈ stretch, stains c = true)
    (hpass : (s.cursor f).Passes stretch d) : q.ends d = [] := by
  by_cases hstretch : stretch = f.word
  · have hmove : s.move 1 = ⟨none :: s.before, t⟩ := by simp [Spot.move, hafter]
    have hend : d = (s.move 1).cursor f := by
      refine hpass.unique ⟨?_, ?_⟩
      · simp [Spot.cursor, hafter, hmove, hstretch]
      · simp [Spot.cursor, hmove, hstretch]
    rw [hend]
    exact hq.behindSlot _ (by rwa [Spot.whole_move]) ⟨[], s.before, by rw [hmove]; rfl, by simp⟩ f
  · exact hq.inWord.ends_eq_nil hs hafter hnonempty hstains hpass hstretch

/-- Nothing is tracked where the pattern fails in every filling. -/
theorem exists_stops_nil {s : Spot} (h : ∀ f : Filling, p.ends (s.cursor f) = []) :
    ∃ stops : List Spot, (∀ e ∈ stops, (∃ count, e = s.move count) ∧ post e) ∧
      ∀ f : Filling, p.ends (s.cursor f) = stops.map (·.cursor f) :=
  ⟨[], by simp, h⟩

/-- A given name, with something behind it that shuns slots. -/
theorem tracks_name_seq (hnonempty : name ≠ []) (hname : ∀ c ∈ name, stains c = true)
    (hq : Tracks offSlot q post) (hshuns : Shuns q) : Tracks pre (seq (literal name) q) post := by
  intro s hs _
  by_cases hslot : s.AtSlot
  · obtain ⟨t, hafter⟩ := exists_after_of_atSlot hslot
    refine exists_stops_nil fun f => ?_
    rw [ends_seq, List.flatMap_eq_nil_iff]
    intro d hd
    exact hshuns.ends_eq_nil hs hafter hnonempty hname (mem_ends_literal.mp hd)
  · exact (tracks_literal_offSlot hname).seq hq s hs hslot

/-- Any name, with something behind it that shuns slots. -/
theorem tracks_identifier_seq (hfirst : ∀ c, accepts c = true → CharClass.isWord c = true)
    (hq : Tracks offSlot q post) (hshuns : Shuns q) :
    Tracks pre (seq (one accepts) (seq wordRun q)) post := by
  have hword : ∀ c, CharClass.isWord c = true → stains c = true := fun _ => stains_of_isWord
  intro s hs _
  by_cases hslot : s.AtSlot
  · obtain ⟨t, hafter⟩ := exists_after_of_atSlot hslot
    refine exists_stops_nil fun f => ?_
    rw [ends_seq, List.flatMap_eq_nil_iff]
    intro e he
    rw [ends_seq, List.flatMap_eq_nil_iff]
    intro d hd
    obtain ⟨c, hc, hone⟩ := mem_ends_one.mp he
    obtain ⟨stretch, hstretch, hrun⟩ := mem_ends_run.mp hd
    refine hshuns.ends_eq_nil hs hafter (by simp) (fun x hx => ?_) (hone.trans hrun)
    rcases List.mem_append.mp hx with hx | hx
    · obtain rfl := List.mem_singleton.mp hx
      exact hword _ (hfirst _ hc)
    · exact hword x (hstretch x hx)
  · have hone : Tracks offSlot (one accepts) offSlot :=
      tracks_one_of_stains fun c hc => hword c (hfirst c hc)
    exact hone.seq ((tracks_run_offSlot hword).seq hq) s hs hslot

end Pattern

end FactoryDowngrade
