import FactoryDowngrade.Proofs.Template.Chains
import FactoryDowngrade.Proofs.Template.Searches

/-!
# Patterns on linked templates

In a linked template a slot begins what stands between two dots, so a word that does not begin like
a slot's does not reach into one. Where such patterns match in the text before the words were
replaced, they match behind the replacement as well. A match may be lost inside a word, if nothing
that comes behind it can match there.
-/

namespace FactoryDowngrade

open Template

namespace Template

/-- From a spot this stretch leads to a spot, or inside the word of a slot. -/
def Arrives (s : Spot) (f : Filling) (stretch : Text) (d : Cursor) : Prop :=
  (∃ count, d = (s.move count).cursor f ∧ stretch = fill f.word (s.after.take count)) ∨
  ∃ count p q, (s.move count).AtSlot ∧ f.word = p ++ q ∧ p ≠ [] ∧ q ≠ [] ∧
    stretch = fill f.word (s.after.take count) ++ p ∧ d.InWord

namespace Arrives

variable {before rest : Template} {item : Option Char} {f : Filling} {d : Cursor}

/-- The start is arrived at with nothing. -/
theorem refl (s : Spot) (f : Filling) : Arrives s f [] (s.cursor f) :=
  .inl ⟨0, rfl, rfl⟩

/-- An item is passed first. -/
theorem cons {more : Text} (h : Arrives ⟨item :: before, rest⟩ f more d) :
    Arrives ⟨before, item :: rest⟩ f (fill f.word [item] ++ more) d := by
  have hmove (count : Nat) : (Spot.mk before (item :: rest)).move (count + 1) =
      (Spot.mk (item :: before) rest).move count := by simp [Spot.move]
  have htake (count : Nat) : fill f.word ((item :: rest).take (count + 1)) =
      fill f.word [item] ++ fill f.word (rest.take count) := by
    rw [List.take_succ_cons, ← List.singleton_append, fill_append]
  rcases h with ⟨count, hd, rfl⟩ | ⟨count, p, q, hslot, hword, hp, hq, rfl, hd⟩
  · exact .inl ⟨count + 1, by rw [hmove, hd], by rw [htake]⟩
  · refine .inr ⟨count + 1, p, q, by rwa [hmove], hword, hp, hq, ?_, hd⟩
    rw [htake, List.append_assoc]

/-- The passage ends inside the word of the slot ahead. -/
theorem inside {p q : Text} (h : (Spot.cursor ⟨before, none :: rest⟩ f).Passes p d)
    (hword : f.word = p ++ q) (hp : p ≠ []) (hq : q ≠ []) :
    Arrives ⟨before, none :: rest⟩ f p d := by
  refine .inr ⟨0, p, q, rfl, hword, hp, hq, rfl, ?_⟩
  have hafter : p ++ (q ++ fill f.word rest) = p ++ d.after := by
    rw [← h.after, Spot.cursor, fill_none, hword, List.append_assoc]
  have hd : d = ⟨p.reverse ++ fill f.word.reverse before, q ++ fill f.word rest⟩ := by
    obtain ⟨dbefore, dafter⟩ := d
    obtain rfl := List.append_cancel_left hafter
    obtain rfl := h.before
    rfl
  rw [hd]
  exact inWord_of_split hword hp hq

end Arrives

/-- A passage from a spot ends at a spot or inside the word of a slot. -/
theorem arrives_of_passes {s : Spot} {f : Filling} {stretch : Text} {d : Cursor}
    (h : (s.cursor f).Passes stretch d) : Arrives s f stretch d := by
  obtain ⟨before, after⟩ := s
  induction after generalizing before stretch with
  | nil =>
    obtain ⟨rfl, -⟩ := List.append_eq_nil_iff.mp h.after.symm
    exact h.unique (.refl _) ▸ .refl _ f
  | cons item rest ih =>
    cases item with
    | some c =>
      cases stretch with
      | nil => exact h.unique (.refl _) ▸ .refl _ f
      | cons x more =>
        obtain ⟨rfl, hafter⟩ := List.cons.inj h.after
        exact (ih (some c :: before) ⟨hafter, by rw [h.before]; simp [Spot.cursor]⟩).cons
    | none =>
      have hafter : f.word ++ fill f.word rest = stretch ++ d.after := by
        rw [← fill_none]
        exact h.after
      by_cases hpassed : f.word <+: stretch
      · obtain ⟨more, rfl⟩ := hpassed
        rw [List.append_assoc] at hafter
        have hnext : Arrives ⟨none :: before, rest⟩ f more d := ih (none :: before)
          ⟨List.append_cancel_left hafter, by rw [h.before]; simp [Spot.cursor]⟩
        simpa using hnext.cons
      · obtain ⟨q, hword⟩ : stretch <+: f.word :=
          (List.prefix_or_prefix_of_prefix ⟨_, hafter⟩ (List.prefix_append _ _)).resolve_left
            hpassed
        by_cases hstretch : stretch = []
        · subst hstretch
          exact h.unique (.refl _) ▸ .refl _ f
        · refine .inside h hword.symm hstretch ?_
          rintro rfl
          exact hpassed ⟨[], by rw [← hword]; simp⟩

/-- What a test accepts in one filling it accepts in the other. -/
theorem forall_mem_fill {accepts : Char → Bool} (h : Ignores accepts true) {t : Template}
    {f : Filling} (g : Filling) (hall : ∀ c ∈ fill f.word t, accepts c = true) :
    ∀ c ∈ fill g.word t, accepts c = true := by
  induction t with
  | nil => simp
  | cons item t ih =>
    cases item with
    | some d =>
      obtain ⟨hd, hrest⟩ := List.forall_mem_cons.mp hall
      exact List.forall_mem_cons.mpr ⟨hd, ih hrest⟩
    | none =>
      rw [fill_none, List.forall_mem_append] at hall ⊢
      exact ⟨h.on_word g.isSlotWord_word, ih hall.2⟩

/-- What stands before a slot of a linked template. -/
theorem take_of_atSlot {s : Spot} (hs : IsLinked s.whole) {n : Nat} (hat : (s.move n).AtSlot) :
    s.after.take n = [] ∨
      ∃ lead c, s.after.take n = lead ++ [some c] ∧ (c = '.' ∨ c = '&') := by
  rcases List.eq_nil_or_concat (s.after.take n) with hnil | ⟨lead, item, hlead⟩
  · exact .inl hnil
  · rw [List.concat_eq_append] at hlead
    obtain ⟨rest, hrest⟩ := List.head?_eq_some_iff.mp (show (s.after.drop n).head? = _ from hat)
    have hafter : s.after = lead ++ item :: none :: rest := by
      rw [← List.take_append_drop n s.after, hlead, hrest]
      simp
    rcases hs (s.before.reverse ++ lead) item rest (by simp [Spot.whole, hafter]) with rfl | rfl
    · exact .inr ⟨lead, '.', hlead, .inl rfl⟩
    · exact .inr ⟨lead, '&', hlead, .inr rfl⟩

/-- A slot among some items. -/
theorem exists_slot_of_mem {s : Spot} {count : Nat} (h : none ∈ s.after.take count) :
    ∃ n rest, (s.move n).AtSlot ∧ s.after.take count = s.after.take n ++ none :: rest := by
  obtain ⟨lead, rest, hsplit⟩ := List.append_of_mem h
  obtain ⟨more, hafter⟩ : ∃ more, s.after = lead ++ none :: more :=
    ⟨rest ++ s.after.drop count, by
      conv_lhs => rw [← List.take_append_drop count s.after, hsplit]
      simp⟩
  refine ⟨lead.length, rest, ?_, ?_⟩
  · simp [Spot.AtSlot, Spot.move, hafter]
  · rw [hsplit]
    congr 1
    rw [hafter, List.take_left]

end Template

namespace Pattern

variable {p q : Pattern} {accepts : Char → Bool} {lost lost' : Cursor → Prop} {chars : Text}

/-- Every match from a spot of a linked template is lost, or is at the same spots when the other
word fills the slots. -/
def Carries (lost : Cursor → Prop) (p : Pattern) : Prop :=
  ∀ s : Spot, IsLinked s.whole → ∀ d ∈ p.ends (s.cursor .created), lost d ∨
    ∃ count, d = (s.move count).cursor .created ∧
      (s.move count).cursor .stubbed ∈ p.ends (s.cursor .stubbed)

/-- No match is lost. -/
def never (_ : Cursor) : Prop :=
  False

/-- More may be counted as lost. -/
theorem Carries.mono (h : Carries lost p) (hlost : ∀ d, lost d → lost' d) : Carries lost' p :=
  fun s hs d hd => (h s hs d hd).imp_left (hlost d)

/-- What is never lost is not lost inside a word. -/
theorem Carries.toInWord (h : Carries never p) : Carries Cursor.InWord p :=
  h.mono fun _ => False.elim

/-- Two patterns one after the other, if what is lost by the first stays lost. -/
theorem Carries.seq (hp : Carries lost p) (hq : Carries lost' q)
    (hlost : ∀ d, lost d → ∀ e ∈ q.ends d, lost' e) : Carries lost' (seq p q) := by
  intro s hs e he
  obtain ⟨d, hd, he⟩ := mem_ends_seq.mp he
  rcases hp s hs d hd with hd | ⟨first, rfl, hfirst⟩
  · exact .inl (hlost d hd e he)
  · rcases hq _ (by rwa [Spot.whole_move]) e he with he | ⟨more, rfl, hmore⟩
    · exact .inl he
    · refine .inr ⟨first + more, by rw [Spot.move_move], ?_⟩
      rw [← Spot.move_move]
      exact mem_ends_seq.mpr ⟨_, hfirst, hmore⟩

/-- A part that loses no match. -/
theorem Carries.seq_of_never (hp : Carries never p) (hq : Carries lost q) :
    Carries lost (.seq p q) :=
  hp.seq hq fun _ => False.elim

/-- Two parts that are one together. -/
theorem Carries.assoc {r : Pattern} (h : Carries lost (.seq (.seq p q) r)) :
    Carries lost (.seq p (.seq q r)) := by
  intro s hs d hd
  rw [← ends_seq_assoc] at hd
  exact (h s hs d hd).imp_right fun ⟨count, heq, hmem⟩ =>
    ⟨count, heq, ends_seq_assoc p q r _ ▸ hmem⟩

/-- Alternatives lose what one of them loses. -/
theorem Carries.either (hp : Carries lost p) (hq : Carries lost q) :
    Carries lost (either p q) := by
  intro s hs d hd
  rcases List.mem_append.mp hd with hd | hd
  · exact (hp s hs d hd).imp_right fun ⟨count, heq, hmem⟩ =>
      ⟨count, heq, List.mem_append_left _ hmem⟩
  · exact (hq s hs d hd).imp_right fun ⟨count, heq, hmem⟩ =>
      ⟨count, heq, List.mem_append_right _ hmem⟩

/-- Taking nothing loses nothing. -/
theorem carries_empty : Carries lost empty := by
  intro s _ d hd
  obtain rfl := List.mem_singleton.mp hd
  exact .inr ⟨0, rfl, List.mem_singleton.mpr rfl⟩

/-- A pattern that may be left out loses no more. -/
theorem Carries.maybe (hp : Carries lost p) : Carries lost (maybe p) :=
  hp.either carries_empty

/-- Neither does any number of alternatives. -/
theorem carries_choice {first : Pattern} {rest : List Pattern}
    (h : ∀ p ∈ first :: rest, Carries lost p) : Carries lost (choice first rest) := by
  induction rest generalizing first with
  | nil => exact h first List.mem_cons_self
  | cons second rest ih =>
    exact (h first List.mem_cons_self).either (ih fun p hp => h p (List.mem_cons_of_mem _ hp))

/-- Whether a passage takes anything is the same in every filling. -/
theorem length_after_move_lt {s : Spot} {count : Nat} {f : Filling} (g : Filling)
    (h : ((s.move count).cursor f).after.length < (s.cursor f).after.length) :
    ((s.move count).cursor g).after.length < (s.cursor g).after.length := by
  have hf := (s.passes_move f count).length_after
  have hg := (s.passes_move g count).length_after
  have hitems : s.after.take count ≠ [] := by
    intro hnil
    rw [hnil, fill_nil, List.length_nil] at hf
    omega
  have hpos := List.length_pos_iff.mpr ((fill_eq_nil_iff g.isSlotWord_word).not.mpr hitems)
  omega

/-- A repetition loses a match only where its last stretch does. -/
theorem Carries.repeated (hp : Carries Cursor.InWord p)
    (hskips : SkipsWords p) : Carries Cursor.InWord (repeated p) := by
  intro s hs d hd
  induction mem_ends_repeated.mp hd with
  | refl => exact .inr ⟨0, rfl, mem_ends_repeated.mpr .refl⟩
  | tail hreach hstep ih =>
    rcases ih (mem_ends_repeated.mpr hreach) with hinside | ⟨first, rfl, hfirst⟩
    · have hnone := hstep.1
      rw [hskips _ hinside.1 hinside.2] at hnone
      cases hnone
    · rcases hp (s.move first) (by rwa [Spot.whole_move]) _ hstep.1 with hlost | ⟨more, rfl, hmore⟩
      · exact .inl hlost
      · refine .inr ⟨first + more, by rw [Spot.move_move], ?_⟩
        rw [← Spot.move_move]
        exact mem_ends_repeated.mpr ((mem_ends_repeated.mp hfirst).tail
          ⟨hmore, length_after_move_lt .stubbed hstep.2⟩)

/-- The start of the text is found again. -/
theorem carries_textStart : Carries lost textStart := by
  intro s _ d hd
  obtain ⟨hstart, rfl⟩ : (s.cursor .created).before.isEmpty = true ∧ d = s.cursor .created :=
    eq_of_mem_condition hd
  refine .inr ⟨0, rfl, ?_⟩
  have hempty : (s.cursor .stubbed).before.isEmpty = true := by
    rw [← hstart, Spot.cursor, Spot.cursor]
    exact (isEmpty_fill Filling.stubbed.isSlotWord_reverse _).trans
      (isEmpty_fill Filling.created.isSlotWord_reverse _).symm
  rw [ends_textStart, if_pos hempty]
  exact List.mem_singleton.mpr rfl

/-- So is its end. -/
theorem carries_textEnd : Carries lost textEnd := by
  intro s _ d hd
  obtain ⟨hend, rfl⟩ : (s.cursor .created).after.isEmpty = true ∧ d = s.cursor .created :=
    eq_of_mem_condition hd
  refine .inr ⟨0, rfl, ?_⟩
  have hempty : (s.cursor .stubbed).after.isEmpty = true := by
    rw [← hend, Spot.cursor, Spot.cursor]
    exact (isEmpty_fill Filling.stubbed.isSlotWord_word _).trans
      (isEmpty_fill Filling.created.isSlotWord_word _).symm
  rw [ends_textEnd, if_pos hempty]
  exact List.mem_singleton.mpr rfl

/-- A character that does not begin the word of a slot. -/
theorem carries_one (h : Filling.created.word.head?.any accepts = false) :
    Carries lost (one accepts) := by
  intro s _ d hd
  obtain ⟨x, hx, hpass⟩ := mem_ends_one.mp hd
  have hafter := hpass.after
  cases hitems : s.after with
  | nil =>
    rw [Spot.cursor, hitems] at hafter
    cases hafter
  | cons item rest =>
    rw [Spot.cursor, hitems] at hafter
    cases item with
    | none =>
      obtain ⟨c, more, hword⟩ := List.exists_cons_of_ne_nil Filling.created.isSlotWord_word.nonempty
      rw [fill_none, hword] at hafter
      obtain ⟨rfl, -⟩ := List.cons.inj hafter
      rw [hword] at h
      exact absurd hx (by simpa using h)
    | some c =>
      obtain ⟨rfl, -⟩ := List.cons.inj hafter
      have hone (f : Filling) : (s.cursor f).Passes [c] ((s.move 1).cursor f) := by
        have hmove := s.passes_move f 1
        rwa [hitems] at hmove
      exact .inr ⟨1, hpass.unique (hone .created), mem_ends_one.mpr ⟨c, hx, hone .stubbed⟩⟩

/-- A run that may pass the words of slots. -/
theorem carries_run (h : Ignores accepts true) : Carries Cursor.InWord (run accepts) := by
  intro s _ d hd
  obtain ⟨stretch, hstretch, hpass⟩ := mem_ends_run.mp hd
  rcases arrives_of_passes hpass with ⟨count, rfl, rfl⟩ | ⟨_, _, _, -, -, -, -, -, hinside⟩
  · exact .inr ⟨count, rfl, mem_ends_run.mpr
      ⟨_, forall_mem_fill h .stubbed hstretch, s.passes_move .stubbed count⟩⟩
  · exact .inl hinside

/-- A name is as good with the other word in the place of a slot's. -/
theorem carries_name : Carries Cursor.InWord (.seq (one CharClass.isWord) wordRun) := by
  have hword : Ignores CharClass.isWord true := by decide
  intro s _ d hd
  obtain ⟨x, more, hx, hmore, hpass⟩ := mem_ends_one_run.mp hd
  rcases arrives_of_passes hpass with ⟨count, rfl, hitems⟩ | ⟨_, _, _, -, -, -, -, -, hinside⟩
  · have hall : ∀ c ∈ fill Filling.created.word (s.after.take count),
        CharClass.isWord c = true := by
      rw [← hitems]
      exact List.forall_mem_cons.mpr ⟨hx, hmore⟩
    have hnonempty : s.after.take count ≠ [] := by
      intro hnil
      rw [hnil] at hitems
      cases hitems
    obtain ⟨y, rest, hrest⟩ := List.exists_cons_of_ne_nil
      ((fill_eq_nil_iff Filling.stubbed.isSlotWord_word).not.mpr hnonempty)
    have hother := forall_mem_fill hword .stubbed hall
    have hpassOther := s.passes_move .stubbed count
    rw [hrest] at hother hpassOther
    obtain ⟨hy, hmoreOther⟩ := List.forall_mem_cons.mp hother
    exact .inr ⟨count, rfl, mem_ends_one_run.mpr ⟨y, rest, hy, hmoreOther, hpassOther⟩⟩
  · exact .inl hinside

/-- A name that does not begin like the word of a slot comes to none. -/
theorem carries_name_of_rejects (hfirst : ∀ c, accepts c = true → CharClass.isWord c = true)
    (h : Filling.created.word.head?.any accepts = false) :
    Carries never (.seq (one accepts) wordRun) := by
  intro s hs d hd
  obtain ⟨x, more, hx, hmore, hpass⟩ := mem_ends_one_run.mp hd
  have hall : ∀ c ∈ x :: more, CharClass.isWord c = true :=
    List.forall_mem_cons.mpr ⟨hfirst x hx, hmore⟩
  -- no slot is reached: the name would begin with its word, or hold the dot before it
  have hslot {n : Nat} {rest : Text} (hat : (s.move n).AtSlot)
      (hsplit : x :: more = fill Filling.created.word (s.after.take n) ++ rest)
      (hrest : rest.head? = Filling.created.word.head?) : False := by
    rcases take_of_atSlot hs hat with hnil | ⟨lead, c, hlead, hc⟩
    · rw [hnil, fill_nil, List.nil_append] at hsplit
      rw [← hrest, ← hsplit] at h
      exact absurd hx (by simpa using h)
    · have hmem : c ∈ x :: more := by
        rw [hsplit, hlead]
        simp
      have hword := hall c hmem
      rcases hc with rfl | rfl <;> exact absurd hword (by decide)
  rcases arrives_of_passes hpass with ⟨count, rfl, hitems⟩ | ⟨n, p, q, hat, hword, hp, -, hitems, -⟩
  · by_cases hmem : none ∈ s.after.take count
    · obtain ⟨n, rest, hat, htake⟩ := exists_slot_of_mem hmem
      have hsplit : x :: more = fill Filling.created.word (s.after.take n) ++
          (Filling.created.word ++ fill Filling.created.word rest) := by
        rw [hitems, htake, fill_append, fill_none]
      exact (hslot hat hsplit rfl).elim
    · obtain ⟨text, htext⟩ := exists_map_some_of_none_notMem hmem
      have hpassOther := s.passes_move .stubbed count
      rw [htext, fill_map_some] at hitems hpassOther
      exact .inr ⟨count, rfl, mem_ends_one_run.mpr ⟨x, more, hx, hmore, hitems ▸ hpassOther⟩⟩
  · refine absurd (hslot hat hitems ?_) id
    rw [hword, List.head?_append_of_ne_nil _ hp]

/-! ### Fixed words -/

/-- What stands between two dots may begin behind these characters. -/
def leads (before : Text) : Bool :=
  before.getLast?.all fun c => c == '.' || c == '&'

/-- Nowhere a slot may stand does the text go on with the word of one. -/
def HidesName (chars : Text) : Prop :=
  ∀ n ≤ chars.length, leads (chars.take n) = true → ¬Filling.created.word <+: chars.drop n

/-- Nowhere a slot may stand is the rest of the text the beginning of its word. -/
def AvoidsName (chars : Text) : Prop :=
  ∀ n < chars.length, leads (chars.take n) = true → ¬chars.drop n <+: Filling.created.word

instance (chars : Text) : Decidable (HidesName chars) :=
  inferInstanceAs (Decidable (∀ n ≤ chars.length, _))

instance (chars : Text) : Decidable (AvoidsName chars) :=
  inferInstanceAs (Decidable (∀ n < chars.length, _))

/-- A fixed word that holds the word of a slot holds it behind what leads there. -/
theorem leads_take_of_atSlot {s : Spot} (hs : IsLinked s.whole) {n : Nat}
    (hat : (s.move n).AtSlot) {rest : Text}
    (hchars : chars = fill Filling.created.word (s.after.take n) ++ rest) :
    ∃ i, i + rest.length = chars.length ∧ leads (chars.take i) = true ∧ chars.drop i = rest := by
  refine ⟨(fill Filling.created.word (s.after.take n)).length, ?_, ?_, ?_⟩
  · rw [hchars, List.length_append]
  · rw [hchars, List.take_left]
    rcases take_of_atSlot hs hat with hnil | ⟨lead, c, hlead, hc⟩
    · rw [hnil]
      rfl
    · rw [hlead, fill_append, leads, fill_some, fill_nil, List.getLast?_concat]
      rcases hc with rfl | rfl <;> rfl
  · rw [hchars, List.drop_left]

/-- Items that spell a fixed word hold no slot. -/
theorem mem_ends_literal_stubbed (h : HidesName chars) {s : Spot} (hs : IsLinked s.whole)
    {count : Nat} (hitems : chars = fill Filling.created.word (s.after.take count)) :
    (s.move count).cursor .stubbed ∈ (literal chars).ends (s.cursor .stubbed) := by
  by_cases hmem : none ∈ s.after.take count
  · obtain ⟨n, rest, hat, htake⟩ := exists_slot_of_mem hmem
    rw [htake, fill_append, fill_none] at hitems
    obtain ⟨i, hlength, hleads, hdrop⟩ := leads_take_of_atSlot hs hat hitems
    refine absurd ?_ (h i (by omega) hleads)
    rw [hdrop]
    exact List.prefix_append _ _
  · obtain ⟨text, htext⟩ := exists_map_some_of_none_notMem hmem
    have hpass := s.passes_move .stubbed count
    rw [htext, fill_map_some] at hitems hpass
    exact mem_ends_literal.mpr (hitems ▸ hpass)

/-- A fixed word is lost where it ends inside the word of a slot. -/
theorem carries_literal (h : HidesName chars) : Carries Cursor.InWord (literal chars) := by
  intro s hs d hd
  rcases arrives_of_passes (mem_ends_literal.mp hd) with ⟨count, rfl, hitems⟩ |
    ⟨_, _, _, -, -, -, -, -, hinside⟩
  · exact .inr ⟨count, rfl, mem_ends_literal_stubbed h hs hitems⟩
  · exact .inl hinside

/-- A fixed word that does not end inside the word of a slot. -/
theorem carries_literal_of_avoids (h : HidesName chars) (havoids : AvoidsName chars) :
    Carries never (literal chars) := by
  intro s hs d hd
  rcases arrives_of_passes (mem_ends_literal.mp hd) with ⟨count, rfl, hitems⟩ |
    ⟨n, p, q, hat, hword, hp, -, hitems, -⟩
  · exact .inr ⟨count, rfl, mem_ends_literal_stubbed h hs hitems⟩
  · obtain ⟨i, hlength, hleads, hdrop⟩ := leads_take_of_atSlot hs hat hitems
    have hpos := List.length_pos_iff.mpr hp
    refine absurd ?_ (havoids i (by omega) hleads)
    rw [hdrop, hword]
    exact List.prefix_append _ _

/-! ### Searches -/

/-- What occurs in a linked template still occurs with the other word in its slots. -/
theorem Carries.occurs (h : Carries never p) (hwords : SkipsWords p) {s : Spot}
    (hs : IsLinked s.whole) (hoccurs : p.occurs (s.cursor .created) = true) :
    p.occurs (s.cursor .stubbed) = true := by
  obtain ⟨stretch, d, hpass, hends⟩ := occurs_iff.mp hoccurs
  rcases arrives_of_passes hpass with ⟨count, rfl, -⟩ | ⟨_, _, _, -, -, -, -, -, hinside⟩
  · obtain ⟨e, he⟩ := List.exists_mem_of_ne_nil _ hends
    rcases h (s.move count) (by rwa [Spot.whole_move]) e he with hlost | ⟨more, -, hmore⟩
    · exact absurd hlost id
    · exact occurs_iff.mpr ⟨_, _, s.passes_move .stubbed count, List.ne_nil_of_mem hmore⟩
  · exact absurd (hwords d hinside.1 hinside.2) hends

end Pattern

end FactoryDowngrade
