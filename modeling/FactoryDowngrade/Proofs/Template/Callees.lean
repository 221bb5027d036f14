import FactoryDowngrade.Evidence.Detector
import FactoryDowngrade.Proofs.Template.Carries

/-!
# Callees on templates

A lookup or a boundary is told by the outline of its callee. In the outline of a chain a slot is a
call step of its own, so what was a lookup or a boundary before the words were replaced still is
one, unless one of the configured endings holds the replaced word.
-/

namespace FactoryDowngrade

open Template

namespace Pattern

variable {p q : Pattern}

/-- A pattern that does not leave a word. -/
def StaysInWord (p : Pattern) : Prop :=
  ∀ c : Cursor, c.InWord → ∀ d ∈ p.ends c, d.InWord

/-- What fits nowhere inside a word does not leave one. -/
theorem SkipsWords.stays (h : SkipsWords p) : StaysInWord p := fun c hc d hd => by
  rw [h c hc.1 hc.2] at hd
  cases hd

/-- Taking nothing does not leave a word. -/
theorem staysInWord_empty : StaysInWord empty := fun _ hc _ hd =>
  List.mem_singleton.mp hd ▸ hc

/-- Two patterns that stay in a word do so one after the other. -/
theorem StaysInWord.seq (hp : StaysInWord p) (hq : StaysInWord q) : StaysInWord (seq p q) :=
  fun c hc d hd => by
    obtain ⟨e, he, hd⟩ := mem_ends_seq.mp hd
    exact hq e (hp c hc e he) d hd

/-- A pattern that stays in a word may be left out. -/
theorem StaysInWord.maybe (hp : StaysInWord p) : StaysInWord (maybe p) := fun c hc d hd =>
  (List.mem_append.mp hd).elim (hp c hc d) (staysInWord_empty c hc d)

/-- Neither does the repetition of what fits nowhere inside a word. -/
theorem SkipsWords.repeated (hp : SkipsWords p) : StaysInWord (repeated p) := fun c hc d hd => by
  rcases (Relation.ReflTransGen.cases_head_iff.mp (mem_ends_repeated.mp hd)) with
    rfl | ⟨e, hstep, -⟩
  · exact hc
  · have hnone := hstep.1
    rw [hp c hc.1 hc.2] at hnone
    cases hnone

/-- No text starts inside a word. -/
theorem skipsWords_textStart : SkipsWords textStart := fun c hfollows _ => by
  obtain ⟨before, after⟩ := c
  cases before with
  | nil => cases hfollows
  | cons x before => rfl

/-- And none ends there. -/
theorem skipsWords_textEnd : SkipsWords textEnd := fun c _ hprecedes => by
  obtain ⟨before, after⟩ := c
  cases after with
  | nil => cases hprecedes
  | cons x after => rfl

/-- A literal that begins with no word character fits nowhere inside a word. -/
theorem skipsWords_literal {c : Char} (hc : CharClass.isWord c = false) (chars : Text) :
    SkipsWords (literal (c :: chars)) := by
  have hchar : SkipsWords (char c) := skipsWords_one fun d hd => by rwa [eq_of_beq hd]
  exact hchar.seq (literal chars)

/-- Behind what stays in a word nothing fits that fits nowhere inside one. -/
theorem StaysInWord.seq_of_skipsWords (hp : StaysInWord p) (hq : SkipsWords q) :
    SkipsWords (.seq p q) := fun c hfollows hprecedes => by
  rw [List.eq_nil_iff_forall_not_mem]
  intro e he
  obtain ⟨d, hd, he⟩ := mem_ends_seq.mp he
  have hinside := hp c ⟨hfollows, hprecedes⟩ d hd
  rw [hq d hinside.1 hinside.2] at he
  cases he

/-- A match that was lost inside a word goes no further. -/
theorem Carries.seq_of_skipsWords {lost : Cursor → Prop} (hp : Carries Cursor.InWord p)
    (hq : Carries lost q) (hskips : SkipsWords q) : Carries lost (.seq p q) :=
  hp.seq hq fun d hd e he => by
    rw [hskips d hd.1 hd.2] at he
    cases he

/-- A match that was lost inside a word is not at the end of the text. -/
theorem Carries.textEnd (h : Carries Cursor.InWord p) :
    Carries never (.seq p (.seq textEnd empty)) :=
  h.seq_of_skipsWords (carries_textEnd.seq_of_never carries_empty) (skipsWords_textEnd.seq empty)

end Pattern

namespace Callee

open Pattern

/-- The name of a constant is found again when the other word fills the slots. -/
theorem carries_constant : Carries never constant :=
  carries_name_of_rejects (fun _ => CharClass.isWord_of_isUpper) (by decide)

/-- So is a dot. -/
theorem carries_dot {lost : Cursor → Prop} : Carries lost (.char '.') :=
  carries_one (by decide)

/-- No dot stands inside a word. -/
theorem skipsWords_dot : SkipsWords (.char '.') :=
  skipsWords_one fun c hc => by rw [eq_of_beq hc]; decide

/-- A step of a chain is found again unless it ends inside a word. -/
theorem carries_step : Carries Cursor.InWord step := by
  have hmark : Carries Cursor.InWord (.seq (.maybe (.anyOf "?!")) .empty) :=
    (carries_one (by decide)).maybe.seq_of_never carries_empty
  have hwords : SkipsWords (.anyOf "?!") := skipsWords_one fun c hc => by
    have hmem : c = '?' ∨ c = '!' := by simpa using hc
    rcases hmem with rfl | rfl <;> decide
  have hname : Carries Cursor.InWord
      (.seq (.seq (.one CharClass.isWord) .wordRun) (.seq (.maybe (.anyOf "?!")) .empty)) :=
    carries_name.seq hmark (hwords.stays.maybe.seq staysInWord_empty)
  exact carries_dot.seq_of_never hname.assoc

/-- No step begins inside a word. -/
theorem skipsWords_step : SkipsWords step :=
  skipsWords_dot.seq _

/-- One of some fixed words that reach into no slot. -/
theorem carries_wordIn {first : String} {rest : List String}
    (h : ∀ chars ∈ (first :: rest).map String.toList, HidesName chars ∧ AvoidsName chars) :
    Carries never (wordIn (first :: rest)) := by
  refine carries_choice fun p hp => ?_
  rw [← List.map_cons, List.mem_map] at hp
  obtain ⟨chars, hchars, rfl⟩ := hp
  exact carries_literal_of_avoids (h chars hchars).1 (h chars hchars).2

/-- A fixed word that reaches into no slot. -/
theorem carries_word {chars : String} (h : HidesName chars.toList ∧ AvoidsName chars.toList) :
    Carries never (.word chars) :=
  carries_literal_of_avoids h.1 h.2

/-- A fixed beginning of a name, with the rest of the name behind it. -/
theorem carries_word_name {chars : String}
    (h : HidesName chars.toList ∧ AvoidsName chars.toList) :
    Carries Cursor.InWord (.chain [.word chars, .one CharClass.isWord, .wordRun]) :=
  (carries_word h).seq_of_never (carries_name.seq carries_empty staysInWord_empty).assoc

/-! ### Lookups -/

/-- A lookup in the storage stays one when the other word fills the slots. -/
theorem carries_storageLookup : Carries never storageLookup := by
  have hcolons : Carries never (.word "::") := carries_word (by decide)
  have hskips : SkipsWords (.seq (.word "::") constant) :=
    (skipsWords_literal (c := ':') (by decide) [':']).seq constant
  have hpath : Carries Cursor.InWord
      (.seq constant (.repeated (.seq (.word "::") constant))) :=
    carries_constant.seq_of_never
      ((hcolons.seq_of_never carries_constant).toInWord.repeated hskips)
  have hdescribed : Carries never (.word "described_class") := carries_word (by decide)
  have hsteps : Carries Cursor.InWord (.repeated step) := carries_step.repeated skipsWords_step
  have hlookups : Carries never (wordIn lookups) := carries_wordIn (by decide)
  have hnamed : Carries Cursor.InWord
      (.chain [.word "find_by_", .one CharClass.isWord, .wordRun]) :=
    carries_word_name (by decide)
  have hlast := carries_dot.seq_of_never (hlookups.toInWord.either hnamed).textEnd
  have hdotted := hsteps.seq_of_skipsWords hlast (skipsWords_dot.seq _)
  exact carries_textStart.seq_of_never ((hpath.either hdescribed.toInWord).seq_of_skipsWords hdotted
    (skipsWords_step.repeated.seq_of_skipsWords (skipsWords_dot.seq _)))

/-! ### Boundaries -/

/-- None of the endings holds the word of a slot where a call step may begin. -/
def HideName (endings : List Text) : Prop :=
  ∀ ending ∈ endings, HidesName ending

instance (endings : List Text) : Decidable (HideName endings) :=
  inferInstanceAs (Decidable (∀ ending ∈ endings, HidesName ending))

/-- A name with one of some endings is found again unless it ends inside a word, if no ending holds
the word of a slot. -/
theorem carries_nameIn {endings : List Text} (h : HideName endings) :
    Carries Cursor.InWord (nameIn endings) := by
  cases endings with
  | nil =>
    intro s _ d hd
    cases hd
  | cons first rest =>
    refine carries_choice fun p hp => ?_
    rw [← List.map_cons, List.mem_map] at hp
    obtain ⟨chars, hchars, rfl⟩ := hp
    exact carries_literal (h chars hchars)

/-- So is a class whose name ends so. -/
theorem carries_classEnding {endings : List Text} (h : HideName endings) :
    Carries Cursor.InWord (classEnding endings) := by
  have hcolons : Carries never (.word "::") := carries_word (by decide)
  have hrun : Carries Cursor.InWord (.run fun c => CharClass.isWord c || c == ':') :=
    carries_run (by decide)
  have hpath := (hrun.seq_of_skipsWords hcolons
    (skipsWords_literal (c := ':') (by decide) [':'])).maybe
  exact carries_textStart.seq_of_never (hpath.seq_of_never (carries_constant.maybe.seq_of_never
    ((carries_nameIn h).seq carries_empty staysInWord_empty)))

/-- The call of a job stays one. -/
theorem carries_jobBoundary {suffixes : Suffixes} (h : HideName (jobEndings ++ suffixes.jobs)) :
    Carries never (jobBoundary suffixes) := by
  have hmade : Carries never (wordIn [".set", ".new"]) := carries_wordIn (by decide)
  have hdispatches : Carries never (wordIn dispatches) := carries_wordIn (by decide)
  have hskips : SkipsWords (wordIn [".set", ".new"]) :=
    (skipsWords_literal (c := '.') (by decide) ['s', 'e', 't']).either
      (skipsWords_literal (c := '.') (by decide) ['n', 'e', 'w'])
  exact (carries_classEnding h).seq_of_skipsWords
    (hmade.maybe.seq_of_never (carries_dot.seq_of_never hdispatches.toInWord.textEnd))
    (hskips.stays.maybe.seq_of_skipsWords (skipsWords_dot.seq _))

/-- So does that of a service. -/
theorem carries_serviceBoundary {suffixes : Suffixes}
    (h : HideName (serviceEndings ++ suffixes.services)) :
    Carries never (serviceBoundary suffixes) := by
  have hmade : Carries never (.word ".new") := carries_word (by decide)
  have hcalls : Carries never (wordIn serviceCalls) := carries_wordIn (by decide)
  have hskips : SkipsWords (.word ".new") :=
    skipsWords_literal (c := '.') (by decide) ['n', 'e', 'w']
  exact (carries_classEnding h).seq_of_skipsWords
    (hmade.maybe.seq_of_never (carries_dot.seq_of_never hcalls.toInWord.textEnd))
    (hskips.stays.maybe.seq_of_skipsWords (skipsWords_dot.seq _))

/-- So does that of a mailer. -/
theorem carries_mailerBoundary : Carries never mailerBoundary := by
  have hmailer : HideName ["Mailer".toList] := by
    rw [HideName, List.forall_mem_singleton]
    decide
  have hwith : Carries never (.word ".with") := carries_word (by decide)
  have hskips : SkipsWords (.word ".with") :=
    skipsWords_literal (c := '.') (by decide) ['w', 'i', 't', 'h']
  exact (carries_classEnding hmailer).seq_of_skipsWords
    (hwith.maybe.seq_of_never carries_step.textEnd)
    (hskips.stays.maybe.seq_of_skipsWords (skipsWords_step.seq _))

/-- So does a matcher for what is enqueued. -/
theorem carries_enqueueMatcher : Carries never enqueueMatcher := by
  have hwith : Carries never (.word ".with") := carries_word (by decide)
  have hskips : SkipsWords (.word ".with") :=
    skipsWords_literal (c := '.') (by decide) ['w', 'i', 't', 'h']
  have hnames : Carries Cursor.InWord (.choice
      (.chain [.word "have_enqueued_", .one CharClass.isWord, .wordRun]) [
        .word "have_been_enqueued",
        .chain [.word "enqueue_", .one CharClass.isWord, .wordRun],
        .word "have_enqueued_sidekiq_job"]) := by
    refine carries_choice fun p hp => ?_
    simp only [List.mem_cons, List.not_mem_nil, or_false] at hp
    rcases hp with rfl | rfl | rfl | rfl
    · exact carries_word_name (by decide)
    · exact (carries_word (by decide)).toInWord
    · exact carries_word_name (by decide)
    · exact (carries_word (by decide)).toInWord
  have hlast := carries_step.repeated skipsWords_step |>.seq_of_skipsWords hwith.toInWord.textEnd
    (hskips.seq _)
  exact (carries_textStart.either carries_dot).seq_of_never (hnames.seq_of_skipsWords hlast
    (skipsWords_step.repeated.seq_of_skipsWords (hskips.seq _)))

/-! ### Callees of both fillings -/

/-- Endings none of which holds the word of a slot where a call step may begin. -/
def SuffixesHideName (suffixes : Suffixes) : Prop :=
  HideName (suffixes.jobs ++ suffixes.services)

instance (suffixes : Suffixes) : Decidable (SuffixesHideName suffixes) :=
  inferInstanceAs (Decidable (HideName _))

variable {callee : Template}

/-- The outline of a filled callee is the filling of the outline of its items. -/
theorem start_outline (callee : Template) (f : Filling) :
    Cursor.start (Receiver.outline (fill f.word callee)) =
      (Spot.start (outlineItems 0 callee)).cursor f := by
  rw [Receiver.outline, dropGroups_fill f.isSlotWord_word, Spot.cursor_start]

/-- What occurs in the outline of a callee still occurs with the other word in its slots. -/
theorem occurs_outline {p : Pattern} (h : Carries never p) (hwords : SkipsWords p)
    (hlinked : IsLinked (outlineItems 0 callee))
    (hoccurs :
      p.occurs (Cursor.start (Receiver.outline (fill Filling.created.word callee))) = true) :
    p.occurs (Cursor.start (Receiver.outline (fill Filling.stubbed.word callee))) = true := by
  rw [start_outline] at hoccurs ⊢
  exact h.occurs hwords hlinked hoccurs

/-- A lookup stays one. -/
theorem isStorageLookup_stubbed (hlinked : IsLinked (outlineItems 0 callee))
    (h : isStorageLookup (fill Filling.created.word callee) = true) :
    isStorageLookup (fill Filling.stubbed.word callee) = true := by
  rw [isStorageLookup, start_outline, occursAt, Bool.not_eq_true', List.isEmpty_eq_false_iff]
    at h ⊢
  obtain ⟨d, hd⟩ := List.exists_mem_of_ne_nil _ h
  rcases carries_storageLookup (Spot.start _) hlinked d hd with hlost | ⟨count, -, hmem⟩
  · exact absurd hlost id
  · exact List.ne_nil_of_mem hmem

/-- A boundary stays one. -/
theorem isBoundary_stubbed {suffixes : Suffixes} (hsuffixes : SuffixesHideName suffixes)
    (hlinked : IsLinked (outlineItems 0 callee))
    (h : isBoundary suffixes (fill Filling.created.word callee) = true) :
    isBoundary suffixes (fill Filling.stubbed.word callee) = true := by
  have hjobs : HideName (jobEndings ++ suffixes.jobs) := by
    have husual : HideName jobEndings := by decide
    exact fun ending hending => (List.mem_append.mp hending).elim (husual ending)
      fun hmem => hsuffixes ending (List.mem_append_left _ hmem)
  have hservices : HideName (serviceEndings ++ suffixes.services) := by
    have husual : HideName serviceEndings := by decide
    exact fun ending hending => (List.mem_append.mp hending).elim (husual ending)
      fun hmem => hsuffixes ending (List.mem_append_right _ hmem)
  have hclass {endings : List Text} {q : Pattern} : SkipsWords (.seq (classEnding endings) q) :=
    (skipsWords_textStart.seq _).seq q
  rw [isBoundary, List.any_eq_true] at h ⊢
  obtain ⟨p, hp, hoccurs⟩ := h
  refine ⟨p, hp, ?_⟩
  simp only [List.mem_cons, List.not_mem_nil, or_false] at hp
  rcases hp with rfl | rfl | rfl | rfl
  · exact occurs_outline (carries_jobBoundary hjobs) hclass hlinked hoccurs
  · exact occurs_outline (carries_serviceBoundary hservices) hclass hlinked hoccurs
  · exact occurs_outline carries_mailerBoundary hclass hlinked hoccurs
  · exact occurs_outline carries_enqueueMatcher
      ((skipsWords_textStart.either skipsWords_dot).seq _) hlinked hoccurs

end Callee

end FactoryDowngrade
