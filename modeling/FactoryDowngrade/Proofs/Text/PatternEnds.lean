import FactoryDowngrade.Proofs.Text.Passage
import Mathlib.Logic.Relation

/-!
# Where patterns end

Each pattern constructor says which stretches it passes: one accepted character, a run of them, or
one part after the other. Conditions on what stands around a place pass nothing. In every case a
match only moves forward.
-/

namespace FactoryDowngrade

namespace Pattern

open Cursor

variable {c d : Cursor}

/-- A run may end behind any number of accepted characters. -/
theorem mem_runPlaces {accepts : Char → Bool} {before after : Text} :
    d ∈ runPlaces accepts before after ↔
      ∃ stretch, (∀ x ∈ stretch, accepts x = true) ∧ Passes ⟨before, after⟩ stretch d := by
  induction after generalizing before with
  | nil =>
    rw [runPlaces, List.mem_singleton]
    constructor
    · rintro rfl
      exact ⟨[], by simp, .refl _⟩
    · rintro ⟨stretch, -, hpass⟩
      exact (Passes.ending_iff.mp hpass).2
  | cons x after ih =>
    rw [runPlaces, List.mem_cons]
    constructor
    · rintro (rfl | h)
      · exact ⟨[], by simp, .refl _⟩
      · split at h
        · rename_i hx
          obtain ⟨stretch, haccepts, hpass⟩ := ih.mp h
          exact ⟨x :: stretch, by simpa [hx] using haccepts, Passes.head.trans hpass⟩
        · simp at h
    · rintro ⟨stretch, haccepts, hpass⟩
      obtain ⟨-, hd⟩ | ⟨rest, rfl, hrest⟩ := Passes.cons_iff.mp hpass
      · exact .inl hd
      · rw [if_pos (haccepts x List.mem_cons_self)]
        exact .inr (ih.mpr ⟨rest, fun y hy => haccepts y (List.mem_cons_of_mem _ hy), hrest⟩)

/-- A run of characters passes accepted characters only. -/
theorem mem_ends_run {accepts : Char → Bool} :
    d ∈ (run accepts).ends c ↔
      ∃ stretch, (∀ x ∈ stretch, accepts x = true) ∧ c.Passes stretch d := by
  rw [ends_run, List.mem_reverse, mem_runPlaces]

/-- A character pattern passes one accepted character. -/
theorem mem_ends_one {accepts : Char → Bool} :
    d ∈ (one accepts).ends c ↔ ∃ x, accepts x = true ∧ c.Passes [x] d := by
  obtain ⟨before, after⟩ := c
  cases after with
  | nil =>
    simp only [ends_one, List.not_mem_nil, false_iff, not_exists, not_and]
    intro x _ hpass
    exact absurd hpass.after (by simp)
  | cons y after =>
    by_cases hy : accepts y = true
    · simp only [ends_one, hy, if_true, List.mem_singleton]
      constructor
      · rintro rfl
        exact ⟨y, hy, .head⟩
      · rintro ⟨x, -, hpass⟩
        obtain ⟨rfl, -⟩ := List.cons.inj hpass.after
        exact hpass.unique .head
    · simp only [ends_one]
      rw [if_neg hy]
      simp only [List.not_mem_nil, false_iff, not_exists, not_and]
      intro x hx hpass
      obtain ⟨rfl, -⟩ := List.cons.inj hpass.after
      exact hy hx

/-- The second part begins where the first one ends. -/
theorem mem_ends_seq {p q : Pattern} :
    d ∈ (seq p q).ends c ↔ ∃ e ∈ p.ends c, d ∈ q.ends e := by
  simp [ends_seq, List.mem_flatMap]

/-- The first two of three parts may be taken one by one. -/
theorem ends_seq_assoc (p q r : Pattern) (c : Cursor) :
    (seq (seq p q) r).ends c = (seq p (seq q r)).ends c :=
  List.flatMap_assoc

/-- The parts of a chain with something behind it may be taken one by one. -/
theorem ends_chain_seq (parts : List Pattern) (q : Pattern) (c : Cursor) :
    (seq (chain parts) q).ends c = (parts.foldr seq q).ends c := by
  induction parts generalizing c with
  | nil => exact List.flatMap_singleton _ _
  | cons p parts ih =>
    have hrest : (seq (chain parts) q).ends = (parts.foldr seq q).ends := funext ih
    have hassoc := ends_seq_assoc p (chain parts) q c
    rwa [ends_seq p, hrest] at hassoc

/-- A character with a run behind it passes both. -/
theorem mem_ends_one_run {first accepts : Char → Bool} :
    d ∈ (seq (one first) (run accepts)).ends c ↔ ∃ x more, first x = true ∧
      (∀ y ∈ more, accepts y = true) ∧ c.Passes (x :: more) d := by
  rw [mem_ends_seq]
  constructor
  · rintro ⟨e, he, hd⟩
    obtain ⟨x, hx, hone⟩ := mem_ends_one.mp he
    obtain ⟨more, hmore, hrun⟩ := mem_ends_run.mp hd
    exact ⟨x, more, hx, hmore, hone.trans hrun⟩
  · rintro ⟨x, more, hx, hmore, hpass⟩
    have hboth : c.Passes ([x] ++ more) d := hpass
    obtain ⟨e, hone, hrun⟩ := hboth.split
    exact ⟨e, mem_ends_one.mpr ⟨x, hx, hone⟩, mem_ends_run.mpr ⟨more, hmore, hrun⟩⟩

/-- A fixed word passes its own characters. -/
theorem mem_ends_literal {chars : Text} : d ∈ (literal chars).ends c ↔ c.Passes chars d := by
  induction chars generalizing c with
  | nil =>
    simp only [literal, List.foldr_nil, ends_empty, List.mem_singleton]
    exact ⟨fun h => h ▸ .refl c, fun h => h.unique (.refl c)⟩
  | cons x chars ih =>
    change d ∈ (seq (char x) (literal chars)).ends c ↔ _
    rw [mem_ends_seq]
    constructor
    · rintro ⟨e, he, hd⟩
      obtain ⟨y, hy, hpass⟩ := mem_ends_one.mp he
      obtain rfl : y = x := by simpa using hy
      exact hpass.trans (ih.mp hd)
    · intro h
      obtain ⟨before, after⟩ := c
      obtain rfl : after = x :: (chars ++ d.after) := h.after
      refine ⟨⟨x :: before, chars ++ d.after⟩, mem_ends_one.mpr ⟨x, by simp, .head⟩, ?_⟩
      exact ih.mpr ⟨rfl, by simpa using h.before⟩

/-- A given character is passed. -/
theorem mem_ends_char {x : Char} : d ∈ (char x).ends c ↔ c.Passes [x] d := by
  rw [char, mem_ends_one]
  constructor
  · rintro ⟨y, hy, hpass⟩
    exact eq_of_beq hy ▸ hpass
  · exact fun hpass => ⟨x, beq_self_eq_true x, hpass⟩

/-- What may be left out is passed, or nothing is. -/
theorem mem_ends_maybe {p : Pattern} : d ∈ (maybe p).ends c ↔ d ∈ p.ends c ∨ d = c := by
  rw [maybe, ends_either, List.mem_append, ends_empty, List.mem_singleton]

/-- A stretch of a repetition that takes a character. -/
def Repeats (p : Pattern) (c d : Cursor) : Prop :=
  d ∈ p.ends c ∧ d.after.length < c.after.length

/-- The places that are listed for a repetition are those behind any number of stretches, if the
limit is no less than what is ahead. -/
theorem mem_repeatPlaces_iff {p : Pattern} {limit : Nat} (hlimit : c.after.length ≤ limit) :
    d ∈ repeatPlaces p.ends limit c ↔ Relation.ReflTransGen p.Repeats c d := by
  induction limit generalizing c with
  | zero =>
    rw [repeatPlaces, List.mem_singleton, Relation.ReflTransGen.cases_head_iff]
    constructor
    · rintro rfl
      exact .inl rfl
    · rintro (rfl | ⟨e, ⟨-, hshorter⟩, -⟩)
      · rfl
      · omega
  | succ limit ih =>
    rw [repeatPlaces, List.mem_append, List.mem_singleton, List.mem_flatMap,
      Relation.ReflTransGen.cases_head_iff]
    constructor
    · rintro (⟨e, he, hd⟩ | rfl)
      · obtain ⟨hmem, hshorter⟩ := List.mem_filter.mp he
        rw [decide_eq_true_eq] at hshorter
        exact .inr ⟨e, ⟨hmem, hshorter⟩, (ih (by omega)).mp hd⟩
      · exact .inl rfl
    · rintro (rfl | ⟨e, ⟨hmem, hshorter⟩, hd⟩)
      · exact .inr rfl
      · exact .inl ⟨e, List.mem_filter.mpr ⟨hmem, decide_eq_true hshorter⟩,
          (ih (by omega)).mpr hd⟩

/-- A repetition ends behind any number of stretches that each take a character. -/
theorem mem_ends_repeated {p : Pattern} :
    d ∈ (repeated p).ends c ↔ Relation.ReflTransGen p.Repeats c d :=
  mem_repeatPlaces_iff (Nat.le_refl _)

/-- A condition that holds ends where it is asked. -/
theorem eq_of_mem_condition {condition : Prop} [Decidable condition]
    (h : d ∈ if condition then [c] else []) : condition ∧ d = c := by
  split at h
  · exact ⟨by assumption, List.mem_singleton.mp h⟩
  · simp at h

/-- A character is refused where it does not come next. -/
theorem mem_ends_notBefore {refused : Char → Bool} :
    d ∈ (notBefore refused).ends c ↔ c.precedes refused = false ∧ d = c := by
  obtain ⟨before, after⟩ := c
  cases after with
  | nil => simp [notBefore, ends_notAhead, ends_one, precedes]
  | cons x after => cases hx : refused x <;> simp [notBefore, ends_notAhead, ends_one, precedes, hx]

/-- A pattern matches where it has an end. -/
theorem occursAt_iff {p : Pattern} : p.occursAt c = true ↔ ∃ d, d ∈ p.ends c := by
  rw [occursAt, Bool.not_eq_true', List.isEmpty_eq_false_iff_exists_mem]

/-- Every match of a pattern passes a stretch. -/
theorem passes_of_mem_ends {p : Pattern} (h : d ∈ p.ends c) : ∃ stretch, c.Passes stretch d := by
  induction p generalizing c d with
  | empty => exact ⟨[], List.mem_singleton.mp h ▸ .refl c⟩
  | one accepts =>
    obtain ⟨x, -, hpass⟩ := mem_ends_one.mp h
    exact ⟨[x], hpass⟩
  | run accepts =>
    obtain ⟨stretch, -, hpass⟩ := mem_ends_run.mp h
    exact ⟨stretch, hpass⟩
  | seq p q ihp ihq =>
    obtain ⟨e, he, hd⟩ := mem_ends_seq.mp h
    obtain ⟨first, hfirst⟩ := ihp he
    obtain ⟨more, hmore⟩ := ihq hd
    exact ⟨first ++ more, hfirst.trans hmore⟩
  | either p q ihp ihq => exact (List.mem_append.mp h).elim ihp ihq
  | repeated body ih =>
    induction mem_ends_repeated.mp h with
    | refl => exact ⟨[], .refl c⟩
    | tail hreach hstep ihreach =>
      obtain ⟨first, hfirst⟩ := ihreach (mem_ends_repeated.mpr hreach)
      obtain ⟨more, hmore⟩ := ih hstep.1
      exact ⟨first ++ more, hfirst.trans hmore⟩
  | ahead body =>
    rw [ends_ahead, ← ite_not] at h
    exact ⟨[], (eq_of_mem_condition h).2 ▸ .refl c⟩
  | notAhead body => exact ⟨[], (eq_of_mem_condition h).2 ▸ .refl c⟩
  | notAfter refused =>
    rw [ends_notAfter, ← ite_not] at h
    exact ⟨[], (eq_of_mem_condition h).2 ▸ .refl c⟩
  | wordEdge => exact ⟨[], (eq_of_mem_condition h).2 ▸ .refl c⟩
  | lineStart => exact ⟨[], (eq_of_mem_condition h).2 ▸ .refl c⟩
  | textStart => exact ⟨[], (eq_of_mem_condition h).2 ▸ .refl c⟩
  | textEnd => exact ⟨[], (eq_of_mem_condition h).2 ▸ .refl c⟩

/-- A pattern occurs if it matches at a place that the search passes. -/
theorem occurs_iff {p : Pattern} :
    p.occurs c = true ↔ ∃ stretch d, c.Passes stretch d ∧ p.ends d ≠ [] := by
  rw [occurs, search?, isSome_first?_iff]
  simp only [match?, Option.isSome_map, ne_eq]
  constructor
  · rintro ⟨stretch, d, hpass, hd⟩
    refine ⟨stretch, d, hpass, ?_⟩
    rintro hnil
    rw [hnil] at hd
    cases hd
  · rintro ⟨stretch, d, hpass, hd⟩
    obtain ⟨e, rest, hends⟩ := List.exists_cons_of_ne_nil hd
    exact ⟨stretch, d, hpass, by rw [hends]; rfl⟩

/-! ### Whole runs -/

/-- The place behind the longest run of accepted characters. -/
def afterRun (accepts : Char → Bool) (c : Cursor) : Cursor :=
  ⟨(c.after.takeWhile accepts).reverse ++ c.before, c.after.dropWhile accepts⟩

/-- The longest run ends in front of the first character that is not accepted. -/
theorem afterRun_append {accepts : Char → Bool} {stretch rest : Text}
    (hstretch : ∀ x ∈ stretch, accepts x = true) (hrest : rest.head?.any accepts = false)
    (before : Text) :
    afterRun accepts ⟨before, stretch ++ rest⟩ = ⟨stretch.reverse ++ before, rest⟩ := by
  obtain ⟨htake, hdrop⟩ := takeWhile_append_stop hstretch hrest
  rw [afterRun]
  dsimp only
  rw [htake, hdrop]

/-- Read from the back, the places in a run begin with the one behind it, and at all others an
accepted character follows. -/
theorem exists_reverse_runPlaces (accepts : Char → Bool) (before after : Text) :
    ∃ shorter, (runPlaces accepts before after).reverse =
        afterRun accepts ⟨before, after⟩ :: shorter ∧
      ∀ d ∈ shorter, d.precedes accepts = true := by
  induction after generalizing before with
  | nil => exact ⟨[], rfl, by simp⟩
  | cons x after ih =>
    by_cases hx : accepts x = true
    · obtain ⟨shorter, hshorter, hall⟩ := ih (x :: before)
      refine ⟨shorter ++ [⟨before, x :: after⟩], ?_, fun d hd => ?_⟩
      · rw [runPlaces, if_pos hx, List.reverse_cons, hshorter]
        simp [afterRun, hx]
      · rcases List.mem_append.mp hd with hd | hd
        · exact hall d hd
        · obtain rfl := List.mem_singleton.mp hd
          exact hx
    · refine ⟨[], ?_, by simp⟩
      rw [runPlaces, if_neg hx]
      simp [afterRun, hx]

/-- The longest run comes first, and behind the shorter ones an accepted character follows. -/
theorem exists_ends_run (accepts : Char → Bool) (c : Cursor) :
    ∃ shorter, (run accepts).ends c = afterRun accepts c :: shorter ∧
      ∀ d ∈ shorter, d.precedes accepts = true :=
  exists_reverse_runPlaces accepts c.before c.after

/-- What cannot begin with an accepted character is only found behind the whole run. -/
theorem ends_run_seq {accepts : Char → Bool} {q : Pattern} {c : Cursor}
    (hq : ∀ d ∈ (run accepts).ends c, d.precedes accepts = true → q.ends d = []) :
    (seq (run accepts) q).ends c = q.ends (afterRun accepts c) := by
  obtain ⟨shorter, hends, hshorter⟩ := exists_ends_run accepts c
  have hnone : shorter.flatMap q.ends = [] := List.flatMap_eq_nil_iff.mpr fun d hd =>
    hq d (by rw [hends]; exact List.mem_cons_of_mem _ hd) (hshorter d hd)
  rw [ends_seq, hends, List.flatMap_cons, hnone, List.append_nil]

/-! ### What a pattern may pass -/

/-- Every match passes accepted characters only. -/
def PassesOnly (accepts : Char → Bool) (p : Pattern) : Prop :=
  ∀ c d, d ∈ p.ends c → ∃ stretch, (∀ x ∈ stretch, accepts x = true) ∧ c.Passes stretch d

section PassesOnly

variable {accepts accepts' : Char → Bool} {p q : Pattern}

/-- Nothing is passed over where nothing is taken. -/
theorem passesOnly_empty : PassesOnly accepts empty := fun c _ hd =>
  ⟨[], by simp, List.mem_singleton.mp hd ▸ .refl c⟩

/-- One character passes over what its class has. -/
theorem passesOnly_one (h : ∀ x, accepts' x = true → accepts x = true) :
    PassesOnly accepts (one accepts') := fun _ _ hd => by
  obtain ⟨x, hx, hpass⟩ := mem_ends_one.mp hd
  exact ⟨[x], by simpa using h x hx, hpass⟩

/-- So does a run. -/
theorem passesOnly_run (h : ∀ x, accepts' x = true → accepts x = true) :
    PassesOnly accepts (run accepts') := fun _ _ hd => by
  obtain ⟨stretch, hstretch, hpass⟩ := mem_ends_run.mp hd
  exact ⟨stretch, fun x hx => h x (hstretch x hx), hpass⟩

/-- A literal passes over its own characters. -/
theorem passesOnly_literal {chars : Text} (h : ∀ x ∈ chars, accepts x = true) :
    PassesOnly accepts (literal chars) := fun _ _ hd => ⟨chars, h, mem_ends_literal.mp hd⟩

/-- Two patterns one after the other pass over what both do. -/
theorem PassesOnly.seq (hp : PassesOnly accepts p) (hq : PassesOnly accepts q) :
    PassesOnly accepts (seq p q) := fun c d hd => by
  obtain ⟨e, he, hd⟩ := mem_ends_seq.mp hd
  obtain ⟨first, hfirst, hpass⟩ := hp c e he
  obtain ⟨more, hmore, hpass'⟩ := hq e d hd
  refine ⟨first ++ more, fun x hx => ?_, hpass.trans hpass'⟩
  exact (List.mem_append.mp hx).elim (hfirst x) (hmore x)

/-- So do alternatives. -/
theorem PassesOnly.either (hp : PassesOnly accepts p) (hq : PassesOnly accepts q) :
    PassesOnly accepts (either p q) := fun c d hd =>
  (List.mem_append.mp hd).elim (hp c d) (hq c d)

/-- So does a pattern that may be left out. -/
theorem PassesOnly.maybe (hp : PassesOnly accepts p) : PassesOnly accepts (maybe p) :=
  hp.either passesOnly_empty

end PassesOnly

/-! ### Successive matches -/

/-- Every match passes something. -/
def TakesSome (p : Pattern) : Prop :=
  ∀ c d, d ∈ p.ends c → ∃ stretch, stretch ≠ [] ∧ c.Passes stretch d

section TakesSome

variable {p q : Pattern}

/-- One character is something. -/
theorem takesSome_one (accepts : Char → Bool) : TakesSome (one accepts) := fun _ _ hd => by
  obtain ⟨x, -, hpass⟩ := mem_ends_one.mp hd
  exact ⟨[x], by simp, hpass⟩

/-- A literal with characters takes some. -/
theorem takesSome_literal {chars : Text} (h : chars ≠ []) : TakesSome (literal chars) :=
  fun _ _ hd => ⟨chars, h, mem_ends_literal.mp hd⟩

/-- Something and something else is something. -/
theorem TakesSome.seq (hp : TakesSome p) (q : Pattern) : TakesSome (seq p q) := fun c d hd => by
  obtain ⟨e, he, hd⟩ := mem_ends_seq.mp hd
  obtain ⟨first, hfirst, hpass⟩ := hp c e he
  obtain ⟨more, hpass'⟩ := passes_of_mem_ends hd
  exact ⟨first ++ more, List.append_ne_nil_of_left_ne_nil hfirst _, hpass.trans hpass'⟩

/-- It is enough that the second pattern takes something. -/
theorem TakesSome.seq_right (p : Pattern) (hq : TakesSome q) : TakesSome (.seq p q) :=
  fun _ d hd => by
    obtain ⟨e, he, hd⟩ := mem_ends_seq.mp hd
    obtain ⟨first, hpass⟩ := passes_of_mem_ends he
    obtain ⟨more, hmore, hpass'⟩ := hq e d hd
    exact ⟨first ++ more, List.append_ne_nil_of_right_ne_nil _ hmore, hpass.trans hpass'⟩

/-- Both alternatives have to. -/
theorem TakesSome.either (hp : TakesSome p) (hq : TakesSome q) : TakesSome (either p q) :=
  fun c d hd => (List.mem_append.mp hd).elim (hp c d) (hq c d)

end TakesSome

/-- A match as a reading: its two ends, and the place where the search goes on. -/
def reading (p : Pattern) (c : Cursor) : Option ((Cursor × Cursor) × Cursor) :=
  (p.match? c).map fun stop => ((c, stop), stop)

/-- Reading what takes something gets on. -/
theorem isProgressive_reading {p : Pattern} (h : TakesSome p) : IsProgressive p.reading := by
  intro c value stop hread
  obtain ⟨d, hd, hpair⟩ := Option.map_eq_some_iff.mp hread
  obtain ⟨-, rfl⟩ := Prod.mk.inj hpair
  exact h c d (List.mem_of_head? hd)

/-- Successive matches that pass something are successive readings. -/
theorem matchesFrom_eq_readAll {p : Pattern} (h : TakesSome p) (c : Cursor) :
    p.matchesFrom false c = readAll p.reading c := by
  have hfind (ends : List Cursor) (c : Cursor) : (ends.find? fun stop =>
      !false || decide (stop.after.length < c.after.length)) = ends.head? := by
    cases ends <;> simp
  induction c using readAll_induction (isProgressive_reading h) with
  | reading c value stop hread ih =>
    obtain ⟨stretch, hstretch, hpass⟩ := isProgressive_reading h c value stop hread
    have hlength := hpass.length_after
    have hpos := List.length_pos_iff.mpr hstretch
    rw [readAll_of_some (isProgressive_reading h) hread]
    obtain ⟨d, hd, hpair⟩ := Option.map_eq_some_iff.mp hread
    obtain ⟨rfl, rfl⟩ := Prod.mk.inj hpair
    rw [match?] at hd
    rw [matchesFrom.eq_def, hfind, hd]
    dsimp only
    rw [dif_pos (by omega), ih]
  | next before x after hnone ih =>
    have hmatch : (p.ends ⟨before, x :: after⟩).head? = none := by
      simpa [reading, match?] using hnone
    rw [readAll_cons_of_none hnone, matchesFrom.eq_def, hfind, hmatch]
    exact ih
  | ending before hnone =>
    have hmatch : (p.ends ⟨before, []⟩).head? = none := by
      simpa [reading, match?] using hnone
    rw [readAll_nil_of_none hnone, matchesFrom.eq_def, hfind, hmatch]

end Pattern

end FactoryDowngrade
