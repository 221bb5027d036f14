import FactoryDowngrade.Proofs.Text.CharClasses
import FactoryDowngrade.Text.Pattern

/-!
# Passing through a text

A cursor passes a stretch when it moves on from one place to another. Passing keeps the text and
adds the length of the stretch to the offset, and every match of a pattern is such a passage.
Readings that always pass something are found one behind the other.
-/

namespace FactoryDowngrade

namespace Cursor

/-- What stands before a cursor is accepted by every larger class. -/
theorem follows_of_imp {p q : Char → Bool} (himp : ∀ x, p x = true → q x = true) {c : Cursor}
    (h : c.follows p = true) : c.follows q = true :=
  any_of_imp himp h

/-- The second cursor stands behind a stretch that begins at the first one. -/
structure Passes (c : Cursor) (stretch : Text) (d : Cursor) : Prop where
  after : c.after = stretch ++ d.after
  before : d.before = stretch.reverse ++ c.before

namespace Passes

variable {c d e : Cursor} {stretch more : Text}

/-- A cursor passes nothing where it stands. -/
theorem refl (c : Cursor) : c.Passes [] c := ⟨rfl, rfl⟩

/-- One character is passed by moving it over. -/
theorem head {x : Char} {before after : Text} :
    Passes ⟨before, x :: after⟩ [x] ⟨x :: before, after⟩ := ⟨rfl, rfl⟩

/-- Passages follow one another. -/
theorem trans (h : c.Passes stretch d) (h' : d.Passes more e) : c.Passes (stretch ++ more) e where
  after := by rw [h.after, h'.after, List.append_assoc]
  before := by rw [h'.before, h.before, List.reverse_append, List.append_assoc]

/-- A passage over two stretches goes past the place between them. -/
theorem split (h : c.Passes (stretch ++ more) d) : ∃ e, c.Passes stretch e ∧ e.Passes more d :=
  ⟨⟨stretch.reverse ++ c.before, more ++ d.after⟩, ⟨by rw [h.after, List.append_assoc], rfl⟩,
    rfl, by rw [h.before, List.reverse_append, List.append_assoc]⟩

/-- The place behind a stretch is determined by it. -/
theorem unique (h : c.Passes stretch d) (h' : c.Passes stretch e) : d = e := by
  have hafter : d.after = e.after := List.append_cancel_left (h.after.symm.trans h'.after)
  have hbefore : d.before = e.before := h.before.trans h'.before.symm
  cases d
  cases e
  simp_all

/-- From the end of a text nothing is passed. -/
theorem ending_iff {before : Text} :
    Passes ⟨before, []⟩ stretch d ↔ stretch = [] ∧ d = ⟨before, []⟩ := by
  constructor
  · intro h
    obtain ⟨rfl, -⟩ := List.append_eq_nil_iff.mp h.after.symm
    exact ⟨rfl, h.unique (.refl _)⟩
  · rintro ⟨rfl, rfl⟩
    exact .refl _

/-- What is passed is nothing, or the next character and what is passed from behind it. -/
theorem cons_iff {x : Char} {before after : Text} :
    Passes ⟨before, x :: after⟩ stretch d ↔ stretch = [] ∧ d = ⟨before, x :: after⟩ ∨
      ∃ rest, stretch = x :: rest ∧ Passes ⟨x :: before, after⟩ rest d := by
  constructor
  · intro h
    cases stretch with
    | nil => exact .inl ⟨rfl, h.unique (.refl _)⟩
    | cons y rest =>
      obtain ⟨rfl, hafter⟩ := List.cons.inj h.after
      exact .inr ⟨rest, rfl, hafter, by simp [h.before]⟩
  · rintro (⟨rfl, rfl⟩ | ⟨rest, rfl, h⟩)
    · exact .refl _
    · exact Passes.head.trans h

/-- Passing moves the offset by the length of the stretch. -/
theorem offset (h : c.Passes stretch d) : d.offset = c.offset + stretch.length := by
  simp only [Cursor.offset, h.before, List.length_append, List.length_reverse]
  omega

/-- Passing stays in the same text. -/
theorem text (h : c.Passes stretch d) : d.text = c.text := by
  simp [Cursor.text, h.after, h.before]

/-- What comes behind is shorter by the length of the stretch. -/
theorem length_after (h : c.Passes stretch d) :
    c.after.length = stretch.length + d.after.length := by
  rw [h.after, List.length_append]

/-- A passed stretch is the slice of the text between the two offsets. -/
theorem slice (h : c.Passes stretch d) : c.text.slice c.offset d.offset = stretch := by
  have hlength : c.offset = c.before.reverse.length := by simp [Cursor.offset]
  rw [h.offset, Text.slice, Cursor.text, h.after, hlength, List.take_length_add_append,
    List.drop_left, List.take_left]

/-- The stretch between two places is what the first passes to reach the second. -/
theorem upTo (h : c.Passes stretch d) : c.upTo d = stretch := by
  have hlength : d.offset - c.offset = stretch.reverse.length := by
    rw [h.offset, List.length_reverse]
    omega
  rw [Cursor.upTo, hlength, h.before, List.take_left, List.reverse_reverse]

end Passes

/-- Two cursors of one text at the same offset are the same. -/
theorem eq_of_offset {c d : Cursor} (htext : c.text = d.text) (hoffset : c.offset = d.offset) :
    c = d := by
  obtain ⟨hbefore, hafter⟩ := List.append_inj htext (by simpa [offset] using hoffset)
  cases c
  cases d
  simp_all

/-- From a place one gets to every later one of the same text. -/
theorem exists_passes {c d : Cursor} (htext : c.text = d.text) (hoffset : c.offset ≤ d.offset) :
    ∃ stretch, c.Passes stretch d := by
  obtain ⟨stretch, hstretch⟩ : c.before.reverse <+: d.before.reverse :=
    List.prefix_of_prefix_length_le ⟨c.after, htext⟩ ⟨d.after, rfl⟩
      (by simpa [offset] using hoffset)
  refine ⟨stretch, ?_, ?_⟩
  · rw [text, text, ← hstretch, List.append_assoc] at htext
    exact List.append_cancel_left htext
  · rw [← d.before.reverse_reverse, ← hstretch, List.reverse_append, List.reverse_reverse]

/-- The nearest character before a cursor stands in the text at the offset before it. -/
theorem head?_before {c : Cursor} {index : Nat} (h : index + 1 = c.offset) :
    c.before.head? = c.text[index]? := by
  obtain ⟨before, after⟩ := c
  cases before with
  | nil => cases h
  | cons x before =>
    obtain rfl : index = before.length := Nat.succ.inj h
    simp [text]

/-- What follows a cursor is the text behind its offset. -/
theorem drop_offset_add (c : Cursor) (count : Nat) :
    c.text.drop (c.offset + count) = c.after.drop count := by
  rw [text, offset, ← List.length_reverse, List.drop_length_add_append]

/-- A search finds something if a test succeeds at a place that it passes. -/
theorem isSome_first?_iff {α : Type} {test : Cursor → Option α} {c : Cursor} :
    (first? test c).isSome = true ↔ ∃ stretch d, c.Passes stretch d ∧ (test d).isSome = true := by
  obtain ⟨before, after⟩ := c
  rw [first?]
  induction after generalizing before with
  | nil =>
    rw [findSome?]
    constructor
    · exact fun h => ⟨[], _, .refl _, h⟩
    · rintro ⟨stretch, d, hpass, hd⟩
      obtain ⟨-, rfl⟩ := Passes.ending_iff.mp hpass
      exact hd
  | cons x after ih =>
    rw [findSome?]
    cases hfound : test ⟨before, x :: after⟩ with
    | some value => exact ⟨fun _ => ⟨[], _, .refl _, by rw [hfound]; rfl⟩, fun _ => rfl⟩
    | none =>
      dsimp only
      rw [ih (x :: before)]
      constructor
      · rintro ⟨stretch, d, hpass, hd⟩
        exact ⟨x :: stretch, d, Passes.head.trans hpass, hd⟩
      · rintro ⟨stretch, d, hpass, hd⟩
        obtain ⟨-, rfl⟩ | ⟨rest, -, hrest⟩ := Passes.cons_iff.mp hpass
        · rw [hfound] at hd
          cases hd
        · exact ⟨rest, d, hrest, hd⟩

/-- A search finds nothing if the test fails at every place that it passes. -/
theorem first?_eq_none_iff {α : Type} {test : Cursor → Option α} {c : Cursor} :
    first? test c = none ↔ ∀ stretch d, c.Passes stretch d → test d = none := by
  rw [← Option.not_isSome_iff_eq_none, isSome_first?_iff]
  simp

/-- A search gives what the test finds at the first place where it finds something. -/
theorem first?_eq_some_iff {α : Type} {test : Cursor → Option α} {c : Cursor} {value : α} :
    first? test c = some value ↔ ∃ stretch d, c.Passes stretch d ∧ test d = some value ∧
      ∀ front back e, stretch = front ++ back → back ≠ [] → c.Passes front e → test e = none := by
  obtain ⟨before, after⟩ := c
  rw [first?]
  induction after generalizing before with
  | nil =>
    rw [findSome?]
    constructor
    · refine fun h => ⟨[], _, .refl _, h, fun front back e hsplit hback => ?_⟩
      exact absurd (List.append_eq_nil_iff.mp hsplit.symm).2 hback
    · rintro ⟨stretch, d, hpass, hd, -⟩
      obtain ⟨-, rfl⟩ := Passes.ending_iff.mp hpass
      exact hd
  | cons x after ih =>
    rw [findSome?]
    cases hfound : test ⟨before, x :: after⟩ with
    | some found =>
      constructor
      · rintro h
        refine ⟨[], _, .refl _, hfound.trans h, fun front back e hsplit hback => ?_⟩
        exact absurd (List.append_eq_nil_iff.mp hsplit.symm).2 hback
      · rintro ⟨stretch, d, hpass, hd, hfirst⟩
        obtain ⟨-, rfl⟩ | ⟨rest, rfl, -⟩ := Passes.cons_iff.mp hpass
        · exact hfound.symm.trans hd
        · have hnone := hfirst [] (x :: rest) _ rfl (List.cons_ne_nil _ _) (.refl _)
          rw [hfound] at hnone
          cases hnone
    | none =>
      dsimp only
      rw [ih (x :: before)]
      constructor
      · rintro ⟨stretch, d, hpass, hd, hfirst⟩
        refine ⟨x :: stretch, d, Passes.head.trans hpass, hd,
          fun front back e hsplit hback he => ?_⟩
        obtain ⟨-, rfl⟩ | ⟨rest, rfl, hrest⟩ := Passes.cons_iff.mp he
        · exact hfound
        · exact hfirst rest back e (List.cons.inj hsplit).2 hback hrest
      · rintro ⟨stretch, d, hpass, hd, hfirst⟩
        obtain ⟨-, rfl⟩ | ⟨rest, rfl, hrest⟩ := Passes.cons_iff.mp hpass
        · rw [hfound] at hd
          cases hd
        · refine ⟨rest, d, hrest, hd, fun front back e hsplit hback he => ?_⟩
          exact hfirst (x :: front) back e (by rw [hsplit]; rfl) hback (.trans .head he)

/-- What a search finds, the test finds at some place. -/
theorem exists_of_first?_eq_some {α : Type} {test : Cursor → Option α} {c : Cursor} {value : α}
    (h : first? test c = some value) : ∃ d, test d = some value := by
  obtain ⟨-, d, -, hd, -⟩ := first?_eq_some_iff.mp h
  exact ⟨d, hd⟩

/-! ### Successive readings -/

/-- Every reading passes something. -/
def IsProgressive {α : Type} (read : Cursor → Option (α × Cursor)) : Prop :=
  ∀ c value stop, read c = some (value, stop) → ∃ stretch, stretch ≠ [] ∧ c.Passes stretch stop

variable {α : Type} {read : Cursor → Option (α × Cursor)}

/-- After a reading the search goes on where it ends. -/
theorem readAll_of_some (hread : IsProgressive read) {c stop : Cursor} {value : α}
    (h : read c = some (value, stop)) : readAll read c = value :: readAll read stop := by
  obtain ⟨stretch, hstretch, hpass⟩ := hread c value stop h
  have hlength := hpass.length_after
  have hpos := List.length_pos_iff.mpr hstretch
  rw [readAll.eq_def, h]
  simp only
  rw [dif_pos (by omega)]

/-- Without a reading the search goes on behind the next character. -/
theorem readAll_cons_of_none {before after : Text} {x : Char}
    (h : read ⟨before, x :: after⟩ = none) :
    readAll read ⟨before, x :: after⟩ = readAll read ⟨x :: before, after⟩ := by
  rw [readAll.eq_def, h]

/-- Without a reading at the end there are no more. -/
theorem readAll_nil_of_none {before : Text} (h : read ⟨before, []⟩ = none) :
    readAll read ⟨before, []⟩ = [] := by
  rw [readAll.eq_def, h]

/-- Induction over the places of a search: at each one there is a reading, or the search goes on
behind the next character, or the text ends. -/
theorem readAll_induction (hread : IsProgressive read) {motive : Cursor → Prop}
    (reading : ∀ c value stop, read c = some (value, stop) → motive stop → motive c)
    (next : ∀ before x after, read ⟨before, x :: after⟩ = none → motive ⟨x :: before, after⟩ →
      motive ⟨before, x :: after⟩)
    (ending : ∀ before, read ⟨before, []⟩ = none → motive ⟨before, []⟩) (c : Cursor) :
    motive c := by
  induction hlength : c.after.length using Nat.strongRecOn generalizing c with
  | ind n ih =>
    cases hc : read c with
    | some result =>
      obtain ⟨value, stop⟩ := result
      obtain ⟨stretch, hstretch, hpass⟩ := hread c value stop hc
      have hafter := hpass.length_after
      have hpos := List.length_pos_iff.mpr hstretch
      exact reading c value stop hc (ih stop.after.length (by omega) stop rfl)
    | none =>
      obtain ⟨before, after⟩ := c
      cases after with
      | nil => exact ending before hc
      | cons x after =>
        simp only [List.length_cons] at hlength
        exact next before x after hc (ih after.length (by omega) ⟨x :: before, after⟩ rfl)

/-- Every reading is made at a place that the search has reached. -/
theorem exists_read_of_mem_readAll (hread : IsProgressive read) {c : Cursor} {value : α}
    (h : value ∈ readAll read c) :
    ∃ stretch d stop, c.Passes stretch d ∧ read d = some (value, stop) := by
  induction c using readAll_induction hread with
  | reading c first stop hfirst ih =>
    rw [readAll_of_some hread hfirst, List.mem_cons] at h
    rcases h with rfl | h
    · exact ⟨[], c, stop, .refl c, hfirst⟩
    · obtain ⟨passed, -, hpassed⟩ := hread c first stop hfirst
      obtain ⟨stretch, d, last, hreach, hd⟩ := ih h
      exact ⟨passed ++ stretch, d, last, hpassed.trans hreach, hd⟩
  | next before x after hnone ih =>
    rw [readAll_cons_of_none hnone] at h
    obtain ⟨stretch, d, last, hreach, hd⟩ := ih h
    exact ⟨[x] ++ stretch, d, last, Passes.head.trans hreach, hd⟩
  | ending before hnone =>
    rw [readAll_nil_of_none hnone] at h
    simp at h

/-- Every reading at a place is found that no earlier reading goes past. -/
theorem mem_readAll (hread : IsProgressive read) {c d stop : Cursor} {stretch : Text} {value : α}
    (hreach : c.Passes stretch d) (hd : read d = some (value, stop))
    (hguard : ∀ first more, stretch = first ++ more → more ≠ [] → ∀ e e' other, c.Passes first e →
      read e = some (other, e') → e'.offset ≤ d.offset) : value ∈ readAll read c := by
  induction c using readAll_induction hread generalizing stretch with
  | reading c found next hc ih =>
    rw [readAll_of_some hread hc]
    obtain ⟨passed, -, hpassed⟩ := hread c found next hc
    by_cases hempty : stretch = []
    · subst hempty
      obtain rfl := hreach.unique (.refl c)
      rw [hd] at hc
      obtain ⟨rfl, -⟩ := Prod.mk.inj (Option.some.inj hc)
      exact List.mem_cons_self
    · have hle := hguard [] stretch rfl hempty c next found (.refl c) hc
      have hlength : passed.length ≤ stretch.length := by
        rw [hpassed.offset, hreach.offset] at hle
        omega
      obtain ⟨rest, rfl⟩ : passed <+: stretch := List.prefix_of_prefix_length_le
        ⟨next.after, hpassed.after.symm⟩ ⟨d.after, hreach.after.symm⟩ hlength
      obtain ⟨place, hplace, hrest⟩ := hreach.split
      obtain rfl := hplace.unique hpassed
      refine List.mem_cons_of_mem _ (ih hrest fun first more hsplit hmore e e' other he => ?_)
      exact hguard (passed ++ first) more (by rw [hsplit, List.append_assoc]) hmore e e' other
        (hpassed.trans he)
  | next before x after hnone ih =>
    obtain ⟨-, rfl⟩ | ⟨rest, rfl, hrest⟩ := Passes.cons_iff.mp hreach
    · rw [hnone] at hd
      cases hd
    · rw [readAll_cons_of_none hnone]
      refine ih hrest fun first more hsplit hmore e e' other he => ?_
      exact hguard (x :: first) more (by rw [hsplit]; rfl) hmore e e' other (.trans .head he)
  | ending before hnone =>
    obtain ⟨-, rfl⟩ := Passes.ending_iff.mp hreach
    rw [hnone] at hd
    cases hd

/-- Readings that begin and end where they say stand one behind the other. -/
theorem pairwise_readAll (hread : IsProgressive read) {first last : α → Cursor}
    (hplace : ∀ c value stop, read c = some (value, stop) → first value = c ∧ last value = stop)
    (c : Cursor) :
    (readAll read c).Pairwise fun a b => (last a).offset ≤ (first b).offset := by
  induction c using readAll_induction hread with
  | reading c value stop hvalue ih =>
    rw [readAll_of_some hread hvalue]
    refine List.Pairwise.cons (fun later hlater => ?_) ih
    obtain ⟨stretch, d, _, hreach, hd⟩ := exists_read_of_mem_readAll hread hlater
    rw [(hplace c value stop hvalue).2, (hplace d later _ hd).1, hreach.offset]
    omega
  | next before x after hnone ih =>
    rw [readAll_cons_of_none hnone]
    exact ih
  | ending before hnone =>
    rw [readAll_nil_of_none hnone]
    exact List.Pairwise.nil

end Cursor

end FactoryDowngrade
