import FactoryDowngrade.Proofs.Text.PatternEnds

/-!
# Adding lines around a text

A search that finds something in a text also finds it when whole lines are added in front of the
text or behind its last line: what stands at either end of the text is then a line break, and to
most patterns that is no different from the end itself. The exceptions are patterns that ask for an
end of the text, that refuse what comes next, or that refuse a line break before them.
-/

namespace FactoryDowngrade

/-- Additions that keep every line whole. Those in front are whole lines, and something comes behind
the text only if its last line is broken off. -/
structure AddsLines (front text back : Text) : Prop where
  front : front = [] ∨ front.getLast? = some '\n'
  back : back = [] ∨ text.getLast? = some '\n'

namespace Cursor

variable {front back : Text} {c d : Cursor}

/-- The same place with something added in front of the text and behind it. -/
def amid (front back : Text) (c : Cursor) : Cursor :=
  ⟨c.before ++ front.reverse, c.after ++ back⟩

/-- A stretch that is passed is passed amid added text as well. -/
theorem Passes.amid {stretch : Text} (h : c.Passes stretch d) (front back : Text) :
    (c.amid front back).Passes stretch (d.amid front back) where
  after := by simp only [Cursor.amid, h.after, List.append_assoc]
  before := by simp only [Cursor.amid, h.before, List.append_assoc]

/-- At a place with nothing before it in the text, a line break or nothing stands before it. -/
theorem head?_before_amid (h : AddsLines front c.text back) :
    (c.amid front back).before.head? = c.before.head? ∨
      c.before.head? = none ∧ (c.amid front back).before.head? = some '\n' := by
  obtain ⟨before, after⟩ := c
  cases before with
  | cons x before => exact .inl rfl
  | nil =>
    rcases h.front with rfl | hfront
    · exact .inl rfl
    · exact .inr ⟨rfl, by simpa [amid] using hfront⟩

/-- Lines in front bring no new character that would have been accepted. -/
theorem follows_amid {accepts : Char → Bool} (hbreak : accepts '\n' = false)
    (h : AddsLines front c.text back) :
    (c.amid front back).follows accepts = c.follows accepts := by
  rcases head?_before_amid h with hsame | ⟨hnone, hadded⟩
  · rw [follows, hsame, follows]
  · rw [follows, follows, hadded, hnone]
    exact hbreak

/-- What comes next is the same, unless the place is the end of a text that ends with a line
break. -/
theorem head?_after_amid (h : AddsLines front c.text back) :
    (c.amid front back).after.head? = c.after.head? ∨
      c.after = [] ∧ c.before.head? = some '\n' := by
  obtain ⟨before, after⟩ := c
  cases after with
  | cons x after => exact .inl rfl
  | nil =>
    rcases h.back with rfl | hback
    · exact .inl rfl
    · exact .inr ⟨rfl, by simpa [text] using hback⟩

end Cursor

namespace Pattern

open Cursor

/-- Whether the matches of a pattern stay when whole lines are added around the text. -/
def isLineBound : Pattern → Bool
  | empty | one _ | run _ | wordEdge | lineStart => true
  | seq first second | either first second => first.isLineBound && second.isLineBound
  | repeated body | ahead body => body.isLineBound
  | notAfter refused => !refused '\n'
  | notAhead _ | textStart | textEnd => false

variable {front back : Text} {c d : Cursor}

/-- The edge of a word is one as well when lines are added. -/
theorem mem_ends_wordEdge_amid (h : AddsLines front c.text back) (hd : d ∈ wordEdge.ends c) :
    d.amid front back ∈ wordEdge.ends (c.amid front back) := by
  obtain ⟨hedge, rfl⟩ := eq_of_mem_condition hd
  have hfollows : (d.amid front back).follows CharClass.isWord = d.follows CharClass.isWord :=
    follows_amid (by decide) h
  rw [ends_wordEdge, hfollows]
  rcases head?_after_amid h with hsame | ⟨hend, hbreak⟩
  · have hprecedes : (d.amid front back).precedes CharClass.isWord =
        d.precedes CharClass.isWord := by rw [precedes, hsame, precedes]
    rw [hprecedes, if_pos hedge]
    exact List.mem_singleton_self _
  · -- the end behind a line break is no edge
    rw [follows, precedes, hend, hbreak] at hedge
    exact absurd hedge (by decide)

/-- The start of a line is one as well when lines are added. -/
theorem mem_ends_lineStart_amid (h : AddsLines front c.text back) (hd : d ∈ lineStart.ends c) :
    d.amid front back ∈ lineStart.ends (c.amid front back) := by
  obtain ⟨hstart, rfl⟩ := eq_of_mem_condition hd
  have hadded : (d.amid front back).before.head?.all (· == '\n') = true := by
    rcases head?_before_amid h with hsame | ⟨-, hbreak⟩
    · rwa [hsame]
    · rw [hbreak]
      rfl
  rw [ends_lineStart, if_pos hadded]
  exact List.mem_singleton_self _

/-- A match stays when whole lines are added around the text. -/
theorem mem_ends_amid {p : Pattern} (hp : p.isLineBound = true) (h : AddsLines front c.text back)
    (hd : d ∈ p.ends c) : d.amid front back ∈ p.ends (c.amid front back) := by
  induction p generalizing c d with
  | empty =>
    obtain rfl := List.mem_singleton.mp hd
    exact List.mem_singleton_self _
  | one accepts =>
    obtain ⟨x, hx, hpass⟩ := mem_ends_one.mp hd
    exact mem_ends_one.mpr ⟨x, hx, hpass.amid front back⟩
  | run accepts =>
    obtain ⟨stretch, haccepts, hpass⟩ := mem_ends_run.mp hd
    exact mem_ends_run.mpr ⟨stretch, haccepts, hpass.amid front back⟩
  | seq p q ihp ihq =>
    obtain ⟨hfirst, hsecond⟩ := Bool.and_eq_true_iff.mp hp
    obtain ⟨e, he, hd⟩ := mem_ends_seq.mp hd
    obtain ⟨stretch, hpass⟩ := passes_of_mem_ends he
    exact mem_ends_seq.mpr ⟨_, ihp hfirst h he, ihq hsecond (hpass.text ▸ h) hd⟩
  | either p q ihp ihq =>
    obtain ⟨hfirst, hsecond⟩ := Bool.and_eq_true_iff.mp hp
    rw [ends_either, List.mem_append] at hd ⊢
    exact hd.imp (ihp hfirst h) (ihq hsecond h)
  | repeated body ih =>
    rw [mem_ends_repeated] at hd ⊢
    induction hd with
    | refl => exact .refl
    | tail hreach hstep ihreach =>
      obtain ⟨stretch, hpass⟩ := passes_of_mem_ends (mem_ends_repeated.mpr hreach)
      refine ihreach.tail ⟨ih hp (hpass.text ▸ h) hstep.1, ?_⟩
      simpa [Cursor.amid] using hstep.2
  | ahead body ih =>
    rw [ends_ahead, ← ite_not] at hd ⊢
    obtain ⟨hsome, rfl⟩ := eq_of_mem_condition hd
    obtain ⟨e, he⟩ := List.isEmpty_eq_false_iff_exists_mem.mp (Bool.not_eq_true _ ▸ hsome)
    rw [if_pos]
    · exact List.mem_singleton_self _
    · exact Bool.not_eq_true _ ▸ List.isEmpty_eq_false_iff_exists_mem.mpr ⟨_, ih hp h he⟩
  | notAfter refused =>
    rw [ends_notAfter, ← ite_not] at hd ⊢
    obtain ⟨hfree, rfl⟩ := eq_of_mem_condition hd
    rw [follows_amid (by simpa [isLineBound] using hp) h, if_pos hfree]
    exact List.mem_singleton_self _
  | wordEdge => exact mem_ends_wordEdge_amid h hd
  | lineStart => exact mem_ends_lineStart_amid h hd
  | notAhead body => cases hp
  | textStart => cases hp
  | textEnd => cases hp

/-- A pattern occurs in a text with whole lines added if it occurs in the text. -/
theorem occurs_amid {p : Pattern} {text : Text} (hp : p.isLineBound = true)
    (h : AddsLines front text back) (hoccurs : p.occurs (Cursor.start text) = true) :
    p.occurs (Cursor.start (front ++ text ++ back)) = true := by
  obtain ⟨stretch, c, hpass, hends⟩ := occurs_iff.mp hoccurs
  obtain ⟨d, hd⟩ := List.exists_mem_of_ne_nil _ hends
  have hlines : AddsLines front c.text back := by rwa [hpass.text]
  have hfront : (Cursor.start (front ++ text ++ back)).Passes front
      ((Cursor.start text).amid front back) := ⟨List.append_assoc _ _ _, by simp [amid, start]⟩
  exact occurs_iff.mpr ⟨front ++ stretch, _, hfront.trans (hpass.amid front back),
    List.ne_nil_of_mem (mem_ends_amid hp hlines hd)⟩

end Pattern

end FactoryDowngrade
