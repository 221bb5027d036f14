import FactoryDowngrade.Ruby.Mask
import FactoryDowngrade.Text.LineIndex
import Mathlib.Data.List.Forall2

/-!
# Masking keeps every place

A step of the masking scan passes a stretch of the text and writes one masked character for each
character of it: the character itself, or a blank in place of one that is no line break. So the
masked text has the same offsets and the same line breaks as the text. Every step before the end
passes something, which is why as many steps as there are characters reach the end.
-/

namespace FactoryDowngrade

/-- A masked character shows the original one, or blanks one that is no line break. -/
def IsMaskOf (masked original : Char) : Prop :=
  masked = original ∨ (masked = ' ' ∧ original ≠ '\n')

/-- What does not come first in a text does not in its masked form, if it is no blank. -/
theorem any_head?_of_masks {refused : Char → Bool} (hblank : refused ' ' = false)
    {image text : Text} (h : List.Forall₂ IsMaskOf image text)
    (htext : text.head?.any refused = false) : image.head?.any refused = false := by
  cases h with
  | nil => rfl
  | cons hmask _ =>
    rcases hmask with rfl | ⟨rfl, -⟩
    · exact htext
    · exact hblank

namespace Scan

/-- The scan moved on over a stretch and wrote its masked image. -/
structure Advances (s : Scan) (stretch image : Text) (t : Scan) : Prop where
  after : s.after = stretch ++ t.after
  before : t.before = stretch.reverse ++ s.before
  masked : t.masked = image.reverse ++ s.masked
  image : List.Forall₂ IsMaskOf image stretch

namespace Advances

variable {s t u : Scan} {stretch image more moreImage : Text}

/-- A scan that stands still passes nothing. -/
theorem refl (s : Scan) : s.Advances [] [] s := ⟨rfl, rfl, rfl, .nil⟩

/-- Advances follow one another. -/
theorem trans (h : s.Advances stretch image t) (h' : t.Advances more moreImage u) :
    s.Advances (stretch ++ more) (image ++ moreImage) u where
  after := by rw [h.after, h'.after, List.append_assoc]
  before := by rw [h'.before, h.before, List.reverse_append, List.append_assoc]
  masked := by rw [h'.masked, h.masked, List.reverse_append, List.append_assoc]
  image := List.rel_append h.image h'.image

/-- What lies ahead gets shorter by what was passed. -/
theorem length_after (h : s.Advances stretch image t) :
    s.after.length = stretch.length + t.after.length := by
  rw [h.after, List.length_append]

end Advances

/-- Visible characters are masked by themselves. -/
theorem isMaskOf_id (c : Char) : IsMaskOf (id c) c := .inl rfl

/-- Blanked characters keep line breaks only. -/
theorem isMaskOf_blankOf (c : Char) : IsMaskOf (blankOf c) c := by
  by_cases h : c = '\n'
  · exact .inl (by simp [blankOf, h])
  · exact .inr ⟨by simp [blankOf, h], h⟩

/-- Passing characters advances the scan over them. -/
theorem advances_pass {image : Char → Char} (himage : ∀ c, IsMaskOf (image c) c) (count : Nat)
    (s : Scan) :
    s.Advances (s.after.take count) ((s.after.take count).map image) (s.pass image count) where
  after := (List.take_append_drop count s.after).symm
  before := rfl
  masked := rfl
  image := by
    rw [List.forall₂_map_left_iff, List.forall₂_same]
    exact fun c _ => himage c

/-- Keeping characters advances the scan, whatever is done to its frames and heredocs. -/
theorem advances_keep (count : Nat) (s : Scan) (frames : List Frame) (heredocs : List Heredoc) :
    s.Advances (s.after.take count) (s.after.take count)
      { s.keep count with frames := frames, heredocs := heredocs } := by
  have h := advances_pass isMaskOf_id count s
  rw [List.map_id] at h
  exact ⟨h.after, h.before, h.masked, h.image⟩

/-- Blanking characters advances the scan, whatever is done to its frames and heredocs. -/
theorem advances_blank (count : Nat) (s : Scan) (frames : List Frame) (heredocs : List Heredoc) :
    s.Advances (s.after.take count) ((s.after.take count).map blankOf)
      { s.blank count with frames := frames, heredocs := heredocs } := by
  have h := advances_pass isMaskOf_blankOf count s
  exact ⟨h.after, h.before, h.masked, h.image⟩

/-- A step passes at least one character of what lies ahead. -/
def Progresses (s t : Scan) : Prop :=
  ∃ stretch image, stretch ≠ [] ∧ s.Advances stretch image t

/-- Keeping at least one character makes progress before the end. -/
theorem progresses_keep {s : Scan} {c : Char} {rest : Text} (hafter : s.after = c :: rest)
    {count : Nat} (hcount : 0 < count) (frames : List Frame) (heredocs : List Heredoc) :
    s.Progresses { s.keep count with frames := frames, heredocs := heredocs } :=
  ⟨_, _, by simp [hafter, List.take_eq_nil_iff]; omega, advances_keep count s frames heredocs⟩

/-- Blanking at least one character makes progress before the end. -/
theorem progresses_blank {s : Scan} {c : Char} {rest : Text} (hafter : s.after = c :: rest)
    {count : Nat} (hcount : 0 < count) (frames : List Frame) (heredocs : List Heredoc) :
    s.Progresses { s.blank count with frames := frames, heredocs := heredocs } :=
  ⟨_, _, by simp [hafter, List.take_eq_nil_iff]; omega, advances_blank count s frames heredocs⟩

/-- A step in a literal makes progress. -/
theorem progresses_stepLiteral {s : Scan} {c : Char} {rest : Text} (hafter : s.after = c :: rest)
    (kind : Literal) (depth : Nat) (outer : List Frame) :
    s.Progresses (s.stepLiteral kind depth outer c rest.head?) := by
  unfold stepLiteral
  split
  · exact progresses_blank hafter (by omega) s.frames s.heredocs
  · split
    · exact progresses_keep hafter (by omega) (.code 0 :: s.frames) s.heredocs
    · split
      · exact progresses_blank hafter (by omega) (.literal kind (depth + 1) :: outer) s.heredocs
      · split
        · cases depth with
          | zero => exact progresses_keep hafter (by omega) outer s.heredocs
          | succ depth =>
            exact progresses_blank hafter (by omega) (.literal kind depth :: outer) s.heredocs
        · exact progresses_blank hafter (by omega) s.frames s.heredocs

/-- A line break and the heredoc bodies behind it are passed together. -/
theorem progresses_passLineBreak {s : Scan} {c : Char} {rest : Text}
    (hafter : s.after = c :: rest) : s.Progresses s.passLineBreak := by
  obtain ⟨stretch, image, hstretch, hkeep⟩ :=
    progresses_keep hafter Nat.one_pos s.frames s.heredocs
  have hblank := advances_blank (Heredoc.bodiesLength s.heredocs (s.keep 1).after) (s.keep 1)
    s.frames []
  exact ⟨_, _, by simp [hstretch], hkeep.trans hblank⟩

/-- A block comment takes at least its first line. -/
theorem blockCommentLength_pos {text : Text} (h : text.startsWith "=begin".toList = true) :
    0 < blockCommentLength text := by
  obtain ⟨rest, rfl⟩ := List.isPrefixOf_iff_prefix.mp h
  have hline : 0 < (Text.firstLine ("=begin".toList ++ rest)).length := by
    simp [Text.firstLine]
  rw [blockCommentLength]
  split
  · exact hline
  · split <;> omega

/-- What opens a literal takes at least one character. -/
theorem literalAhead?_length_pos {s : Scan} {c : Char} {kind : Literal} {length : Nat}
    (h : s.literalAhead? c = some (kind, length)) : 0 < length := by
  unfold literalAhead? at h
  split at h
  · simp only [Option.some.injEq, Prod.mk.injEq] at h
    omega
  · split at h
    · unfold Literal.percent? at h
      split at h
      · split at h
        · obtain ⟨_, _, hpair⟩ := Option.map_eq_some_iff.mp h
          simp only [Prod.mk.injEq] at hpair
          omega
        · obtain ⟨_, _, hpair⟩ := Option.map_eq_some_iff.mp h
          simp only [Prod.mk.injEq] at hpair
          omega
      · simp at h
    · simp at h

/-- What opens a heredoc takes at least the angle signs. -/
theorem opener?_length_pos {previous : Option Char} {text : Text} {heredoc : Heredoc} {length : Nat}
    (h : Heredoc.opener? previous text = some (heredoc, length)) : 0 < length := by
  unfold Heredoc.opener? at h
  split at h
  · split at h
    · simp at h
    · split at h <;>
      · obtain ⟨_, _, hpair⟩ := Option.map_eq_some_iff.mp h
        simp only [Prod.mk.injEq] at hpair
        omega
  · simp at h

/-- A step in code makes progress. -/
theorem progresses_stepCode {s : Scan} {c : Char} {rest : Text} (hafter : s.after = c :: rest) :
    s.Progresses (s.stepCode c) := by
  unfold stepCode
  split
  · exact progresses_passLineBreak hafter
  · split
    · rename_i hbreak hhash
      refine progresses_blank hafter ?_ s.frames s.heredocs
      simp [hafter, Text.firstLine, hbreak]
    · split
      · rename_i hcomment
        simp only [Bool.and_eq_true] at hcomment
        exact progresses_blank hafter (blockCommentLength_pos hcomment.2) s.frames s.heredocs
      · split
        · rename_i kind length hliteral
          exact progresses_keep hafter (literalAhead?_length_pos hliteral)
            (.literal kind 0 :: s.frames) s.heredocs
        · split
          · rename_i heredoc length hopener
            exact progresses_keep hafter (opener?_length_pos hopener) s.frames
              (s.heredocs ++ [heredoc])
          · exact progresses_keep hafter (by omega) (countBrace c s.frames) s.heredocs

/-- Every step before the end makes progress. -/
theorem progresses_step {s : Scan} (h : s.after ≠ []) : s.Progresses s.step := by
  obtain ⟨c, rest, hafter⟩ := List.exists_cons_of_ne_nil h
  unfold step
  rw [hafter]
  dsimp only
  split
  · exact progresses_stepLiteral hafter _ _ _
  · exact progresses_stepCode hafter

/-- At the end a step does nothing. -/
theorem step_of_after_nil {s : Scan} (h : s.after = []) : s.step = s := by
  unfold step
  rw [h]

/-- Nor do many of them. -/
theorem steps_of_after_nil {s : Scan} (h : s.after = []) (count : Nat) : steps count s = s := by
  induction count with
  | zero => rfl
  | succ count ih => rw [steps, step_of_after_nil h, ih]

/-- Steps advance the scan, and enough of them reach the end. -/
theorem exists_advances_steps (count : Nat) (s : Scan) (hcount : s.after.length ≤ count) :
    ∃ stretch image, s.Advances stretch image (steps count s) ∧ (steps count s).after = [] := by
  induction count generalizing s with
  | zero =>
    have hafter : s.after = [] := List.eq_nil_of_length_eq_zero (by omega)
    exact ⟨[], [], .refl s, hafter⟩
  | succ count ih =>
    rw [steps]
    by_cases hafter : s.after = []
    · rw [step_of_after_nil hafter, steps_of_after_nil hafter]
      exact ⟨[], [], .refl s, hafter⟩
    · obtain ⟨stretch, image, hstretch, hadvance⟩ := progresses_step hafter
      have hlength := hadvance.length_after
      have hpos := List.length_pos_iff.mpr hstretch
      obtain ⟨more, moreImage, hmore, hend⟩ := ih s.step (by omega)
      exact ⟨_, _, hadvance.trans hmore, hend⟩

/-- A scan that runs to the end of its text and writes an image of what lies ahead. -/
inductive Finishes : Scan → Text → Prop where
  | done {s : Scan} (hend : s.after = []) : Finishes s []
  | step {s : Scan} {chunk image : Text} (hmore : s.after ≠ [])
      (hchunk : s.step.masked = chunk.reverse ++ s.masked) (hrest : Finishes s.step image) :
      Finishes s (chunk ++ image)

/-- Before the end a scan takes a step and finishes from there. -/
theorem Finishes.exists_step {s : Scan} {image : Text} (h : s.Finishes image)
    (hmore : s.after ≠ []) : ∃ chunk rest, image = chunk ++ rest ∧
      s.step.masked = chunk.reverse ++ s.masked ∧ s.step.Finishes rest := by
  cases h with
  | done hend => exact absurd hend hmore
  | step _ hchunk hrest => exact ⟨_, _, rfl, hchunk, hrest⟩

/-- Every scan finishes. -/
theorem exists_finishes (s : Scan) : ∃ image, s.Finishes image := by
  induction hlength : s.after.length using Nat.strongRecOn generalizing s with
  | ind n ih =>
    by_cases hafter : s.after = []
    · exact ⟨[], .done hafter⟩
    · obtain ⟨stretch, chunk, hstretch, hadvance⟩ := progresses_step hafter
      have hshorter := hadvance.length_after
      have hpos := List.length_pos_iff.mpr hstretch
      obtain ⟨image, himage⟩ := ih s.step.after.length (by omega) s.step rfl
      exact ⟨chunk ++ image, .step hafter hadvance.masked himage⟩

/-- Enough steps write the image. -/
theorem Finishes.masked_steps {s : Scan} {image : Text} (h : s.Finishes image) {count : Nat}
    (hcount : s.after.length ≤ count) : (steps count s).masked = image.reverse ++ s.masked := by
  induction h generalizing count with
  | @done s hend =>
    rw [steps_of_after_nil hend]
    rfl
  | @step s chunk image hmore hchunk hrest ih =>
    obtain ⟨stretch, _, hstretch, hadvance⟩ := progresses_step hmore
    have hshorter := hadvance.length_after
    have hpos := List.length_pos_iff.mpr hstretch
    obtain ⟨count, rfl⟩ : ∃ n, count = n + 1 := ⟨count - 1, by omega⟩
    rw [steps, ih (by omega), hchunk, List.reverse_append, List.append_assoc]

end Scan

/-- Each masked character shows the character at its place or blanks it, line breaks apart. -/
theorem mask_forall₂ (text : Text) : List.Forall₂ IsMaskOf (mask text) text := by
  obtain ⟨stretch, image, hadvance, hend⟩ :=
    Scan.exists_advances_steps text.length (Scan.start text) (Nat.le_refl _)
  have htext : text = stretch := by
    have hafter := hadvance.after
    rwa [hend, List.append_nil] at hafter
  have hmask : mask text = image := by
    rw [mask, hadvance.masked, Scan.start, List.append_nil, List.reverse_reverse]
  rw [hmask]
  exact htext.symm ▸ hadvance.image

/-- The masked text is the image that the scan of the whole text writes. -/
theorem mask_eq_iff {text image : Text} : mask text = image ↔ (Scan.start text).Finishes image := by
  have hmask {image : Text} (h : (Scan.start text).Finishes image) : mask text = image := by
    have hsteps : (Scan.steps text.length (Scan.start text)).masked =
        image.reverse ++ (Scan.start text).masked := h.masked_steps (Nat.le_refl _)
    rw [mask, hsteps, Scan.start, List.append_nil, List.reverse_reverse]
  constructor
  · rintro rfl
    obtain ⟨image, himage⟩ := Scan.exists_finishes (Scan.start text)
    exact hmask himage ▸ himage
  · exact hmask

/-- A text and its masked form have the same length. -/
theorem length_mask (text : Text) : (mask text).length = text.length :=
  (mask_forall₂ text).length_eq

/-- At each place of a text the masked text has an image of the character there. -/
theorem exists_getElem?_mask {text : Text} {index : Nat} {c : Char} (h : text[index]? = some c) :
    ∃ m, (mask text)[index]? = some m ∧ IsMaskOf m c := by
  obtain ⟨hindex, rfl⟩ := List.getElem?_eq_some_iff.mp h
  have hmasked : index < (mask text).length := length_mask text ▸ hindex
  exact ⟨_, List.getElem?_eq_getElem hmasked, (mask_forall₂ text).get hmasked hindex⟩

/-- What the masked text shows at a place is what the text has there. -/
theorem getElem?_of_getElem?_mask {text : Text} {index : Nat} {c : Char}
    (h : (mask text)[index]? = some c) (hblank : c ≠ ' ') : text[index]? = some c := by
  obtain ⟨hindex, -⟩ := List.getElem?_eq_some_iff.mp h
  have htext := List.getElem?_eq_getElem (length_mask text ▸ hindex)
  obtain ⟨m, hm, himage⟩ := exists_getElem?_mask htext
  obtain rfl : m = c := Option.some.inj (hm.symm.trans h)
  rcases himage with rfl | ⟨rfl, -⟩
  · exact htext
  · exact absurd rfl hblank

/-- Lines begin where they do in a text that is masked character by character. -/
theorem LineIndex.startsFrom_eq_of_forall₂ {image text : Text}
    (h : List.Forall₂ IsMaskOf image text) (offset : Nat) :
    startsFrom offset image = startsFrom offset text := by
  induction h generalizing offset with
  | nil => rfl
  | @cons m c image text hmask _ ih =>
    have hbreak : m = '\n' ↔ c = '\n' := by
      rcases hmask with rfl | ⟨rfl, hne⟩
      · exact Iff.rfl
      · exact iff_of_false (by decide) hne
    simp only [startsFrom, ih, hbreak]

/-- The lines of a masked text begin where those of the text do. -/
theorem LineIndex.ofText_mask (text : Text) : ofText (mask text) = ofText text := by
  rw [ofText, ofText, startsFrom_eq_of_forall₂ (mask_forall₂ text)]

/-- A masked text has the places of its text: the same offsets, each with the character of the text
or a blank in place of one that is no line break, the same line breaks, and the same lines and
columns. -/
structure HasPlacesOf (masked text : Text) : Prop where
  length : masked.length = text.length
  shown : ∀ (index : Nat) (c : Char), text[index]? = some c →
    masked[index]? = some c ∨ masked[index]? = some ' ' ∧ c ≠ '\n'
  breaks : ∀ index : Nat, masked[index]? = some '\n' ↔ text[index]? = some '\n'
  positions : ∀ offset,
    (LineIndex.ofText masked).position offset = (LineIndex.ofText text).position offset

/-- Masking keeps every place of a text, whatever it leaves open at its end. -/
theorem hasPlacesOf_mask (text : Text) : HasPlacesOf (mask text) text := by
  have hshown : ∀ (index : Nat) (c : Char), text[index]? = some c →
      (mask text)[index]? = some c ∨ (mask text)[index]? = some ' ' ∧ c ≠ '\n' := by
    intro index c hc
    obtain ⟨m, hm, rfl | ⟨rfl, hne⟩⟩ := exists_getElem?_mask hc
    · exact .inl hm
    · exact .inr ⟨hm, hne⟩
  refine ⟨length_mask text, hshown, fun index => ⟨fun h => ?_, fun h => ?_⟩, fun offset => ?_⟩
  · exact getElem?_of_getElem?_mask h (by decide)
  · exact (hshown index '\n' h).resolve_right fun hblank => hblank.2 rfl
  · rw [LineIndex.ofText_mask]

/-- A stretch that the masked text shows without blanks is the stretch of the text. -/
theorem slice_eq_of_slice_mask {text stretch : Text} {start stop : Nat}
    (h : (mask text).slice start stop = stretch) (hblank : ∀ c ∈ stretch, c ≠ ' ') :
    text.slice start stop = stretch := by
  subst h
  refine List.ext_getElem? fun index => ?_
  have hlength : (text.slice start stop).length = ((mask text).slice start stop).length := by
    simp [Text.slice, length_mask]
  rcases Nat.lt_or_ge index ((mask text).slice start stop).length with hindex | hindex
  · have hmem := List.getElem_mem hindex
    have hchar := List.getElem?_eq_getElem hindex
    rw [hchar]
    have hshow : (mask text)[start + index]? = some ((mask text).slice start stop)[index] := by
      rw [← hchar, Text.slice, List.getElem?_drop, List.getElem?_take, if_pos]
      simp only [Text.slice, List.length_drop, List.length_take] at hindex
      omega
    have hraw := getElem?_of_getElem?_mask hshow (hblank _ hmem)
    rw [Text.slice, List.getElem?_drop, List.getElem?_take, if_pos, hraw]
    simp only [Text.slice, List.length_drop, List.length_take] at hindex
    omega
  · rw [List.getElem?_eq_none (by omega), List.getElem?_eq_none (by omega)]

end FactoryDowngrade
