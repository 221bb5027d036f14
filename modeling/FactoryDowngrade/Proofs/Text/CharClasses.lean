import FactoryDowngrade.Text.CharClass

/-!
# Relations between classes of characters

The characters that open a name belong to words, and so do capitals and digits. Blanks do not. A run
of a class goes on to the first element that is not of it.
-/

namespace FactoryDowngrade

/-! ### Runs of a class -/

section Runs

variable {α : Type} {p q : α → Bool}

/-- What is of a class is of every larger one. -/
theorem any_of_imp (himp : ∀ x, p x = true → q x = true) {next : Option α}
    (h : next.any p = true) : next.any q = true := by
  rw [Option.any_eq_true] at h ⊢
  exact h.imp fun x hx => hx.imp_right (himp x)

/-- Where nothing of a class stands, nothing of a smaller class does. -/
theorem any_eq_false_of_imp (himp : ∀ x, p x = true → q x = true) {next : Option α}
    (h : next.any q = false) : next.any p = false := by
  rw [Bool.eq_false_iff] at h ⊢
  exact fun hp => h (any_of_imp himp hp)

/-- A run stops in front of an element that is not of the class. -/
theorem takeWhile_append_stop {front rest : List α} (hfront : ∀ x ∈ front, p x = true)
    (hrest : rest.head?.any p = false) :
    (front ++ rest).takeWhile p = front ∧ (front ++ rest).dropWhile p = rest := by
  rw [List.takeWhile_append_of_pos hfront, List.dropWhile_append_of_pos hfront]
  cases rest with
  | nil => simp
  | cons x rest =>
    have hx : p x = false := hrest
    simp [hx]

/-- A run is told from what follows it. -/
theorem append_inj_of_all {u v x y : List α} (hu : ∀ a ∈ u, p a = true) (hv : ∀ a ∈ v, p a = true)
    (hx : x.head?.any p = false) (hy : y.head?.any p = false) (h : u ++ x = v ++ y) :
    u = v ∧ x = y := by
  obtain ⟨htakeU, hdropX⟩ := takeWhile_append_stop hu hx
  obtain ⟨htakeV, hdropY⟩ := takeWhile_append_stop hv hy
  constructor
  · rw [← htakeU, h, htakeV]
  · rw [← hdropX, h, hdropY]

/-- Behind a run stands nothing of the class. -/
theorem any_head?_dropWhile (p : α → Bool) (xs : List α) :
    (xs.dropWhile p).head?.any p = false := by
  have hstop := List.head?_dropWhile_not p xs
  rw [Option.any_eq_false]
  intro x hx
  rwa [hx] at hstop

/-- What follows a run is what is left without its elements. -/
theorem drop_length_takeWhile (p : α → Bool) (xs : List α) :
    xs.drop (xs.takeWhile p).length = xs.dropWhile p := by
  induction xs with
  | nil => rfl
  | cons x xs ih => cases hx : p x <;> simp [hx, ih]

end Runs

namespace CharClass

/-- Inclusive ranges of the blanks beyond ASCII. -/
def blankRanges : List (Nat × Nat) :=
  [(0x85, 0x85), (0xA0, 0xA0), (0x1680, 0x1680), (0x2000, 0x200A), (0x2028, 0x2029),
    (0x202F, 0x202F), (0x205F, 0x205F), (0x3000, 0x3000)]

/-- No range of letters meets a range of blanks. -/
theorem letterRanges_disjoint_blankRanges :
    (letterRanges.all fun letters => blankRanges.all fun blanks =>
      letters.2.blt blanks.1 || blanks.2.blt letters.1) = true := by
  decide +kernel

/-- A blank beyond ASCII lies in one of the ranges. -/
theorem exists_blankRange {c : Char} (h : isBlank c = true) (hascii : ¬c.toNat < 128) :
    ∃ range ∈ blankRanges, range.1 ≤ c.toNat ∧ c.toNat ≤ range.2 := by
  simp only [isBlank, Bool.or_eq_true, Bool.and_eq_true, beq_iff_eq, decide_eq_true_eq] at h
  simp only [blankRanges, List.mem_cons, List.not_mem_nil, or_false, exists_eq_or_imp,
    exists_eq_left]
  omega

/-- ASCII blanks are neither letters nor digits. -/
theorem isAlphanum_eq_false_of_isBlank {c : Char} (h : isBlank c = true) (hascii : c.toNat < 128) :
    c.isAlphanum = false := by
  have hcodes : ∀ n ∈ [32, 9, 10, 11, 12, 13, 28, 29, 30, 31],
      (Char.ofNat n).isAlphanum = false := by decide
  have hcode : c.toNat ∈ [32, 9, 10, 11, 12, 13, 28, 29, 30, 31] := by
    simp only [isBlank, Bool.or_eq_true, Bool.and_eq_true, beq_iff_eq, decide_eq_true_eq] at h
    simp only [List.mem_cons, List.not_mem_nil, or_false]
    omega
  have hplain := hcodes _ hcode
  rwa [Char.ofNat_toNat] at hplain

/-- Blanks are no word characters. -/
theorem isWord_eq_false_of_isBlank {c : Char} (h : isBlank c = true) :
    isWord c = false := by
  have hunderscore : c ≠ '_' := by
    rintro rfl
    exact absurd h (by decide)
  rw [isWord, beq_false_of_ne hunderscore, Bool.false_or, isAlnum]
  split
  · rename_i hascii
    exact isAlphanum_eq_false_of_isBlank h hascii
  · rename_i hascii
    obtain ⟨blanks, hblanks, hlow, hhigh⟩ := exists_blankRange h hascii
    rw [within, List.any_eq_false]
    intro letters hletters hinside
    have hdisjoint := List.all_eq_true.mp (List.all_eq_true.mp letterRanges_disjoint_blankRanges
      letters hletters) blanks hblanks
    simp only [Bool.and_eq_true, decide_eq_true_eq, Bool.or_eq_true, Nat.blt_eq]
      at hinside hdisjoint
    omega

/-- Word characters are no blanks. -/
theorem isBlank_eq_false_of_isWord {c : Char} (h : isWord c = true) : isBlank c = false := by
  rw [Bool.eq_false_iff]
  intro hblank
  rw [isWord_eq_false_of_isBlank hblank] at h
  cases h

/-- A space or a tab is one of the two. -/
theorem mem_of_isSpaceOrTab {c : Char} (h : isSpaceOrTab c = true) : c ∈ [' ', '\t'] := by
  simpa [isSpaceOrTab] using h

/-- Spaces and tabs are blanks. -/
theorem isBlank_of_isSpaceOrTab {c : Char} (h : isSpaceOrTab c = true) : isBlank c = true := by
  rcases List.mem_cons.mp (mem_of_isSpaceOrTab h) with rfl | htab
  · rfl
  · rw [List.mem_singleton.mp htab]
    rfl

/-- What is no blank is neither a space nor a tab. -/
theorem isSpaceOrTab_eq_false {c : Char} (h : isBlank c = false) : isSpaceOrTab c = false := by
  rw [Bool.eq_false_iff]
  intro hspace
  rw [isBlank_of_isSpaceOrTab hspace] at h
  cases h

/-- What opens a name belongs to words. -/
theorem isWord_of_isNameStart {c : Char} (h : isNameStart c = true) : isWord c = true := by
  simp only [isNameStart, isWord, Bool.or_eq_true] at h ⊢
  refine h.imp_right fun halpha => ?_
  have hascii : c.toNat < 128 := by
    obtain hcapital | hsmall := Bool.or_eq_true_iff.mp halpha
    · have hcode : c.toNat ≤ 90 := (of_decide_eq_true hcapital).2
      omega
    · have hcode : c.toNat ≤ 122 := of_decide_eq_true (Bool.and_eq_true_iff.mp hsmall).2
      omega
  rw [isAlnum, if_pos hascii, Char.isAlphanum, halpha]
  rfl

/-- What opens a local name belongs to words. -/
theorem isWord_of_isLowerStart {c : Char} (h : isLowerStart c = true) : isWord c = true := by
  refine isWord_of_isNameStart ?_
  simp only [isLowerStart, isNameStart, Bool.or_eq_true] at h ⊢
  exact h.imp_right fun hlower => Bool.or_eq_true_iff.mpr (.inr hlower)

/-- Capital letters belong to words. -/
theorem isWord_of_isUpper {c : Char} (h : c.isUpper = true) : isWord c = true := by
  have halpha : c.isAlpha = true := Bool.or_eq_true_iff.mpr (.inl h)
  exact isWord_of_isNameStart (by simp [isNameStart, halpha])

/-- Digits belong to words. -/
theorem isWord_of_isDigit {c : Char} (h : c.isDigit = true) : isWord c = true := by
  have hascii : c.toNat < 128 := by
    simp only [Char.isDigit, Bool.and_eq_true, decide_eq_true_eq, UInt32.le_iff_toNat_le] at h
    have hdigits : '9'.val.toNat = 57 := rfl
    simp only [Char.toNat]
    omega
  rw [isWord, isAlnum, if_pos hascii, Char.isAlphanum, h, Bool.or_true, Bool.or_true]

end CharClass

end FactoryDowngrade
