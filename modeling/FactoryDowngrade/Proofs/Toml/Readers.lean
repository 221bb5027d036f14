import FactoryDowngrade.Toml.Parser

/-!
# What readers leave

Every reader of a configuration file takes something from the front of a text and leaves an end of
it. So what a later reader meets stands in the file as well.
-/

namespace FactoryDowngrade

namespace Toml

variable {α β : Type} {s rest : Text}

/-- What is made of a token leaves what the token leaves. -/
theorem suffix_of_map {found : Option (α × Text)} {make : α × Text → β × Text} {b : β}
    (h : found.map make = some (b, rest)) (hmake : ∀ x, (make x).2 = x.2)
    (hfound : ∀ a, found = some (a, rest) → rest <:+ s) : rest <:+ s := by
  obtain ⟨⟨a, last⟩, ha, hb⟩ := Option.map_eq_some_iff.mp h
  obtain rfl : last = rest := (hmake (a, last)).symm.trans (congrArg Prod.snd hb)
  exact hfound a ha

/-- A token that need not be there leaves all of the text if it is not. -/
theorem getD_suffix {found : Option Text} (h : ∀ rest, found = some rest → rest <:+ s) :
    found.getD s <:+ s := by
  cases hfound : found with
  | none => exact List.suffix_rfl
  | some rest => exact h rest hfound

/-! ### Strings -/

/-- Hexadecimal digits are read off the front. -/
theorem hexDigits_suffix {count n m : Nat} (h : hexDigits count n s = some (m, rest)) :
    rest <:+ s := by
  fun_induction hexDigits count n s with
  | case1 n s => cases h; exact List.suffix_rfl
  | case2 count n c s digit hdigit ih => exact (ih _ _ h).trans (List.suffix_cons c s)
  | case3 count n c s digit hnot hletter ih => exact (ih _ _ h).trans (List.suffix_cons c s)
  | case4 count n c s digit hnot hnot' hletter ih => exact (ih _ _ h).trans (List.suffix_cons c s)
  | case5 => cases h
  | case6 => cases h

/-- A code point is read off the front. -/
theorem codePoint_suffix {width : Nat} {c : Char} (h : codePoint width s = some (c, rest)) :
    rest <:+ s := by
  simp only [codePoint, Option.bind_eq_bind, Option.bind_eq_some_iff] at h
  obtain ⟨⟨n, behind⟩, hdigits, h⟩ := h
  dsimp only at h
  split at h
  · cases h
    exact hexDigits_suffix hdigits
  · cases h

/-- An escape is read off the front. -/
theorem escape_suffix {c : Char} (h : escape s = some (c, rest)) : rest <:+ s := by
  unfold escape at h
  split at h
  case h_8 => exact (codePoint_suffix h).trans (List.suffix_cons _ _)
  case h_9 => exact (codePoint_suffix h).trans (List.suffix_cons _ _)
  case h_10 => cases h
  all_goals
    cases h
    exact List.suffix_cons _ _

/-- Passing over blanks leaves the end of the text. -/
theorem skipBlanks_suffix (s : Text) : skipBlanks s <:+ s :=
  List.dropWhile_suffix _

/-- A hidden line break is passed over with the blanks behind it, up to the end of the text that is
left. -/
theorem hiddenBreak?_suffix (h : hiddenBreak? s = some rest) : rest <:+ s := by
  unfold hiddenBreak? at h
  split at h
  · split at h
    · split at h
      · cases h
        exact List.nil_suffix
      · rename_i hblanks
        cases h
        exact ((List.dropWhile_suffix _).trans (List.suffix_cons _ _)).trans
          (hblanks ▸ skipBlanks_suffix _)
      · cases h
    · cases h
  · cases h

/-- A string on one line is read off the front, escapes included. -/
theorem lineString_suffix {fuel : Nat} {body : Text} (h : lineString fuel s = some (body, rest)) :
    rest <:+ s := by
  fun_induction lineString fuel s generalizing body with
  | case1 => cases h
  | case2 => cases h
  | case3 fuel behind => cases h; exact List.suffix_cons _ _
  | case4 fuel behind ih =>
    simp only [Option.bind_eq_bind, Option.bind_eq_some_iff] at h
    obtain ⟨⟨c, next⟩, hescape, ⟨more, last⟩, hmore, h⟩ := h
    cases h
    exact ((ih _ hmore).trans (escape_suffix hescape)).trans (List.suffix_cons _ _)
  | case5 => cases h
  | case6 fuel c behind hne hne' hplain ih =>
    exact (suffix_of_map h (fun _ => rfl) fun _ => ih).trans (List.suffix_cons _ _)

/-- So is one over several lines. -/
theorem blockString_suffix {fuel : Nat} {body : Text} (h : blockString fuel s = some (body, rest)) :
    rest <:+ s := by
  induction fuel generalizing s body with
  | zero => cases h
  | succ fuel ih =>
    unfold blockString at h
    split at h
    · cases h
    · cases h
      exact (((List.suffix_cons _ _).trans (List.suffix_cons _ _)).trans (List.suffix_cons _ _))
    · split at h
      · rename_i c next hescape
        exact ((suffix_of_map h (fun _ => rfl) fun _ => ih).trans
          (escape_suffix hescape)).trans (List.suffix_cons _ _)
      · obtain ⟨next, hnext, h⟩ := Option.bind_eq_some_iff.mp h
        exact ((ih h).trans (hiddenBreak?_suffix hnext)).trans (List.suffix_cons _ _)
    · split at h
      · cases h
      · exact (suffix_of_map h (fun _ => rfl) fun _ => ih).trans (List.suffix_cons _ _)

/-- A string without escapes is read off the front. -/
theorem plainString_suffix {body : Text} (h : plainString s = some (body, rest)) : rest <:+ s := by
  fun_induction plainString s generalizing body with
  | case1 => cases h
  | case2 behind => cases h; exact List.suffix_cons _ _
  | case3 => cases h
  | case4 c behind hne hplain ih =>
    exact (suffix_of_map h (fun _ => rfl) fun _ => ih).trans (List.suffix_cons _ _)

/-- So is one over several lines. -/
theorem plainBlock_suffix {body : Text} (h : plainBlock s = some (body, rest)) : rest <:+ s := by
  fun_induction plainBlock s generalizing body with
  | case1 => cases h
  | case2 behind =>
    cases h
    exact (((List.suffix_cons _ _).trans (List.suffix_cons _ _)).trans (List.suffix_cons _ _))
  | case3 => cases h
  | case4 c behind hne hplain ih =>
    exact (suffix_of_map h (fun _ => rfl) fun _ => ih).trans (List.suffix_cons _ _)

/-- The quotes that end such a string with one or two of them in it come off the front. -/
theorem extraQuotes_suffix (quote : Char) (body : Text) :
    (extraQuotes quote (body, s)).2 <:+ s := by
  match s with
  | [] => exact List.suffix_rfl
  | [a] =>
    rw [extraQuotes]
    split
    · exact List.nil_suffix
    · exact List.suffix_rfl
  | a :: b :: behind =>
    rw [extraQuotes]
    split
    · split
      · exact (List.suffix_cons _ _).trans (List.suffix_cons _ _)
      · exact List.suffix_cons _ _
    · exact List.suffix_rfl

/-- Dropping the first line break leaves the end of the text. -/
theorem dropBreak_suffix (s : Text) : dropBreak s <:+ s := by
  unfold dropBreak
  split
  · exact List.suffix_cons _ _
  · exact List.suffix_rfl

/-- Behind three quotes and a line break, a string over several lines is read. -/
theorem block_suffix {quote : Char} {body : Text} {read : Reader Text}
    (hread : ∀ {body rest}, read (dropBreak s) = some (body, rest) → rest <:+ dropBreak s)
    (h : (read (dropBreak s)).map (extraQuotes quote) = some (body, rest)) : rest <:+ s := by
  obtain ⟨⟨more, last⟩, hmore, h⟩ := Option.map_eq_some_iff.mp h
  have hextra : (extraQuotes quote (more, last)).2 <:+ last := extraQuotes_suffix quote more
  rw [h] at hextra
  exact (hextra.trans (hread hmore)).trans (dropBreak_suffix s)

/-- A string of any of the four kinds is read off the front. -/
theorem string_suffix {body : Text} (h : string s = some (body, rest)) : rest <:+ s := by
  unfold string at h
  split at h
  · exact ((block_suffix blockString_suffix h).trans (List.suffix_cons _ _)).trans
      ((List.suffix_cons _ _).trans (List.suffix_cons _ _))
  · exact ((block_suffix plainBlock_suffix h).trans (List.suffix_cons _ _)).trans
      ((List.suffix_cons _ _).trans (List.suffix_cons _ _))
  · exact (lineString_suffix h).trans (List.suffix_cons _ _)
  · exact (plainString_suffix h).trans (List.suffix_cons _ _)
  · cases h

/-! ### Numbers -/

/-- Whether a character may stand in a number of several digits. -/
def IsNumeral (isDigit : Char → Bool) (c : Char) : Prop :=
  isDigit c = true ∨ c = '_'

/-- A group of digits is read off the characters of a number. -/
theorem exists_digitGroup (isDigit : Char → Bool) (s : Text) :
    ∃ taken, taken ++ (digitGroup isDigit s).2 = s ∧ (∀ c ∈ taken, IsNumeral isDigit c) ∧
      (digitGroup isDigit s).1.Sublist taken ∧
      ∀ c ∈ (digitGroup isDigit s).1, isDigit c = true := by
  fun_induction digitGroup isDigit s with
  | case1 c behind hdigit more last hmore ih =>
    rw [hmore] at ih
    obtain ⟨taken, rfl, hnumeral, hmore, hdigits⟩ := ih
    refine ⟨'_' :: c :: taken, rfl, ?_, (hmore.cons_cons c).cons '_', ?_⟩
    · simpa [IsNumeral, hdigit] using hnumeral
    · simpa [hdigit] using hdigits
  | case2 => exact ⟨[], rfl, by simp, List.Sublist.refl _, by simp⟩
  | case3 c behind hne hdigit more last hmore ih =>
    rw [hmore] at ih
    obtain ⟨taken, rfl, hnumeral, hmore, hdigits⟩ := ih
    refine ⟨c :: taken, rfl, ?_, hmore.cons_cons c, ?_⟩
    · simpa [IsNumeral, hdigit] using hnumeral
    · simpa [hdigit] using hdigits
  | case4 => exact ⟨[], rfl, by simp, List.Sublist.refl _, by simp⟩
  | case5 => exact ⟨[], rfl, by simp, List.Sublist.refl _, by simp⟩

/-- Digits come from a stretch of numerals at the front, in their order. -/
theorem exists_digits {isDigit : Char → Bool} {ds : Text} (h : digits isDigit s = some (ds, rest)) :
    ∃ taken, taken ++ rest = s ∧ (∀ c ∈ taken, IsNumeral isDigit c) ∧ ds.Sublist taken ∧
      ∀ c ∈ ds, isDigit c = true := by
  unfold digits at h
  split at h
  · rename_i c behind
    split at h
    · rename_i hdigit
      obtain ⟨taken, hbehind, hnumeral, hmore, hdigits⟩ := exists_digitGroup isDigit behind
      cases h
      refine ⟨c :: taken, by rw [List.cons_append, hbehind], ?_, hmore.cons_cons c, ?_⟩
      · simpa [IsNumeral, hdigit] using hnumeral
      · simpa [hdigit] using hdigits
    · cases h
  · cases h

/-- Digits are read off the front. -/
theorem digits_suffix {isDigit : Char → Bool} {ds : Text}
    (h : digits isDigit s = some (ds, rest)) : rest <:+ s := by
  obtain ⟨taken, htaken, -⟩ := exists_digits h
  exact ⟨taken, htaken⟩

/-- A number in another base is read off the front. -/
theorem basedNumber_suffix {v : Data} (h : basedNumber s = some (v, rest)) : rest <:+ s := by
  unfold basedNumber at h
  split at h
  · have hread {isDigit : Char → Bool} {behind : Text} (ds : Text)
        (hds : digits isDigit behind = some (ds, rest)) : rest <:+ behind := digits_suffix hds
    extract_lets read at h
    split at h
    · exact ((suffix_of_map h (fun _ => rfl) hread).trans (List.suffix_cons _ _)).trans
        (List.suffix_cons _ _)
    · split at h
      · exact ((suffix_of_map h (fun _ => rfl) hread).trans (List.suffix_cons _ _)).trans
          (List.suffix_cons _ _)
      · split at h
        · exact ((suffix_of_map h (fun _ => rfl) hread).trans (List.suffix_cons _ _)).trans
            (List.suffix_cons _ _)
        · cases h
  · cases h

/-- A sign comes off the front, if there is one. -/
theorem sign_suffix (s : Text) : (sign s).2 <:+ s := by
  unfold sign
  split
  · exact List.suffix_cons _ _
  · exact List.suffix_cons _ _
  · exact List.suffix_rfl

/-- The whole part of a number is read off its characters. -/
theorem exists_wholePart {ds : Text} (h : wholePart s = some (ds, rest)) :
    ∃ taken, taken ++ rest = s ∧ (∀ c ∈ taken, IsNumeral Char.isDigit c) ∧ ds.Sublist taken ∧
      ∀ c ∈ ds, c.isDigit = true := by
  unfold wholePart at h
  split at h
  · cases h
    exact ⟨['0'], rfl, by simp [IsNumeral], List.Sublist.refl _, by simp⟩
  · exact exists_digits h

/-- So does a fraction. -/
theorem fraction_suffix (s : Text) : (fraction s).2 <:+ s := by
  unfold fraction
  split
  · rename_i behind
    cases h : digits Char.isDigit behind with
    | none => exact List.suffix_rfl
    | some found => exact (digits_suffix h).trans (List.suffix_cons _ _)
  · exact List.suffix_rfl

/-- So does an exponent. -/
theorem exponent?_suffix (s : Text) : (exponent? s).2 <:+ s := by
  unfold exponent?
  split
  · rename_i mark behind
    split
    · dsimp only
      split
      · rename_i ds last h
        exact ((digits_suffix h).trans (sign_suffix behind)).trans (List.suffix_cons _ _)
      · exact List.suffix_rfl
    · exact List.suffix_rfl
  · exact List.suffix_rfl

/-- A number that is spelled as a word is read off the front. -/
theorem specialFloat_suffix {v : Data} (h : specialFloat s = some (v, rest)) : rest <:+ s := by
  unfold specialFloat at h
  dsimp only at h
  split at h
  · cases h
    exact (List.drop_suffix _ _).trans (sign_suffix s)
  · split at h
    · cases h
      exact (List.drop_suffix _ _).trans (sign_suffix s)
    · cases h

/-! ### Moments -/

/-- A field of a date is read off the front. -/
theorem field_suffix {width low high n : Nat} (h : field width low high s = some (n, rest)) :
    rest <:+ s := by
  unfold field at h
  dsimp only at h
  split at h
  · cases h
    exact List.drop_suffix _ _
  · cases h

/-- A mark between two fields is passed over. -/
theorem mark_suffix {c : Char} (h : mark c s = some rest) : rest <:+ s := by
  unfold mark at h
  split at h
  · cases h
    exact List.tail_suffix s
  · cases h

/-- A time is read off the front. -/
theorem timeOfDay_suffix (h : timeOfDay s = some rest) : rest <:+ s := by
  simp only [timeOfDay, Option.bind_eq_bind, Option.bind_eq_some_iff] at h
  obtain ⟨⟨_, s₁⟩, h₁, s₂, h₂, ⟨_, s₃⟩, h₃, s₄, h₄, ⟨_, s₅⟩, h₅, h⟩ := h
  have hseconds : s₅ <:+ s :=
    (((field_suffix h₅).trans (mark_suffix h₄)).trans (field_suffix h₃)).trans
      ((mark_suffix h₂).trans (field_suffix h₁))
  refine List.IsSuffix.trans ?_ hseconds
  dsimp only at h
  split at h
  · split at h
    · cases h
      exact ((List.dropWhile_suffix _).trans (List.suffix_cons _ _)).trans (List.suffix_cons _ _)
    · cases h
      exact List.suffix_rfl
  · cases h
    exact List.suffix_rfl

/-- A time zone comes off the front, if there is one. -/
theorem zone_suffix (s : Text) : zone s <:+ s := by
  unfold zone
  split
  · rename_i c behind
    split
    · exact List.suffix_cons _ _
    · split
      · refine getD_suffix fun last h => ?_
        simp only [Option.bind_eq_bind, Option.bind_eq_some_iff] at h
        obtain ⟨⟨_, s₁⟩, h₁, s₂, h₂, ⟨_, s₃⟩, h₃, h⟩ := h
        cases h
        exact ((field_suffix h₃).trans (mark_suffix h₂)).trans
          ((field_suffix h₁).trans (List.suffix_cons _ _))
      · exact List.suffix_rfl
  · exact List.suffix_rfl

/-- A date is read off the front. -/
theorem dateForm_suffix {date : Nat × Nat × Nat} (h : dateForm s = some (date, rest)) :
    rest <:+ s := by
  simp only [dateForm, Option.bind_eq_bind, Option.bind_eq_some_iff] at h
  obtain ⟨⟨_, s₁⟩, h₁, s₂, h₂, ⟨_, s₃⟩, h₃, s₄, h₄, ⟨_, s₅⟩, h₅, h⟩ := h
  cases h
  exact (((field_suffix h₅).trans (mark_suffix h₄)).trans (field_suffix h₃)).trans
    ((mark_suffix h₂).trans (field_suffix h₁))

/-- The time behind a date comes off the front, if there is one. -/
theorem timeBehind_suffix (s : Text) : timeBehind s <:+ s := by
  unfold timeBehind
  split
  · split
    · refine getD_suffix fun last h => ?_
      obtain ⟨time, htime, rfl⟩ := Option.map_eq_some_iff.mp h
      exact ((zone_suffix time).trans (timeOfDay_suffix htime)).trans (List.suffix_cons _ _)
    · exact List.suffix_rfl
  · exact List.suffix_rfl

/-- A date or a time is read off the front. -/
theorem moment?_suffix (h : moment? s = some (some rest)) : rest <:+ s := by
  unfold moment? at h
  split at h
  · rename_i date behind hdate
    rw [Option.some_inj] at h
    split at h
    · cases h
      exact (timeBehind_suffix _).trans (dateForm_suffix hdate)
    · cases h
  · obtain ⟨last, hlast, h⟩ := Option.map_eq_some_iff.mp h
    cases h
    exact timeOfDay_suffix hlast

/-! ### Comments and keys -/

/-- A comment is passed over up to the end of its line. -/
theorem skipComment_suffix (h : skipComment s = some rest) : rest <:+ s := by
  unfold skipComment at h
  split at h
  · dsimp only at h
    split at h
    · cases h
    · cases h
      exact (List.drop_suffix _ _).trans (List.suffix_cons _ _)
  · cases h
    exact List.suffix_rfl

/-- Blanks, line breaks and comments between values are passed over. -/
theorem skipFiller_suffix {fuel : Nat} (h : skipFiller fuel s = some rest) : rest <:+ s := by
  induction fuel generalizing s with
  | zero => cases h; exact List.suffix_rfl
  | succ fuel ih =>
    rw [skipFiller] at h
    split at h
    · rename_i behind hbehind
      obtain ⟨next, hnext, h⟩ := Option.bind_eq_some_iff.mp h
      exact ((ih h).trans (skipComment_suffix hnext)).trans (hbehind ▸ List.dropWhile_suffix _)
    · cases h
      exact List.dropWhile_suffix _

/-- A part of a key is read off the front. -/
theorem keyPart_suffix {part : String} (h : keyPart s = some (part, rest)) : rest <:+ s := by
  unfold keyPart at h
  split at h
  · exact (suffix_of_map h (fun _ => rfl) fun _ => lineString_suffix).trans
      (List.suffix_cons _ _)
  · exact (suffix_of_map h (fun _ => rfl) fun _ => plainString_suffix).trans
      (List.suffix_cons _ _)
  · dsimp only at h
    split at h
    · cases h
    · cases h
      exact List.drop_suffix _ _

/-- A dotted key is read off the front. -/
theorem key_suffix {fuel : Nat} {k : Key} (h : key fuel s = some (k, rest)) : rest <:+ s := by
  induction fuel generalizing s k with
  | zero => cases h
  | succ fuel ih =>
    simp only [key, Option.bind_eq_bind, Option.bind_eq_some_iff] at h
    obtain ⟨⟨part, behind⟩, hpart, h⟩ := h
    have hblanks : skipBlanks behind <:+ s := (skipBlanks_suffix _).trans (keyPart_suffix hpart)
    dsimp only at h
    split at h
    · rename_i next hnext
      obtain ⟨⟨more, last⟩, hmore, h⟩ := Option.bind_eq_some_iff.mp h
      cases h
      rw [hnext] at hblanks
      exact (((ih hmore).trans (skipBlanks_suffix _)).trans (List.suffix_cons _ _)).trans hblanks
    · cases h
      exact hblanks

/-- A key is read off the front with its sign of equality. -/
theorem keyAndSign_suffix {k : Key} (h : keyAndSign s = some (k, rest)) : rest <:+ s := by
  simp only [keyAndSign, Option.bind_eq_bind, Option.bind_eq_some_iff] at h
  obtain ⟨⟨k, behind⟩, hkey, h⟩ := h
  dsimp only at h
  split at h
  · cases h
    exact ((skipBlanks_suffix _).trans (List.suffix_cons _ _)).trans (key_suffix hkey)
  · cases h

end Toml

end FactoryDowngrade
