import FactoryDowngrade.Proofs.Text.CharClasses
import FactoryDowngrade.Proofs.Toml.Faults

/-!
# Values that are too large

A setting whose value has more than the digits that a number may have, or opens more lists in each
other than there is room for, keeps the whole file from being read, whatever stands behind it.
-/

namespace FactoryDowngrade

namespace Toml

section Setting

variable {name value : Text}

/-- A character of keys is none that keys do not have. -/
theorem ne_of_isKeyChar {c other : Char} (h : isKeyChar c = true)
    (hother : isKeyChar other = false) : c ≠ other := by
  rintro rfl
  rw [h] at hother
  cases hother

/-- A plain key and the sign behind it are read. -/
theorem keyAndSign_plain (hname : name ≠ []) (hkey : ∀ c ∈ name, isKeyChar c = true) :
    keyAndSign (name ++ '=' :: value) = some ([String.ofList name], skipBlanks value) := by
  have hstop : ('=' :: value).head?.any isKeyChar = false := rfl
  have htake := (takeWhile_append_stop hkey hstop).1
  have hpart : keyPart (name ++ '=' :: value) = some (String.ofList name, '=' :: value) := by
    unfold keyPart
    split
    · rename_i rest hquote
      rw [hquote, List.takeWhile_cons_of_neg (by decide)] at htake
      exact absurd htake.symm hname
    · rename_i rest hquote
      rw [hquote, List.takeWhile_cons_of_neg (by decide)] at htake
      exact absurd htake.symm hname
    · dsimp only
      rw [htake, List.drop_left, if_neg (by simpa using hname)]
  have hblanks : skipBlanks ('=' :: value) = '=' :: value := rfl
  simp [keyAndSign, key, hpart, hblanks]

/-- A text without carriage returns stays as it is. -/
theorem joinLineEnds_of_notMem {text : Text} (h : '\r' ∉ text) : joinLineEnds text = text := by
  fun_induction joinLineEnds text with
  | case1 rest ih => simp at h
  | case2 c rest hne ih => rw [ih (fun hmem => h (List.mem_cons_of_mem _ hmem))]
  | case3 => rfl

/-- A line with a plain key is a setting. -/
theorem line_plain {fault : Fault} {d : Document} {current : Key} (hname : name ≠ [])
    (hkey : ∀ c ∈ name, isKeyChar c = true)
    (hvalue : Toml.value (3 * (skipBlanks value).length + 3) nestingRoom (skipBlanks value) =
      .error fault) : line d current (name ++ '=' :: value) = .error fault := by
  have hsign : keyAndSign (name ++ '=' :: value) = some ([String.ofList name], skipBlanks value) :=
    keyAndSign_plain hname hkey
  obtain ⟨first, more, rfl⟩ := List.exists_cons_of_ne_nil hname
  have hfirst := hkey first List.mem_cons_self
  rw [List.cons_append] at hsign ⊢
  unfold line
  split
  · rename_i rest heq
    exact absurd (List.cons.inj heq).1 (ne_of_isKeyChar hfirst (by decide))
  · rename_i rest heq
    exact absurd (List.cons.inj heq).1 (ne_of_isKeyChar hfirst (by decide))
  · rename_i rest heq
    exact absurd (List.cons.inj heq).1 (ne_of_isKeyChar hfirst (by decide))
  · simp [hsign, required, hvalue, bind, Except.bind]

/-- A value that cannot be read keeps the file from being read. -/
theorem parse_plain {fault : Fault} (hname : name ≠ []) (hkey : ∀ c ∈ name, isKeyChar c = true)
    (hplain : '\r' ∉ value)
    (hvalue : Toml.value (3 * (skipBlanks value).length + 3) nestingRoom (skipBlanks value) =
      .error fault) : parse (name ++ '=' :: value) = .error fault := by
  have hends : joinLineEnds (name ++ '=' :: value) = name ++ '=' :: value := by
    refine joinLineEnds_of_notMem fun hmem => ?_
    rcases List.mem_append.mp hmem with hmem | hmem
    · exact ne_of_isKeyChar (hkey _ hmem) (by decide : isKeyChar '\r' = false) rfl
    · rcases List.mem_cons.mp hmem with heq | hmem
      · exact absurd heq (by decide)
      · exact hplain hmem
  have hline : line .empty [] (name ++ '=' :: value) = .error fault :=
    line_plain hname hkey hvalue
  obtain ⟨first, more, rfl⟩ := List.exists_cons_of_ne_nil hname
  have hfirst := hkey first List.mem_cons_self
  have hblank : CharClass.isSpaceOrTab first = false := by
    rw [Bool.eq_false_iff]
    intro hblank
    simp only [CharClass.isSpaceOrTab, Bool.or_eq_true, beq_iff_eq] at hblank
    rcases hblank with rfl | rfl
    · exact absurd hfirst (by decide)
    · exact absurd hfirst (by decide)
  have hskip : skipBlanks (first :: more ++ '=' :: value) = first :: more ++ '=' :: value := by
    rw [skipBlanks, List.cons_append, List.dropWhile_cons_of_neg (by simp [hblank])]
  rw [parse, hends]
  rw [lines, hskip]
  rw [List.cons_append] at hline ⊢
  split
  · rename_i heq
    cases heq
  · rename_i rest heq
    exact absurd (List.cons.inj heq).1 (ne_of_isKeyChar hfirst (by decide))
  · rw [hline]
    rfl

end Setting

/-! ### Lists in each other -/

/-- Nothing is passed over before a bracket. -/
theorem skipFiller_bracket (fuel : Nat) (rest : Text) :
    skipFiller fuel ('[' :: rest) = some ('[' :: rest) := by
  cases fuel <;> rfl

/-- Lists are opened in each other until there is no room left. -/
theorem value_brackets (n : Nat) : ∀ {fuel room : Nat} (rest : Text), room < listRoom * n →
    listRoom * n ≤ fuel → value fuel room (List.replicate n '[' ++ rest) = .error .tooDeep := by
  induction n with
  | zero => intro fuel room rest hroom; simp at hroom
  | succ n ih =>
    intro fuel room rest hroom hfuel
    rw [listRoom] at hroom hfuel ih
    -- a list takes one step for itself and one for its first item
    obtain ⟨fuel, rfl⟩ : ∃ k, fuel = k + 2 := ⟨fuel - 2, by omega⟩
    rw [List.replicate_succ, List.cons_append, value]
    split
    · rfl
    · rename_i hopen
      rw [listRoom] at hopen ⊢
      have hinner : value fuel (room - 2) (List.replicate n '[' ++ rest) = .error .tooDeep :=
        ih rest (by omega) (by omega)
      obtain ⟨n, rfl⟩ : ∃ k, n = k + 1 := ⟨n - 1, by omega⟩
      rw [List.replicate_succ, List.cons_append] at hinner ⊢
      rw [skipFiller_bracket]
      simp [required, bind, Except.bind, listItems, hinner]

/-- A file with a setting that opens too many lists in each other is not read. -/
theorem parse_brackets {name rest : Text} {n : Nat} (hname : name ≠ [])
    (hkey : ∀ c ∈ name, isKeyChar c = true) (hrest : '\r' ∉ rest)
    (hdeep : nestingRoom < listRoom * n) :
    parse (name ++ '=' :: (List.replicate n '[' ++ rest)) = .error .tooDeep := by
  have hblanks : skipBlanks (List.replicate n '[' ++ rest) = List.replicate n '[' ++ rest := by
    obtain ⟨n, rfl⟩ : ∃ k, n = k + 1 := ⟨n - 1, by rw [listRoom] at hdeep; omega⟩
    rfl
  refine parse_plain hname hkey ?_ ?_
  · simpa using hrest
  · rw [hblanks]
    refine value_brackets n rest hdeep ?_
    rw [List.length_append, List.length_replicate, listRoom]
    omega

/-! ### Numbers of many digits -/

/-- What cannot follow the digits of a number in the number. -/
def EndsNumber (behind : Text) : Prop :=
  ∀ c ∈ behind.head?, isKeyChar c = false ∧ c ≠ '.'

section Digits

variable {number behind : Text}

/-- Digits may stand in keys. -/
theorem isKeyChar_of_isDigit {c : Char} (h : c.isDigit = true) : isKeyChar c = true := by
  simp [isKeyChar, Char.isAlphanum, h]

/-- A group of digits is read up to its end. -/
theorem digitGroup_append (hnumber : ∀ c ∈ number, c.isDigit = true) (hbehind : EndsNumber behind) :
    digitGroup Char.isDigit (number ++ behind) = (number, behind) := by
  induction number with
  | nil =>
    cases behind with
    | nil => rfl
    | cons c rest =>
      obtain ⟨hkey, -⟩ := hbehind c rfl
      have hdigit : ¬c.isDigit = true := fun h => ne_of_isKeyChar (isKeyChar_of_isDigit h) hkey rfl
      rw [List.nil_append]
      unfold digitGroup
      split
      · rename_i heq
        cases heq
        exact absurd hkey (by decide)
      · rename_i heq
        cases heq
        rw [if_neg hdigit]
      · rename_i heq
        cases heq
  | cons c number ih =>
    have hdigit := hnumber c List.mem_cons_self
    have hmore := ih fun d hd => hnumber d (List.mem_cons_of_mem _ hd)
    rw [List.cons_append]
    unfold digitGroup
    split
    · rename_i heq
      rw [(List.cons.inj heq).1] at hdigit
      exact absurd hdigit (by decide)
    · rename_i heq
      cases heq
      rw [if_pos hdigit, hmore]
    · rename_i heq
      cases heq

/-- Where a number ends no fraction begins. -/
theorem fraction_of_endsNumber (h : EndsNumber behind) : fraction behind = ([], behind) := by
  unfold fraction
  split
  · exact absurd rfl (h '.' rfl).2
  · rfl

/-- No exponent begins there either. -/
theorem exponent?_of_endsNumber (h : EndsNumber behind) : exponent? behind = (none, behind) := by
  cases behind with
  | nil => rfl
  | cons c rest =>
    obtain ⟨hkey, -⟩ := h c rfl
    have hmark : ¬(c == 'e' || c == 'E') = true := by
      simp only [Bool.or_eq_true, beq_iff_eq]
      rintro (rfl | rfl)
      · exact absurd hkey (by decide)
      · exact absurd hkey (by decide)
    rw [exponent?, if_neg hmark]

end Digits

/-- A field of a date takes as many characters as it is wide. -/
theorem eq_drop_of_field {width low high n : Nat} {s rest : Text}
    (h : field width low high s = some (n, rest)) : rest = s.drop width := by
  unfold field at h
  dsimp only at h
  split at h
  · cases h
    rfl
  · cases h

/-- A number has digits only, does not begin with a zero, and has too many of them. -/
structure IsTooLong (number : Text) : Prop where
  digits : ∀ c ∈ number, c.isDigit = true
  first : number.head? ≠ some '0'
  many : digitLimit < number.length

namespace IsTooLong

variable {number behind : Text}

/-- Such a number begins with a digit that is no zero, and with others behind it. -/
theorem exists_cons (h : IsTooLong number) : ∃ c₁ c₂ c₃ c₄ c₅ rest,
    number = c₁ :: c₂ :: c₃ :: c₄ :: c₅ :: rest ∧ c₁ ≠ '0' := by
  have hmany := h.many
  rw [digitLimit] at hmany
  match number, h, hmany with
  | c₁ :: c₂ :: c₃ :: c₄ :: c₅ :: rest, h, _ =>
    exact ⟨c₁, c₂, c₃, c₄, c₅, rest, rfl, fun hzero => h.first (by rw [hzero]; rfl)⟩

/-- No digit of such a number is another character. -/
theorem ne_of_mem {c other : Char} (h : IsTooLong number) (hc : c ∈ number)
    (hother : other.isDigit = false) : c ≠ other := by
  rintro rfl
  rw [h.digits c hc] at hother
  cases hother

/-- It is no text that begins with another character than a digit. -/
theorem append_ne_cons (h : IsTooLong number) {other : Char} (hother : other.isDigit = false)
    (behind rest : Text) : number ++ behind ≠ other :: rest := by
  obtain ⟨c, _, _, _, _, _, rfl, -⟩ := h.exists_cons
  intro heq
  exact h.ne_of_mem List.mem_cons_self hother (List.cons.inj heq).1

/-- The number begins with no word that begins otherwise. -/
theorem startsWith_eq_false (h : IsTooLong number) {other : Char} (hother : other.isDigit = false)
    (behind word : Text) : (number ++ behind).startsWith (other :: word) = false := by
  rw [Text.startsWith, Bool.eq_false_iff]
  intro hprefix
  obtain ⟨rest, hrest⟩ := List.isPrefixOf_iff_prefix.mp hprefix
  exact h.append_ne_cons hother behind (word ++ rest) hrest.symm

/-- All of its digits are read. -/
theorem wholePart (h : IsTooLong number) (hbehind : EndsNumber behind) :
    Toml.wholePart (number ++ behind) = some (number, behind) := by
  obtain ⟨c, _, _, _, _, _, hnumber, hzero⟩ := h.exists_cons
  obtain ⟨more, rfl⟩ : ∃ more, number = c :: more := ⟨_, hnumber⟩
  have hmore := digitGroup_append (fun d hd => h.digits d (List.mem_cons_of_mem _ hd)) hbehind
  rw [List.cons_append]
  unfold Toml.wholePart
  split
  · rename_i heq
    exact absurd (List.cons.inj heq).1 hzero
  · rw [Toml.digits, if_pos (h.digits c List.mem_cons_self), hmore]

/-- It is taken for a number of too many digits. -/
theorem decimalNumber (h : IsTooLong number) (hbehind : EndsNumber behind) :
    Toml.decimalNumber (number ++ behind) =
      some (.error (.tooManyDigits number.length), behind) := by
  have hsign : sign (number ++ behind) = (false, number ++ behind) := by
    unfold sign
    split
    · rename_i rest hminus
      exact absurd hminus (h.append_ne_cons (by decide) _ _)
    · rename_i rest hplus
      exact absurd hplus (h.append_ne_cons (by decide) _ _)
    · rfl
  simp [Toml.decimalNumber, hsign, h.wholePart hbehind, fraction_of_endsNumber hbehind,
    exponent?_of_endsNumber hbehind, wholeNumber, h.many]

/-- It is no date and no time. -/
theorem moment?_eq_none (h : IsTooLong number) (behind : Text) :
    moment? (number ++ behind) = none := by
  obtain ⟨c₁, c₂, c₃, c₄, c₅, rest, rfl, -⟩ := h.exists_cons
  have hdash : c₅ ≠ '-' := h.ne_of_mem (by simp) (by decide)
  have hcolon : c₃ ≠ ':' := h.ne_of_mem (by simp) (by decide)
  have hdate : dateForm (c₁ :: c₂ :: c₃ :: c₄ :: c₅ :: rest ++ behind) = none := by
    rw [dateForm]
    cases hfield : field 4 0 9999 (c₁ :: c₂ :: c₃ :: c₄ :: c₅ :: rest ++ behind) with
    | none => rfl
    | some found =>
      obtain ⟨year, last⟩ := found
      obtain rfl := eq_drop_of_field hfield
      simp [mark, hdash]
  have htime : timeOfDay (c₁ :: c₂ :: c₃ :: c₄ :: c₅ :: rest ++ behind) = none := by
    rw [timeOfDay]
    cases hfield : field 2 0 23 (c₁ :: c₂ :: c₃ :: c₄ :: c₅ :: rest ++ behind) with
    | none => rfl
    | some found =>
      obtain ⟨hour, last⟩ := found
      obtain rfl := eq_drop_of_field hfield
      simp [mark, hcolon]
  rw [moment?, hdate, htime]
  rfl

/-- It is no number in another base. -/
theorem basedNumber_eq_none (h : IsTooLong number) (behind : Text) :
    basedNumber (number ++ behind) = none := by
  obtain ⟨c, _, _, _, _, _, rfl, hzero⟩ := h.exists_cons
  unfold basedNumber
  split
  · rename_i mark rest heq
    exact absurd (List.cons.inj heq).1 hzero
  · rfl

/-- So it is a value of too many digits. -/
theorem scalar (h : IsTooLong number) (hbehind : EndsNumber behind) :
    Toml.scalar (number ++ behind) = .error (.tooManyDigits number.length) := by
  have hmoment := h.moment?_eq_none behind
  have hbased := h.basedNumber_eq_none behind
  have hdecimal := h.decimalNumber hbehind
  unfold Toml.scalar
  split
  · rename_i behind' hquote
    exact absurd hquote (h.append_ne_cons (by decide) _ _)
  · rename_i behind' hquote
    exact absurd hquote (h.append_ne_cons (by decide) _ _)
  · have htrue : (number ++ behind).startsWith "true".toList = false :=
      h.startsWith_eq_false (by decide : 't'.isDigit = false) _ _
    have hfalse : (number ++ behind).startsWith "false".toList = false :=
      h.startsWith_eq_false (by decide : 'f'.isDigit = false) _ _
    rw [htrue, hfalse, hmoment, hbased, hdecimal]
    rfl

/-- Nor does it open a list or an inline table. -/
theorem value (h : IsTooLong number) (hbehind : EndsNumber behind) (fuel room : Nat) :
    Toml.value (fuel + 1) room (number ++ behind) = .error (.tooManyDigits number.length) := by
  have hscalar := h.scalar hbehind
  rw [Toml.value.eq_def]
  dsimp only
  split
  · rename_i behind' hbracket
    exact absurd hbracket (h.append_ne_cons (by decide) _ _)
  · rename_i behind' hbrace
    exact absurd hbrace (h.append_ne_cons (by decide) _ _)
  · exact hscalar

end IsTooLong

/-- A file with a setting of too many digits is not read. -/
theorem parse_digits {name number behind : Text} (hname : name ≠ [])
    (hkey : ∀ c ∈ name, isKeyChar c = true) (hnumber : IsTooLong number)
    (hbehind : EndsNumber behind) (hplain : '\r' ∉ behind) :
    parse (name ++ '=' :: (number ++ behind)) = .error (.tooManyDigits number.length) := by
  have hvalue := hnumber.value hbehind
  have hblanks : skipBlanks (number ++ behind) = number ++ behind := by
    obtain ⟨c, _, _, _, _, _, rfl, -⟩ := hnumber.exists_cons
    have hspace : c ≠ ' ' := hnumber.ne_of_mem List.mem_cons_self (by decide)
    have htab : c ≠ '\t' := hnumber.ne_of_mem List.mem_cons_self (by decide)
    rw [List.cons_append, skipBlanks, List.dropWhile_cons_of_neg]
    simp [CharClass.isSpaceOrTab, hspace, htab]
  refine parse_plain hname hkey ?_ ?_
  · intro hmem
    rcases List.mem_append.mp hmem with hmem | hmem
    · exact hnumber.ne_of_mem hmem (by decide) rfl
    · exact hplain hmem
  · rw [hblanks]
    exact hvalue _ _

end Toml

end FactoryDowngrade
