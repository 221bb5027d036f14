import FactoryDowngrade.Proofs.Toml.Readers
import Mathlib.Data.List.Basic

/-!
# Why files cannot be read

Apart from being malformed, a file cannot be read for two reasons, and both can be told from its
characters. A number has too many digits only if so many stand in a row, with nothing but
underscores between them; values are nested too deeply only if the brackets and braces that open
lists and inline tables take more room than there is.
-/

namespace FactoryDowngrade

namespace Toml

/-- The room that the opening brackets and braces of a text would take if all were nested. -/
def weight (s : Text) : Nat :=
  listRoom * s.count '[' + tableRoom * s.count '\x7b'

/-- A text has some digits in a row, with nothing but underscores between them. -/
def HasDigits (count : Nat) (s : Text) : Prop :=
  ∃ number, number <:+: s ∧ (∀ c ∈ number, IsNumeral Char.isDigit c) ∧
    count ≤ number.countP Char.isDigit

/-- A fault is due to what stands in a text, in the room there is for nested values. -/
def Fault.IsDue (room : Nat) (s : Text) : Fault → Prop
  | .malformed => True
  | .tooManyDigits count => digitLimit < count ∧ HasDigits count s
  | .tooDeep => room < weight s

/-- An opening bracket weighs as much as a list takes of the room. -/
theorem weight_cons_bracket (s : Text) : weight ('[' :: s) = listRoom + weight s := by
  simp [weight, listRoom, tableRoom]
  omega

/-- An opening brace weighs as much as a table takes of it. -/
theorem weight_cons_brace (s : Text) : weight ('\x7b' :: s) = tableRoom + weight s := by
  simp [weight, listRoom, tableRoom]
  omega

/-- A part of a text weighs no more than the text. -/
theorem weight_mono {rest s : Text} (h : rest.Sublist s) : weight rest ≤ weight s :=
  Nat.add_le_add (Nat.mul_le_mul_left _ (h.count_le _)) (Nat.mul_le_mul_left _ (h.count_le _))

/-- Digits in a part of a text are in the text. -/
theorem HasDigits.mono {count : Nat} {rest s : Text} (h : HasDigits count rest)
    (hle : rest <:+: s) : HasDigits count s := by
  obtain ⟨number, hnumber, hnumeral, hcount⟩ := h
  exact ⟨number, hnumber.trans hle, hnumeral, hcount⟩

/-- A fault that is due to what is left of a text is due to the text. -/
theorem Fault.IsDue.mono {fault : Fault} {room : Nat} {rest s : Text}
    (h : fault.IsDue room rest) (hle : rest <:+ s) : fault.IsDue room s := by
  cases fault with
  | malformed => trivial
  | tooManyDigits count => exact ⟨h.1, h.2.mono hle.isInfix⟩
  | tooDeep => exact Nat.lt_of_lt_of_le h (weight_mono hle.sublist)

/-! ### Readers that may fail -/

section Reads

variable {α β : Type} {room : Nat} {s rest : Text} {x : Except Fault (α × Text)}

/-- The fault that an answer tells, if any, is due to a text. -/
def Tells (room : Nat) (s : Text) (answer : Except Fault α) : Prop :=
  ∀ fault, answer = .error fault → fault.IsDue room s

/-- A value tells of no fault. -/
theorem tells_ok (a : α) : Tells room s (.ok a) :=
  fun _ h => by cases h

/-- That a text is malformed may be told of any. -/
theorem tells_malformed : Tells room s (.error .malformed : Except Fault α) :=
  fun _ h => by cases h; trivial

/-- What an answer tells of the rest it tells of the text. -/
theorem Tells.mono {answer : Except Fault α} (h : Tells room rest answer) (hle : rest <:+ s) :
    Tells room s answer :=
  fun fault hfault => (h fault hfault).mono hle

/-- An answer to a text leaves an end of it, or tells a fault that is due to it. -/
structure Reads (room : Nat) (s : Text) (x : Except Fault (α × Text)) : Prop where
  leaves {a : α} {rest : Text} (h : x = .ok (a, rest)) : rest <:+ s
  due : Tells room s x

/-- What is read off the rest is read off the text. -/
theorem Reads.mono (h : Reads room rest x) (hle : rest <:+ s) : Reads room s x :=
  ⟨fun hx => (h.leaves hx).trans hle, h.due.mono hle⟩

/-- A value may leave any end of the text. -/
theorem reads_ok {a : α} (h : rest <:+ s) : Reads room s (.ok (a, rest)) :=
  ⟨fun hx => by cases hx; exact h, tells_ok _⟩

/-- A malformed text may be read so. -/
theorem reads_malformed : Reads room s (.error .malformed : Except Fault (α × Text)) :=
  ⟨fun hx => (by cases hx), tells_malformed⟩

/-- What is required is read as it is found. -/
theorem reads_required {found : Option (α × Text)}
    (h : ∀ a rest, found = some (a, rest) → rest <:+ s) : Reads room s (required found) := by
  cases hfound : found with
  | none => exact reads_malformed
  | some found => exact reads_ok (h found.1 found.2 hfound)

/-- What needs something goes on from there or is malformed. -/
theorem tells_required_bind {found : Option β} {next : β → Except Fault α}
    (h : ∀ b, found = some b → Tells room s (next b)) :
    Tells room s (required found >>= next) := by
  cases hfound : found with
  | none => exact tells_malformed
  | some b => exact h b hfound

/-- Behind something that is required the reading goes on, or ends in a malformed text. -/
theorem reads_required_bind {found : Option β} {next : β → Except Fault (α × Text)}
    (h : ∀ b, found = some b → Reads room s (next b)) : Reads room s (required found >>= next) := by
  cases hfound : found with
  | none => exact reads_malformed
  | some b => exact h b hfound

/-- Reading goes on at the end of the text that is left. -/
theorem Reads.tells_bind {next : α × Text → Except Fault β} (h : Reads room s x)
    (hnext : ∀ a rest, rest <:+ s → Tells room s (next (a, rest))) :
    Tells room s (x >>= next) := by
  cases x with
  | error fault => exact fun other hx => by cases hx; exact h.due fault rfl
  | ok read => exact hnext read.1 read.2 (h.leaves rfl)

/-- Two readings one after the other are one reading. -/
theorem Reads.bind {next : α × Text → Except Fault (β × Text)} (h : Reads room s x)
    (hnext : ∀ a rest, rest <:+ s → Reads room s (next (a, rest))) : Reads room s (x >>= next) := by
  refine ⟨fun hx => ?_, h.tells_bind fun a rest hle => (hnext a rest hle).due⟩
  cases x with
  | error fault => cases hx
  | ok read => exact (hnext read.1 read.2 (h.leaves rfl)).leaves hx

/-- What opens a nested value takes some of the room. -/
theorem Reads.nest {opener : Char} {taken : Nat} (h : Reads (room - taken) rest x)
    (hle : rest <:+ s) (hweight : weight (opener :: s) = taken + weight s) :
    Reads room (opener :: s) x := by
  refine ⟨fun hx => ((h.leaves hx).trans hle).trans (List.suffix_cons _ _), fun fault hx => ?_⟩
  have hdue := (h.due fault hx).mono hle
  cases fault with
  | malformed => trivial
  | tooManyDigits count => exact hdue.mono (List.suffix_cons _ _)
  | tooDeep =>
    have hroom : room - taken < weight s := hdue
    change room < weight (opener :: s)
    omega

/-- Where there is no room for what a character opens, the fault is due to that character. -/
theorem reads_tooDeep {opener : Char} {taken : Nat} (hroom : room < taken)
    (hweight : weight (opener :: s) = taken + weight s) :
    Reads room (opener :: s) (.error .tooDeep : Except Fault (α × Text)) := by
  refine ⟨fun hx => (by cases hx), fun fault hx => ?_⟩
  cases hx
  change room < weight (opener :: s)
  omega

end Reads

/-! ### Values -/

section Values

variable {room : Nat} {s : Text}

/-- A decimal number has too many digits only if they stand there. -/
theorem reads_decimalNumber {number : Except Fault Data} {rest : Text}
    (h : decimalNumber s = some (number, rest)) :
    Reads room s (number.map fun v => (v, rest)) := by
  simp only [decimalNumber, Option.bind_eq_bind, Option.bind_eq_some_iff] at h
  obtain ⟨⟨whole, behind⟩, hwhole, h⟩ := h
  obtain ⟨taken, htaken, hnumeral, hsub, hdigits⟩ := exists_wholePart hwhole
  have hbehind : behind <:+ s := List.IsSuffix.trans ⟨taken, htaken⟩ (sign_suffix s)
  have hrest : (exponent? (fraction behind).2).2 <:+ s :=
    ((exponent?_suffix _).trans (fraction_suffix behind)).trans hbehind
  dsimp only at h
  split at h
  · obtain ⟨rfl, rfl⟩ := Prod.mk.inj (Option.some.inj h)
    unfold wholeNumber
    split
    · -- no underscore is among the digits that were read, but all of them were taken
      rename_i hmany
      refine ⟨fun hx => (by cases hx), fun fault hx => ?_⟩
      cases hx
      refine ⟨hmany, taken, ?_, hnumeral, ?_⟩
      · exact List.IsInfix.trans ⟨[], behind, htaken⟩ (sign_suffix s).isInfix
      · rw [← List.countP_eq_length.mpr hdigits]
        exact hsub.countP_le
    · exact reads_ok hrest
  · obtain ⟨rfl, rfl⟩ := Prod.mk.inj (Option.some.inj h)
    exact reads_ok hrest

/-- A number, a date, a string or a truth value is read so. -/
theorem reads_scalar (room : Nat) (s : Text) : Reads room s (scalar s) := by
  unfold scalar
  split
  · exact reads_required fun _ _ h => suffix_of_map h (fun _ => rfl) fun _ => string_suffix
  · exact reads_required fun _ _ h => suffix_of_map h (fun _ => rfl) fun _ => string_suffix
  · split
    · exact reads_ok (List.drop_suffix _ _)
    · split
      · exact reads_ok (List.drop_suffix _ _)
      · split
        · rename_i rest hmoment
          exact reads_ok (moment?_suffix hmoment)
        · exact reads_malformed
        · split
          · rename_i result hbased
            exact reads_ok (basedNumber_suffix hbased)
          · rename_i number rest hbased hdecimal
            exact reads_decimalNumber hdecimal
          · exact reads_required fun v rest hread => specialFloat_suffix hread

/-- What holds of values, lists and inline tables that are read with some fuel. -/
structure ReadsValues (fuel : Nat) : Prop where
  value (room : Nat) (s : Text) : Reads room s (value fuel room s)
  listItems (room : Nat) (done : List Data) (s : Text) :
    Reads room s (listItems fuel room done s)
  inlineFields (room : Nat) (frozen : List Key) (fields : Fields) (s : Text) :
    Reads room s (inlineFields fuel room frozen fields s)

/-- With more fuel a value is read so, if those in it are. -/
theorem ReadsValues.value_succ {fuel : Nat} (h : ReadsValues fuel) (room : Nat) (s : Text) :
    Reads room s (Toml.value (fuel + 1) room s) := by
  rw [Toml.value.eq_def]
  dsimp only
  split
  · rename_i behind
    split
    · rename_i hroom
      exact reads_tooDeep hroom (weight_cons_bracket behind)
    · refine reads_required_bind fun next hnext => ?_
      have hnext := skipFiller_suffix hnext
      split
      · exact reads_ok (((List.suffix_cons _ _).trans hnext).trans (List.suffix_cons _ _))
      · exact (h.listItems _ _ _).nest hnext (weight_cons_bracket behind)
  · rename_i behind
    split
    · rename_i hroom
      exact reads_tooDeep hroom (weight_cons_brace behind)
    · have hnext := skipBlanks_suffix behind
      split
      · rename_i rest hrest
        rw [hrest] at hnext
        exact reads_ok (((List.suffix_cons _ _).trans hnext).trans (List.suffix_cons _ _))
      · exact (h.inlineFields _ _ _ _).nest hnext (weight_cons_brace behind)
  · exact reads_scalar room s

/-- So are the items of a list. -/
theorem ReadsValues.listItems_succ {fuel : Nat} (h : ReadsValues fuel) (room : Nat)
    (done : List Data) (s : Text) : Reads room s (Toml.listItems (fuel + 1) room done s) := by
  rw [Toml.listItems.eq_def]
  refine (h.value room s).bind fun item rest hrest => reads_required_bind fun next hnext => ?_
  have hnext := (skipFiller_suffix hnext).trans hrest
  split
  · exact reads_ok ((List.suffix_cons _ _).trans hnext)
  · rename_i behind
    refine reads_required_bind fun further hfurther => ?_
    have hfurther := ((skipFiller_suffix hfurther).trans (List.suffix_cons _ _)).trans hnext
    split
    · exact reads_ok ((List.suffix_cons _ _).trans hfurther)
    · exact (h.listItems room _ _).mono hfurther
  · exact reads_malformed

/-- So are the fields of a table. -/
theorem ReadsValues.inlineFields_succ {fuel : Nat} (h : ReadsValues fuel) (room : Nat)
    (frozen : List Key) (fields : Fields) (s : Text) :
    Reads room s (Toml.inlineFields (fuel + 1) room frozen fields s) := by
  rw [Toml.inlineFields.eq_def]
  refine reads_required_bind fun found hfound => ?_
  obtain ⟨k, behind⟩ := found
  have hbehind := keyAndSign_suffix hfound
  refine ((h.value room behind).mono hbehind).bind fun v rest hrest => ?_
  dsimp only
  split
  · exact reads_malformed
  · refine reads_required_bind fun fields _ => ?_
    have hnext := (skipBlanks_suffix rest).trans hrest
    split
    · rename_i last hlast
      rw [hlast] at hnext
      exact reads_ok ((List.suffix_cons _ _).trans hnext)
    · rename_i last hlast
      rw [hlast] at hnext
      exact (h.inlineFields room _ _ _).mono
        (((skipBlanks_suffix _).trans (List.suffix_cons _ _)).trans hnext)
    · exact reads_malformed

/-- Lists and inline tables hold values and values may be either, so all three go together. -/
theorem readsValues : ∀ fuel, ReadsValues fuel
  | 0 => ⟨fun _ _ => reads_malformed, fun _ _ _ => reads_malformed, fun _ _ _ _ => reads_malformed⟩
  | fuel + 1 => ⟨(readsValues fuel).value_succ, (readsValues fuel).listItems_succ,
      (readsValues fuel).inlineFields_succ⟩

end Values

/-! ### Lines -/

/-- The header of a table is read so. -/
theorem reads_header (room : Nat) (isList : Bool) (s : Text) (d : Document) :
    Reads room s (required (header isList s d)) := by
  refine reads_required fun opened rest h => ?_
  simp only [header, Option.bind_eq_bind, Option.bind_eq_some_iff] at h
  obtain ⟨⟨k, behind⟩, hkey, h⟩ := h
  have hbehind := (key_suffix hkey).trans (skipBlanks_suffix s)
  dsimp only at h
  split at h
  · obtain ⟨next, -, h⟩ := Option.map_eq_some_iff.mp h
    cases h
    exact (List.suffix_cons _ _).trans hbehind
  · obtain ⟨next, -, h⟩ := Option.map_eq_some_iff.mp h
    cases h
    exact ((List.suffix_cons _ _).trans (List.suffix_cons _ _)).trans hbehind
  · cases h

/-- So is every line. -/
theorem reads_line (d : Document) (current : Key) (s : Text) :
    Reads nestingRoom s (line d current s) := by
  unfold line
  split
  · exact (reads_header _ true _ d).mono ((List.suffix_cons _ _).trans (List.suffix_cons _ _))
  · exact (reads_header _ false _ d).mono (List.suffix_cons _ _)
  · exact reads_ok List.suffix_rfl
  · refine reads_required_bind fun found hfound => ?_
    obtain ⟨k, behind⟩ := found
    have hvalue := ((readsValues (3 * behind.length + 3)).value nestingRoom behind).mono
      (keyAndSign_suffix hfound)
    refine hvalue.bind fun v rest hrest => reads_required_bind fun d _ => ?_
    exact reads_ok hrest

/-- Every fault of a file is due to what stands in it. -/
theorem tells_lines (fuel : Nat) (d : Document) (current : Key) (s : Text) :
    Tells nestingRoom s (lines fuel d current s) := by
  induction fuel generalizing d current s with
  | zero => exact tells_malformed
  | succ fuel ih =>
    have hblanks := skipBlanks_suffix s
    rw [lines]
    split
    · exact tells_ok d
    · rename_i rest hrest
      rw [hrest] at hblanks
      exact (ih d current rest).mono ((List.suffix_cons _ _).trans hblanks)
    · refine ((reads_line d current _).mono hblanks).tells_bind fun opened rest hrest => ?_
      refine tells_required_bind fun last hlast => ?_
      have hlast := ((skipComment_suffix hlast).trans (skipBlanks_suffix rest)).trans hrest
      split
      · exact tells_ok _
      · exact (ih _ _ _).mono ((List.suffix_cons _ _).trans hlast)
      · exact tells_malformed

/-! ### Whole files -/

/-- Joining the line ends only leaves characters out. -/
theorem joinLineEnds_sublist (text : Text) : (joinLineEnds text).Sublist text := by
  fun_induction joinLineEnds text with
  | case1 rest ih => exact (ih.cons_cons _).cons _
  | case2 c rest hne ih => exact ih.cons_cons _
  | case3 => exact List.Sublist.refl _

/-- What has no line break in it and begins the joined text begins the text. -/
theorem prefix_of_joinLineEnds {number text : Text} (hline : '\n' ∉ number)
    (h : number <+: joinLineEnds text) : number <+: text := by
  fun_induction joinLineEnds text generalizing number with
  | case1 rest ih =>
    rcases List.prefix_cons_iff.mp h with rfl | ⟨more, rfl, -⟩
    · exact List.nil_prefix
    · simp at hline
  | case2 c rest hne ih =>
    rcases List.prefix_cons_iff.mp h with rfl | ⟨more, rfl, hmore⟩
    · exact List.nil_prefix
    · exact (List.prefix_cons_inj c).mpr (ih (by simp_all) hmore)
  | case3 => exact h

/-- What stands on one line stands in the file, however its lines end. -/
theorem infix_of_joinLineEnds {number text : Text} (hline : '\n' ∉ number)
    (h : number <:+: joinLineEnds text) : number <:+: text := by
  fun_induction joinLineEnds text with
  | case1 rest ih =>
    rcases List.infix_cons_iff.mp h with hfront | hbehind
    · rcases List.prefix_cons_iff.mp hfront with rfl | ⟨more, rfl, -⟩
      · exact List.nil_infix
      · simp at hline
    · exact (ih hbehind).trans ((List.suffix_cons _ _).trans (List.suffix_cons _ _)).isInfix
  | case2 c rest hne ih =>
    rcases List.infix_cons_iff.mp h with hfront | hbehind
    · rcases List.prefix_cons_iff.mp hfront with rfl | ⟨more, rfl, hmore⟩
      · exact List.nil_infix
      · exact ((List.prefix_cons_inj c).mpr
          (prefix_of_joinLineEnds (by simp_all) hmore)).isInfix
    · exact (ih hbehind).trans (List.suffix_cons _ _).isInfix
  | case3 => exact h

/-- The fault of a file is due to its characters. -/
theorem tells_parse (text : Text) : Tells nestingRoom text (parse text) := by
  intro fault h
  unfold parse at h
  extract_lets s at h
  have hlines := tells_lines (s.length + 1) .empty [] s
  cases hread : lines (s.length + 1) .empty [] s with
  | ok d => rw [hread] at h; cases h
  | error other =>
    rw [hread] at h hlines
    cases h
    cases fault with
    | malformed => trivial
    | tooManyDigits count =>
      obtain ⟨hmany, number, hnumber, hnumeral, hcount⟩ := hlines _ rfl
      -- a number stands on one line
      refine ⟨hmany, number, infix_of_joinLineEnds ?_ hnumber, hnumeral, hcount⟩
      intro hbreak
      rcases hnumeral _ hbreak with hdigit | hunderscore
      · exact absurd hdigit (by decide)
      · exact absurd hunderscore (by decide)
    | tooDeep => exact Nat.lt_of_lt_of_le (hlines _ rfl) (weight_mono (joinLineEnds_sublist text))

end Toml

end FactoryDowngrade
