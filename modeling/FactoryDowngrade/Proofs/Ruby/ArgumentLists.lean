import FactoryDowngrade.Proofs.Ruby.BalancedCode
import FactoryDowngrade.Proofs.Ruby.Extents
import Mathlib.Data.List.TakeWhile

/-!
# What argument lists go over

The scan of an argument list goes over one character after the other and keeps the number of open
brackets, until a character ends the list. A list that has come to a place goes on from there as
from its beginning, only with more brackets open. So a list that stands in a group ends with it, one
that comes to a group goes over all of it, and one that comes to the beginning of another list goes
at least as far as that one.
-/

namespace FactoryDowngrade

namespace Bracket

open BracketRole

variable {kinds outer : List BracketKind} {distance last : Nat}

/-- Blanks are no brackets. -/
theorem ofChar_of_isBlank {c : Char} (hc : CharClass.isBlank c = true) : ofChar c = .plain := by
  unfold ofChar
  split <;> first | rfl | exact absurd hc (by decide)

/-- Word characters are no brackets. -/
theorem ofChar_of_isWord {c : Char} (hc : CharClass.isWord c = true) : ofChar c = .plain :=
  Code.ofChar_of_isPlain (Code.isPlain_of_isWord hc)

/-- A walk that has not ended yet is inside some groups. -/
theorem exists_closeDistance_append {front more : Text} (hkinds : kinds ≠ [])
    (hclose : closeDistance ofChar kinds (front ++ more) = some distance)
    (hfront : front.length ≤ distance) :
    ∃ inner, inner ≠ [] ∧ closeDistance ofChar inner more = some (distance - front.length) := by
  rw [← closesAfter_iff] at hclose
  induction front generalizing kinds distance with
  | nil => exact ⟨kinds, hkinds, closesAfter_iff.mp hclose⟩
  | cons c front ih =>
    rw [List.length_cons] at hfront ⊢
    cases hclose with
    | opens _ hnext =>
      rw [Nat.add_sub_add_right]
      exact ih (List.cons_ne_nil _ _) hnext (Nat.le_of_succ_le_succ hfront)
    | plain _ hnext =>
      rw [Nat.add_sub_add_right]
      exact ih hkinds hnext (Nat.le_of_succ_le_succ hfront)
    | closes _ hnext =>
      rw [Nat.add_sub_add_right]
      exact ih (List.cons_ne_nil _ _) hnext (Nat.le_of_succ_le_succ hfront)
    | last => cases hfront

/-- Groups close before those around them. -/
theorem closeDistance_lt_outer {text : Text} (hkinds : kinds ≠ [])
    (hclose : closeDistance ofChar kinds text = some distance) (houter : outer ≠ [])
    (hlast : closeDistance ofChar (kinds ++ outer) text = some last) : distance < last := by
  rw [← closesAfter_iff] at hclose
  induction hclose generalizing last with
  | opens hc _ ih =>
    rw [closeDistance, hc] at hlast
    obtain ⟨far, hfar, rfl⟩ := Option.map_eq_some_iff.mp hlast
    exact Nat.succ_lt_succ (ih (List.cons_ne_nil _ _) hfar)
  | plain hc _ ih =>
    rw [closeDistance, hc] at hlast
    obtain ⟨far, hfar, rfl⟩ := Option.map_eq_some_iff.mp hlast
    exact Nat.succ_lt_succ (ih hkinds hfar)
  | closes hc _ ih =>
    simp only [List.cons_append, closeDistance, hc, if_true] at hlast
    obtain ⟨far, hfar, rfl⟩ := Option.map_eq_some_iff.mp hlast
    exact Nat.succ_lt_succ (ih (List.cons_ne_nil _ _) hfar)
  | last hc =>
    obtain ⟨next, around, rfl⟩ := List.exists_cons_of_ne_nil houter
    simp only [List.singleton_append, closeDistance, hc, if_true] at hlast
    obtain ⟨far, -, rfl⟩ := Option.map_eq_some_iff.mp hlast
    exact Nat.succ_pos far

/-- A group in other groups closes before them. -/
theorem closeDistance_lt_of_opens {c : Char} {rest : Text} {kind : BracketKind}
    (hc : ofChar c = .opens kind) (hclose : closeDistance ofChar [] (c :: rest) = some distance)
    (houter : outer ≠ []) (hlast : closeDistance ofChar outer (c :: rest) = some last) :
    distance < last := by
  rw [closeDistance, hc] at hclose hlast
  obtain ⟨near, hnear, rfl⟩ := Option.map_eq_some_iff.mp hclose
  obtain ⟨far, hfar, rfl⟩ := Option.map_eq_some_iff.mp hlast
  exact Nat.succ_lt_succ (closeDistance_lt_outer (List.cons_ne_nil kind []) hnear houter hfar)

end Bracket

namespace Statement

open BracketRole

/-- The number of open brackets behind the next character of a list, if the list goes over it. -/
def depthBehind? (passed : Text) (depth : Nat) (c : Char) (rest : Text) : Option Nat :=
  match ofChar c with
  | .opens _ => some (depth + 1)
  | .closes _ =>
    match depth with
    | 0 => none
    | depth + 1 => some depth
  | .plain => if depth = 0 && endsBefore passed c rest then none else some depth

/-- The number of characters that a list goes over, blanks at its end included. -/
def reach (passed : Text) (depth : Nat) : Text → Nat
  | [] => 0
  | c :: rest =>
    match depthBehind? passed depth c rest with
    | none => 0
    | some behind => reach (c :: passed) behind rest + 1

section Steps

variable {passed rest : Text} {depth behind : Nat} {c : Char}

/-- An opening bracket is passed and makes the depth greater. -/
theorem depthBehind?_opens {kind : BracketKind} (hc : ofChar c = .opens kind) :
    depthBehind? passed depth c rest = some (depth + 1) := by
  rw [depthBehind?.eq_def, hc]

/-- A closing bracket is passed inside brackets and makes the depth less. -/
theorem depthBehind?_closes {kind : BracketKind} (hc : ofChar c = .closes kind) :
    depthBehind? passed (depth + 1) c rest = some depth := by
  rw [depthBehind?.eq_def, hc]

/-- A list ends before a bracket that it did not open. -/
theorem depthBehind?_closes_zero {kind : BracketKind} (hc : ofChar c = .closes kind) :
    depthBehind? passed 0 c rest = none := by
  rw [depthBehind?.eq_def, hc]

/-- Inside a group a list goes over everything that is no bracket. -/
theorem depthBehind?_plain (hc : ofChar c = .plain)
    (hgoes : depth = 0 → endsBefore passed c rest = false) :
    depthBehind? passed depth c rest = some depth := by
  rw [depthBehind?.eq_def, hc]
  dsimp only
  rw [if_neg]
  rw [Bool.and_eq_true, decide_eq_true_eq]
  rintro ⟨hzero, hends⟩
  rw [hgoes hzero] at hends
  cases hends

/-- Outside brackets a list ends where a character ends it. -/
theorem depthBehind?_ends (hc : ofChar c = .plain) (hends : endsBefore passed c rest = true) :
    depthBehind? passed 0 c rest = none := by
  rw [depthBehind?.eq_def, hc]
  simp [hends]

/-- A character that the list goes over counts in its reach. -/
theorem reach_cons_of_some (h : depthBehind? passed depth c rest = some behind) :
    reach passed depth (c :: rest) = reach (c :: passed) behind rest + 1 := by
  rw [reach, h]

/-- The list ends at the first character that it does not go over. -/
theorem reach_cons_of_none (h : depthBehind? passed depth c rest = none) :
    reach passed depth (c :: rest) = 0 := by
  rw [reach, h]

/-- Semicolons, line breaks, spaces and tabs alone end a list outside its brackets. -/
theorem endsBefore_eq_false (hend : c ≠ ';') (hbreak : c ≠ '\n')
    (hblank : CharClass.isSpaceOrTab c = true → modifierAhead (c :: rest) = false) :
    endsBefore passed c rest = false := by
  have hmodifier : (CharClass.isSpaceOrTab c && modifierAhead (c :: rest)) = false := by
    cases hc : CharClass.isSpaceOrTab c with
    | false => rfl
    | true => exact hblank hc
  simp [endsBefore, hend, hbreak, hmodifier]

/-- What is no blank and no semicolon ends no list. -/
theorem endsBefore_eq_false_of_solid (hend : c ≠ ';') (hblank : CharClass.isBlank c = false)
    (passed rest : Text) : endsBefore passed c rest = false := by
  have hnot : c ≠ '\n' ∧ c ≠ ' ' ∧ c ≠ '\t' := by
    refine ⟨?_, ?_, ?_⟩ <;>
    · rintro rfl
      exact absurd hblank (by decide)
  refine endsBefore_eq_false hend hnot.1 fun hspace => ?_
  simp [CharClass.isSpaceOrTab, hnot] at hspace

end Steps

/-! ### Lists and their reach -/

/-- What is gathered is what the list goes over. -/
theorem gather_eq (passed : Text) (depth : Nat) (text : Text) :
    gather passed depth text = (text.take (reach passed depth text)).reverse ++ passed := by
  induction text generalizing passed depth with
  | nil => rfl
  | cons c rest ih =>
    have hnext (behind : Nat) : gather (c :: passed) behind rest =
        ((c :: rest).take (reach (c :: passed) behind rest + 1)).reverse ++ passed := by
      rw [ih, List.take_succ_cons, List.reverse_cons, List.append_assoc]
      rfl
    rw [gather.eq_def, reach, depthBehind?.eq_def]
    dsimp only
    cases ofChar c with
    | opens kind => exact hnext _
    | closes kind =>
      cases depth with
      | zero => rfl
      | succ depth => exact hnext _
    | plain =>
      dsimp only
      split
      · rfl
      · exact hnext _

/-- A list keeps every character it goes over up to the last that is no blank. -/
theorem lt_argumentLength {text : Text} {n : Nat} {c : Char} (hreach : n < reach [] 0 text)
    (hc : text[n]? = some c) (hblank : isTrailing c = false) : n < argumentLength text := by
  obtain ⟨hn, hget⟩ := List.getElem?_eq_some_iff.mp hc
  have hsplit : text.take (reach [] 0 text) =
      text.take n ++ c :: (text.drop (n + 1)).take (reach [] 0 text - (n + 1)) := by
    have hlength : reach [] 0 text = n + 1 + (reach [] 0 text - (n + 1)) := by omega
    rw [hlength, List.take_add, ← hlength, List.take_add_one, hc, List.append_assoc]
    rfl
  rw [argumentLength, gather_eq, List.append_nil, hsplit, List.reverse_append, List.reverse_cons,
    List.append_assoc, List.dropWhile_append]
  have hkept : List.dropWhile isTrailing ([c] ++ (text.take n).reverse) =
      c :: (text.take n).reverse := by
    simp [hblank]
  have htake : (text.take n).length = n := List.length_take_of_le hn.le
  split
  · rw [hkept, List.length_cons, List.length_reverse]
    omega
  · rw [List.length_append, List.length_append, List.length_reverse]
    simp only [List.length_singleton]
    omega

/-- A list is no longer than what its scan goes over. -/
theorem argumentLength_le_reach (text : Text) : argumentLength text ≤ reach [] 0 text := by
  rw [argumentLength, gather_eq, List.append_nil]
  refine (List.dropWhile_suffix isTrailing).length_le.trans ?_
  rw [List.length_reverse, List.length_take]
  exact Nat.min_le_left _ _

/-- A list goes over what is no blank, no bracket and no semicolon. -/
theorem reach_solid {c : Char} (hc : ofChar c = .plain) (hend : c ≠ ';')
    (hblank : CharClass.isBlank c = false) (passed : Text) (depth : Nat) (rest : Text) :
    reach passed depth (c :: rest) = reach (c :: passed) depth rest + 1 :=
  reach_cons_of_some (depthBehind?_plain hc fun _ =>
    endsBefore_eq_false_of_solid hend hblank passed rest)

/-- What is no blank is no blank of a line. -/
theorem isTrailing_eq_false {c : Char} (hblank : CharClass.isBlank c = false) :
    isTrailing c = false := by
  rw [Bool.eq_false_iff]
  intro htrailing
  have hall : ∀ x ∈ [' ', '\t', '\r', '\n'], CharClass.isBlank x = true := by decide
  rw [hall c (by simpa [isTrailing, or_assoc] using htrailing)] at hblank
  cases hblank

/-- A list that begins with a character that is no blank, no bracket and no semicolon is not
empty. -/
theorem argumentLength_pos {c : Char} {rest : Text} (hc : ofChar c = .plain) (hend : c ≠ ';')
    (hblank : CharClass.isBlank c = false) : 0 < argumentLength (c :: rest) := by
  refine lt_argumentLength ?_ rfl (isTrailing_eq_false hblank)
  rw [reach_solid hc hend hblank]
  exact Nat.succ_pos _

/-- A list that has come to a place goes on from there. -/
theorem exists_reach_append {passed front more : Text} {depth : Nat}
    (h : front.length ≤ reach passed depth (front ++ more)) :
    ∃ behind, reach passed depth (front ++ more) =
      front.length + reach (front.reverse ++ passed) behind more := by
  induction front generalizing passed depth with
  | nil => exact ⟨depth, by simp⟩
  | cons c front ih =>
    rw [List.cons_append] at h ⊢
    cases hc : depthBehind? passed depth c (front ++ more) with
    | none =>
      rw [reach_cons_of_none hc] at h
      cases h
    | some behind =>
      rw [reach_cons_of_some hc] at h ⊢
      obtain ⟨last, hlast⟩ := ih (Nat.le_of_succ_le_succ h)
      refine ⟨last, ?_⟩
      rw [hlast, List.reverse_cons, List.append_assoc, List.length_cons]
      simp only [List.singleton_append]
      omega

/-- A list goes over a stretch without brackets if nothing in it ends a list outside brackets. -/
theorem reach_stretch {passed front more : Text} {depth : Nat}
    (hplain : ∀ c ∈ front, ofChar c = .plain)
    (hgoes : ∀ before c after, front = before ++ c :: after →
      endsBefore (before.reverse ++ passed) c (after ++ more) = false) :
    reach passed depth (front ++ more) =
      front.length + reach (front.reverse ++ passed) depth more := by
  induction front generalizing passed with
  | nil => simp
  | cons c front ih =>
    have hstep : depthBehind? passed depth c (front ++ more) = some depth :=
      depthBehind?_plain (hplain c List.mem_cons_self) fun _ => hgoes [] c front rfl
    have hrest := @ih (c :: passed) (fun x hx => hplain x (List.mem_cons_of_mem _ hx))
      fun before x after hsplit => by
        have h := hgoes (c :: before) x after (by rw [hsplit]; rfl)
        rwa [List.reverse_cons, List.append_assoc] at h
    rw [List.cons_append, reach_cons_of_some hstep, hrest, List.reverse_cons, List.append_assoc,
      List.length_cons]
    simp only [List.singleton_append]
    omega

/-- A list goes over a space before what is no modifier. -/
theorem reach_space {rest : Text} (hmodifier : modifierAhead (' ' :: rest) = false)
    (passed : Text) (depth : Nat) :
    reach passed depth (' ' :: rest) = reach (' ' :: passed) depth rest + 1 :=
  reach_cons_of_some (depthBehind?_plain rfl fun _ =>
    endsBefore_eq_false (by decide) (by decide) fun _ => hmodifier)

/-- A list ends at a line break behind text that does not go on in the next line. -/
theorem reach_lineBreak {passed : Text} (hpassed : continues passed = false) (rest : Text) :
    reach passed 0 ('\n' :: rest) = 0 :=
  reach_cons_of_none (depthBehind?_ends rfl (by simp [endsBefore, hpassed]))

/-- Whether a modifier comes behind a space is decided by the word that stands there. -/
theorem modifierAhead_word {word rest : Text} (hword : ∀ c ∈ word, CharClass.isWord c = true)
    (hnonempty : word ≠ []) (hrest : rest.head?.any CharClass.isWord = false) :
    modifierAhead (' ' :: (word ++ rest)) = modifiers.contains word := by
  have hdrop : (' ' :: (word ++ rest)).dropWhile CharClass.isSpaceOrTab = word ++ rest := by
    obtain ⟨x, word, rfl⟩ := List.exists_cons_of_ne_nil hnonempty
    have hothers : ∀ x ∈ [' ', '\t'], CharClass.isWord x = false := by decide
    have hx : CharClass.isSpaceOrTab x = false := by
      simpa [CharClass.isSpaceOrTab] using notMem_of_accepted hothers (hword x List.mem_cons_self)
    rw [List.dropWhile_cons_of_pos (by rfl), List.cons_append,
      List.dropWhile_cons_of_neg (by simp [hx])]
  rw [modifierAhead, hdrop, (takeWhile_append_stop hword hrest).1]

/-- Blanks lead to no modifier before a character that begins none. -/
theorem modifierAhead_eq_false {blanks : Text} (hblank : ∀ c ∈ blanks, CharClass.isBlank c = true)
    {c : Char} (hspace : CharClass.isSpaceOrTab c = false) (hc : c ∉ ['i', 'u', 'w', 'r', 'd'])
    (rest : Text) : modifierAhead (blanks ++ c :: rest) = false := by
  -- a word that does not begin like a modifier is none
  have hword (x : Char) (hx : x ∉ ['i', 'u', 'w', 'r', 'd']) (more : Text) :
      modifiers.contains ((x :: more).takeWhile CharClass.isWord) = false := by
    rw [Bool.eq_false_iff]
    intro hmem
    have hletter : ∀ word ∈ modifiers,
        word.head?.any (['i', 'u', 'w', 'r', 'd'].contains ·) = true := by decide
    have hfirst := hletter _ (List.contains_iff_mem.mp hmem)
    rw [List.takeWhile_cons] at hfirst
    split at hfirst
    · exact hx (List.contains_iff_mem.mp hfirst)
    · cases hfirst
  induction blanks with
  | nil =>
    rw [List.nil_append, modifierAhead, List.dropWhile_cons_of_neg (by simp [hspace])]
    exact hword c hc rest
  | cons x blanks ih =>
    have hx := hblank x List.mem_cons_self
    have hmore := ih fun y hy => hblank y (List.mem_cons_of_mem _ hy)
    cases hxspace : CharClass.isSpaceOrTab x with
    | true =>
      rw [List.cons_append, modifierAhead, List.dropWhile_cons_of_pos hxspace]
      exact hmore
    | false =>
      rw [List.cons_append, modifierAhead, List.dropWhile_cons_of_neg (by simp [hxspace])]
      refine hword x ?_ _
      intro hmem
      have hletters : ∀ y ∈ ['i', 'u', 'w', 'r', 'd'], CharClass.isBlank y = false := by decide
      rw [hletters x hmem] at hx
      cases hx

/-- A list goes over the blanks of a line before a character that begins no modifier. -/
theorem reach_blanks {blanks : Text}
    (hblank : ∀ c ∈ blanks, CharClass.isBlank c = true) (hline : '\n' ∉ blanks) {c : Char}
    (hspace : CharClass.isSpaceOrTab c = false) (hc : c ∉ ['i', 'u', 'w', 'r', 'd'])
    (passed : Text) (depth : Nat) (rest : Text) :
    reach passed depth (blanks ++ c :: rest) =
      blanks.length + reach (blanks.reverse ++ passed) depth (c :: rest) := by
  refine reach_stretch (fun x hx => Bracket.ofChar_of_isBlank (hblank x hx))
    fun before x after hsplit => ?_
  have hx : x ∈ blanks := hsplit ▸ by simp
  have hmore (y : Char) (hy : y ∈ x :: after) : CharClass.isBlank y = true :=
    hblank y (hsplit ▸ List.mem_append_right _ hy)
  refine endsBefore_eq_false ?_ (fun heq => hline (heq ▸ hx))
    fun _ => modifierAhead_eq_false hmore hspace hc rest
  rintro rfl
  exact absurd (hblank ';' hx) (by decide)

/-- A list goes over words. -/
theorem reach_word {word : Text} (hword : ∀ c ∈ word, CharClass.isWord c = true) (passed : Text)
    (depth : Nat) (more : Text) :
    reach passed depth (word ++ more) =
      word.length + reach (word.reverse ++ passed) depth more := by
  refine reach_stretch (fun x hx => Bracket.ofChar_of_isWord (hword x hx))
    fun before x after hsplit => ?_
  have hx := hword x (hsplit ▸ by simp)
  refine endsBefore_eq_false_of_solid ?_ (CharClass.isBlank_eq_false_of_isWord hx) _ _
  rintro rfl
  exact absurd hx (by decide)

/-! ### Lists and groups -/

section Groups

open FactoryDowngrade.Bracket

variable {kinds : List BracketKind} {passed text : Text} {depth distance : Nat}

/-- A list that stands in groups ends before the last of them is closed. -/
theorem reach_le_of_closeDistance (hclose : closeDistance ofChar kinds text = some distance)
    (hdepth : depth < kinds.length) : reach passed depth text ≤ distance := by
  rw [← closesAfter_iff] at hclose
  induction hclose generalizing passed depth with
  | opens hc _ ih =>
    rw [reach_cons_of_some (depthBehind?_opens hc)]
    exact Nat.succ_le_succ (ih (Nat.succ_lt_succ hdepth))
  | @plain _ c rest _ hc _ ih =>
    cases hbehind : depthBehind? passed depth c rest with
    | none => rw [reach_cons_of_none hbehind]; exact Nat.zero_le _
    | some behind =>
      obtain rfl : behind = depth := by
        rw [depthBehind?.eq_def, hc] at hbehind
        dsimp only at hbehind
        split at hbehind
        · cases hbehind
        · exact (Option.some.inj hbehind).symm
      rw [reach_cons_of_some hbehind]
      exact Nat.succ_le_succ (ih hdepth)
  | closes hc _ ih =>
    cases depth with
    | zero => rw [reach_cons_of_none (depthBehind?_closes_zero hc)]; exact Nat.zero_le _
    | succ depth =>
      rw [reach_cons_of_some (depthBehind?_closes hc)]
      exact Nat.succ_le_succ (ih (Nat.lt_of_succ_lt_succ hdepth))
  | last hc =>
    obtain rfl := Nat.lt_one_iff.mp hdepth
    rw [reach_cons_of_none (depthBehind?_closes_zero hc)]

/-- A list that has opened groups goes over what closes them. -/
theorem lt_reach_of_closeDistance (hclose : closeDistance ofChar kinds text = some distance)
    (hkinds : kinds ≠ []) : distance < reach passed (depth + kinds.length) text := by
  rw [← closesAfter_iff] at hclose
  induction hclose generalizing passed with
  | opens hc _ ih =>
    rw [reach_cons_of_some (depthBehind?_opens hc)]
    exact Nat.succ_lt_succ (ih (List.cons_ne_nil _ _))
  | plain hc _ ih =>
    have hlength := List.length_pos_iff.mpr hkinds
    rw [reach_cons_of_some (depthBehind?_plain hc (by omega))]
    exact Nat.succ_lt_succ (ih hkinds)
  | closes hc _ ih =>
    rw [List.length_cons, ← Nat.add_assoc, reach_cons_of_some (depthBehind?_closes hc)]
    exact Nat.succ_lt_succ (ih (List.cons_ne_nil _ _))
  | last hc =>
    rw [List.length_singleton, reach_cons_of_some (depthBehind?_closes hc)]
    exact Nat.succ_pos _

/-- A list that comes to a group goes over all of it. -/
theorem lt_reach_group {c : Char} {rest : Text} {kind : BracketKind} (hc : ofChar c = .opens kind)
    (hclose : closeDistance ofChar [] (c :: rest) = some distance) :
    distance < reach passed depth (c :: rest) := by
  rw [closeDistance, hc] at hclose
  obtain ⟨more, hmore, rfl⟩ := Option.map_eq_some_iff.mp hclose
  rw [reach_cons_of_some (depthBehind?_opens hc)]
  exact Nat.succ_lt_succ (lt_reach_of_closeDistance hmore (List.cons_ne_nil _ _))

end Groups

/-! ### Lists in lists -/

/-- Behind a character that is no blank, no comma and no backslash a text ends with its line. -/
theorem continues_eq_false {x : Char} (hx : CharClass.isBlank x = false) (hcomma : x ≠ ',')
    (hescape : x ≠ '\\') (passed : Text) : continues (x :: passed) = false := by
  rw [continues, List.dropWhile_cons_of_neg (by simp [hx])]
  simp [hcomma, hescape]

/-- Blanks do not tell whether a text goes on in the next line. -/
theorem continues_blanks {blanks : Text} (hblanks : ∀ c ∈ blanks, CharClass.isBlank c = true)
    (passed : Text) : continues (blanks ++ passed) = continues passed := by
  rw [continues, continues, List.dropWhile_append_of_pos hblanks]

/-- Whether a text goes on in the next line is decided by the nearest character that is no blank. -/
theorem continues_append {passed : Text} (hpassed : ∃ c ∈ passed, CharClass.isBlank c = false)
    (outer : Text) : continues (passed ++ outer) = continues passed := by
  have hkept : passed.dropWhile CharClass.isBlank ≠ [] := by
    obtain ⟨c, hc, hblank⟩ := hpassed
    intro hall
    rw [List.dropWhile_eq_nil_iff.mp hall c hc] at hblank
    cases hblank
  rw [continues, continues, List.dropWhile_append, if_neg (by simpa using hkept),
    List.head?_append_of_ne_nil _ hkept]

/-- A list that has passed more and has more brackets open goes at least as far. -/
theorem reach_le_reach_append {passed : Text}
    (hpassed : ∃ c ∈ passed, CharClass.isBlank c = false) (outer : Text) (depth more : Nat)
    (text : Text) : reach passed depth text ≤ reach (passed ++ outer) (depth + more) text := by
  induction text generalizing passed depth with
  | nil => exact Nat.le_refl 0
  | cons c rest ih =>
    have hnext (behind : Nat) :
        reach (c :: passed) behind rest ≤ reach (c :: (passed ++ outer)) (behind + more) rest := by
      obtain ⟨x, hx, hblank⟩ := hpassed
      exact ih ⟨x, List.mem_cons_of_mem _ hx, hblank⟩ behind
    cases hc : ofChar c with
    | opens kind =>
      rw [reach_cons_of_some (depthBehind?_opens hc), reach_cons_of_some (depthBehind?_opens hc),
        Nat.add_right_comm]
      exact Nat.succ_le_succ (hnext _)
    | closes kind =>
      cases depth with
      | zero => rw [reach_cons_of_none (depthBehind?_closes_zero hc)]; exact Nat.zero_le _
      | succ depth =>
        rw [Nat.add_right_comm, reach_cons_of_some (depthBehind?_closes hc),
          reach_cons_of_some (depthBehind?_closes hc)]
        exact Nat.succ_le_succ (hnext _)
    | plain =>
      by_cases hgoes : depth = 0 → endsBefore passed c rest = false
      · have houter : depth + more = 0 → endsBefore (passed ++ outer) c rest = false := by
          intro hzero
          rw [endsBefore, continues_append hpassed]
          exact hgoes (Nat.eq_zero_of_add_eq_zero hzero).1
        rw [reach_cons_of_some (depthBehind?_plain hc hgoes),
          reach_cons_of_some (depthBehind?_plain hc houter)]
        exact Nat.succ_le_succ (hnext _)
      · obtain ⟨rfl, hends⟩ := Classical.not_imp.mp hgoes
        rw [Bool.not_eq_false] at hends
        rw [reach_cons_of_none (depthBehind?_ends hc hends)]
        exact Nat.zero_le _

/-- A list that comes to a character that ends none, and is no blank, goes at least as far as a list
that begins there. -/
theorem reach_le_reach {c : Char} {rest : Text} (hc : ofChar c = .plain) (hend : c ≠ ';')
    (hblank : CharClass.isBlank c = false) (passed : Text) (depth : Nat) :
    reach [] 0 (c :: rest) ≤ reach passed depth (c :: rest) := by
  rw [reach_solid hc hend hblank, reach_solid hc hend hblank]
  have hmore := reach_le_reach_append ⟨c, List.mem_singleton_self c, hblank⟩ passed 0 depth rest
  rw [Nat.zero_add] at hmore
  exact Nat.succ_le_succ hmore

/-! ### Where lists end -/

/-- A list outside brackets that has passed some text goes over the kept front of what follows, and
over blanks behind it, and ends there. -/
def EndsBehind (passed kept text : Text) : Prop :=
  ∃ gap rest, text = kept ++ (gap ++ rest) ∧ (∀ c ∈ gap, isTrailing c = true) ∧
    reach passed 0 text = kept.length + gap.length

namespace EndsBehind

variable {passed front kept text : Text}

/-- A list ends where it stands if nothing goes on there. -/
theorem nil (h : reach passed 0 text = 0) : EndsBehind passed [] text :=
  ⟨[], text, rfl, by simp, h⟩

/-- A list that goes over a stretch ends where it does from there. -/
theorem append (hgoes : reach passed 0 (front ++ text) =
      front.length + reach (front.reverse ++ passed) 0 text)
    (h : EndsBehind (front.reverse ++ passed) kept text) :
    EndsBehind passed (front ++ kept) (front ++ text) := by
  obtain ⟨gap, rest, rfl, hgap, hreach⟩ := h
  refine ⟨gap, rest, (List.append_assoc ..).symm, hgap, ?_⟩
  rw [hgoes, hreach, List.length_append]
  omega

/-- A list that goes over a stretch and keeps nothing behind it ends with it. -/
theorem stop (hgoes : reach passed 0 (front ++ text) =
      front.length + reach (front.reverse ++ passed) 0 text)
    (h : EndsBehind (front.reverse ++ passed) [] text) :
    EndsBehind passed front (front ++ text) := by
  have hkept := append hgoes h
  rwa [List.append_nil] at hkept

/-- The list is what it keeps if that does not end with a blank. -/
theorem argumentLength_eq {c : Char} (h : EndsBehind [] kept text)
    (hlast : kept.getLast? = some c) (hblank : isTrailing c = false) :
    argumentLength text = kept.length := by
  obtain ⟨gap, rest, rfl, hgap, hreach⟩ := h
  obtain ⟨init, rfl⟩ := List.getLast?_eq_some_iff.mp hlast
  have htake : ((init ++ [c]) ++ (gap ++ rest)).take ((init ++ [c]).length + gap.length) =
      (init ++ [c]) ++ gap := by
    rw [← List.append_assoc, ← List.length_append, List.take_left]
  rw [argumentLength, gather_eq, hreach, htake, List.append_nil, List.reverse_append,
    List.dropWhile_append_of_pos fun x hx => hgap x (List.mem_reverse.mp hx), List.reverse_append,
    List.reverse_singleton, List.singleton_append, List.dropWhile_cons_of_neg (by simp [hblank]),
    List.length_cons, List.length_reverse, List.length_append, List.length_singleton]

end EndsBehind

end Statement

end FactoryDowngrade
