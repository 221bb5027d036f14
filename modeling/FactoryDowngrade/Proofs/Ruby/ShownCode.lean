import FactoryDowngrade.Proofs.Ruby.NestedLiterals

/-!
# Balanced code as it is shown

Balanced code is taken here together with what a scan shows of it: comments and the bodies of
strings are blanked, except for the code in their interpolations, and everything else stays. A line
of the code may not begin like a block comment. A line of a string may, since the shown text has
only blanks there. So the condition is one on what is shown.
-/

namespace FactoryDowngrade

open Scan

/-- A text that begins with a line break, or has no characters, is shown so. -/
theorem head?_all_of_masks {image text : Text} (h : List.Forall₂ IsMaskOf image text)
    (hbreak : text.head?.all (· == '\n') = true) : image.head?.all (· == '\n') = true := by
  cases h with
  | nil => rfl
  | cons hmask _ =>
    obtain rfl := eq_of_beq hbreak
    rcases hmask with rfl | ⟨-, hnot⟩
    · rfl
    · exact absurd rfl hnot

/-! ### Lines that begin block comments -/

namespace Scan

/-- The first text begins with every word that the second begins with, if the word could belong to
the beginning of a block comment. -/
def ShowsBegin (image text : Text) : Prop :=
  ∀ word, (∀ c ∈ word, c ∈ "=begin".toList) → word <+: text → word <+: image

namespace ShowsBegin

variable {image text image' text' : Text}

/-- A text begins with what it begins with. -/
theorem refl (text : Text) : ShowsBegin text text := fun _ _ h => h

/-- What one text shows of another, it shows of what that one shows. -/
theorem trans (h : ShowsBegin image text) (h' : ShowsBegin text text') : ShowsBegin image text' :=
  fun word hword hfront => h word hword (h' word hword hfront)

/-- A text that begins with another character begins with no such word. -/
theorem of_notMem {c : Char} (hc : c ∉ "=begin".toList) (image text : Text) :
    ShowsBegin image (c :: text) := by
  intro word hword hfront
  cases word with
  | nil => exact List.nil_prefix
  | cons x word =>
    obtain ⟨rfl, -⟩ := List.cons_prefix_cons.mp hfront
    exact absurd (hword x List.mem_cons_self) hc

/-- The same stretch may stand in front of both. -/
theorem append (front : Text) (h : ShowsBegin image text) :
    ShowsBegin (front ++ image) (front ++ text) := by
  intro word hword hfront
  induction front generalizing word with
  | nil => exact h word hword hfront
  | cons c front ih =>
    cases word with
    | nil => exact List.nil_prefix
    | cons x word =>
      obtain ⟨rfl, hmore⟩ := List.cons_prefix_cons.mp hfront
      exact List.cons_prefix_cons.mpr
        ⟨rfl, ih word (fun y hy => hword y (List.mem_cons_of_mem _ hy)) hmore⟩

end ShowsBegin

/-- Whether a stretch is free of block comments depends on what stands before it only by the line
break, and on what follows only by the beginning of such a comment. -/
theorem IsLineFree.congr {before before' stretch rest rest' : Text}
    (h : IsLineFree before stretch rest)
    (hbefore : before'.head?.all (· == '\n') = true → before.head?.all (· == '\n') = true)
    (hrest : ShowsBegin rest rest') : IsLineFree before' stretch rest' := by
  rintro passed ahead rfl hahead hstart hcomment
  refine h passed ahead rfl hahead ?_ (hrest.append ahead _ (fun _ hc => hc) hcomment)
  rcases List.eq_nil_or_concat passed with rfl | ⟨passed, last, rfl⟩
  · exact hbefore hstart
  · rw [List.concat_eq_append, List.reverse_append] at hstart ⊢
    exact hstart

end Scan

namespace Code

/-! ### Code and its image -/

/-- Code in which all brackets and quotes are closed, or the rest of a string behind some of it, its
closing quote included, in which all interpolations are; and what is shown of it. -/
inductive IsShownAs : Option Quote → Text → Text → Prop where
  | nil : IsShownAs none [] []
  | append {u v i j : Text} (hu : IsShownAs none u i) (hv : IsShownAs none v j) :
    IsShownAs none (u ++ v) (i ++ j)
  | plain {c : Char} (hc : isPlain c = true) : IsShownAs none [c] [c]
  | comment {body : Text} (hbody : '\n' ∉ body) :
    IsShownAs none ('#' :: (body ++ ['\n'])) (' ' :: (body.map blankOf ++ ['\n']))
  | group (kind : BracketKind) {u i : Text} (hu : IsShownAs none u i) :
    IsShownAs none (kind.opener :: (u ++ [kind.closer])) (kind.opener :: (i ++ [kind.closer]))
  | quoted (q : Quote) {u i : Text} (hu : IsShownAs (some q) u i) :
    IsShownAs none (q.char :: u) (q.char :: i)
  | closing (q : Quote) : IsShownAs (some q) [q.char] [q.char]
  | escaped {q : Quote} (c : Char) {u i : Text} (hu : IsShownAs (some q) u i) :
    IsShownAs (some q) ('\\' :: c :: u) (' ' :: blankOf c :: i)
  | inside {q : Quote} {c : Char} {u i : Text} (hc : (Opening.quote q).isPlain c = true)
    (hu : IsShownAs (some q) u i) : IsShownAs (some q) (c :: u) (blankOf c :: i)
  | interpolated {q : Quote} (hq : q ≠ .single) {u v i j : Text} (hu : IsShownAs none u i)
    (hv : IsShownAs (some q) v j) :
    IsShownAs (some q) ('#' :: '\x7b' :: (u ++ '\x7d' :: v)) ('#' :: '\x7b' :: (i ++ '\x7d' :: j))

namespace IsShownAs

variable {mode : Option Quote} {text image : Text}

/-- Plain characters are shown. -/
theorem of_plain {stretch : Text} (h : ∀ c ∈ stretch, isPlain c = true) :
    IsShownAs none stretch stretch := by
  induction stretch with
  | nil => exact .nil
  | cons c stretch ih =>
    exact (IsShownAs.plain (h c List.mem_cons_self)).append
      (ih fun x hx => h x (List.mem_cons_of_mem _ hx))

/-- Plain characters of a string are blanked. -/
theorem of_inside {q : Quote} {stretch u i : Text}
    (h : ∀ c ∈ stretch, (Opening.quote q).isPlain c = true) (hu : IsShownAs (some q) u i) :
    IsShownAs (some q) (stretch ++ u) (stretch.map blankOf ++ i) := by
  induction stretch with
  | nil => exact hu
  | cons c stretch ih =>
    exact .inside (h c List.mem_cons_self) (ih fun x hx => h x (List.mem_cons_of_mem _ hx))

/-- What is shown is what stands there, or blank. -/
theorem masks (h : IsShownAs mode text image) : List.Forall₂ IsMaskOf image text := by
  have hblank (body : Text) : List.Forall₂ IsMaskOf (body.map blankOf) body := by
    rw [List.forall₂_map_left_iff, List.forall₂_same]
    exact fun c _ => isMaskOf_blankOf c
  induction h with
  | nil => exact .nil
  | append _ _ ihu ihv => exact List.rel_append ihu ihv
  | plain _ => exact .cons (isMaskOf_id _) .nil
  | @comment body _ =>
    exact .cons (isMaskOf_blankOf '#') (List.rel_append (hblank body) (.cons (isMaskOf_id _) .nil))
  | group kind _ ih =>
    exact .cons (isMaskOf_id _) (List.rel_append ih (.cons (isMaskOf_id _) .nil))
  | quoted q _ ih => exact .cons (isMaskOf_id _) ih
  | closing q => exact .cons (isMaskOf_id _) .nil
  | escaped c _ ih => exact .cons (isMaskOf_blankOf '\\') (.cons (isMaskOf_blankOf c) ih)
  | inside _ _ ih => exact .cons (isMaskOf_blankOf _) ih
  | interpolated _ _ _ ihu ihv =>
    exact .cons (isMaskOf_id _) (.cons (isMaskOf_id _)
      (List.rel_append ihu (.cons (isMaskOf_id _) ihv)))

/-- What is shown is nested: delimiters of strings are no brackets, and those of interpolations are
closed. -/
theorem isNested (h : IsShownAs mode text image) : Bracket.IsNested image := by
  induction h with
  | nil => exact .nil
  | append _ _ ihu ihv => exact ihu.append ihv
  | plain hc => exact .singleton (ofChar_of_isPlain hc)
  | @comment body _ =>
    have hbreak : Bracket.IsNested ['\n'] := .singleton rfl
    exact (Bracket.IsNested.singleton (by rfl : BracketRole.ofChar ' ' = .plain)).append
      ((isNested_map_blankOf body).append hbreak)
  | group kind _ ih => exact ih.group kind
  | quoted q _ ih => exact (Bracket.IsNested.singleton q.ofChar_char).append ih
  | closing q => exact .singleton q.ofChar_char
  | escaped c _ ih => exact (isNested_map_blankOf ['\\', c]).append ih
  | @inside q c _ _ _ _ ih => exact (isNested_map_blankOf [c]).append ih
  | @interpolated q _ u v i j _ _ ihu ihv =>
    have hcode : Bracket.IsNested ('\x7b' :: (i ++ ['\x7d'])) := ihu.group .curly
    have hall := (Bracket.IsNested.singleton (by rfl : BracketRole.ofChar '#' = .plain)).append
      (hcode.append ihv)
    simpa using hall

/-- Where code begins like a block comment, what is shown of it does. -/
theorem showsBegin (h : IsShownAs mode text image) (hmode : mode = none) (rest : Text) :
    ShowsBegin (image ++ rest) (text ++ rest) := by
  induction h generalizing rest with
  | nil => exact .refl rest
  | @append u v i j _ _ ihu ihv =>
    rw [List.append_assoc, List.append_assoc]
    exact ((ihv rfl rest).append i).trans (ihu rfl (v ++ rest))
  | plain _ => exact .refl _
  | comment _ => exact .of_notMem (by decide) _ _
  | group kind _ _ => exact .of_notMem (by cases kind <;> decide) _ _
  | quoted q _ _ => exact .of_notMem (by cases q <;> decide) _ _
  | closing _ | escaped _ _ _ | inside _ _ _ | interpolated _ _ _ _ _ => cases hmode

/-- Code that ends a line, or ends nothing, shows so. -/
theorem head?_reverse (h : IsShownAs mode text image) (before : Text)
    (hbreak : (text.reverse ++ before).head?.all (· == '\n') = true) :
    (image.reverse ++ before).head?.all (· == '\n') = true := by
  refine head?_all_of_masks (List.rel_append (List.forall₂_reverse_iff.mpr h.masks) ?_) hbreak
  exact List.forall₂_same.mpr fun c _ => isMaskOf_id c

/-- A scan through the code comes out in the frames in which it came in and shows the image. -/
theorem crosses {frames : List Frame} {before rest : Text} (h : IsShownAs mode text image)
    (hcode : IsCode frames) (hline : IsLineFree before image rest) :
    Crosses (entered frames mode) frames before text image rest := by
  induction h generalizing frames before rest with
  | nil => exact .nil frames before rest
  | @append u v i j hu hv ihu ihv =>
    exact (ihu hcode (hline.left.congr id (hv.showsBegin rfl rest))).append
      (ihv hcode (hline.right.congr (hu.head?_reverse before) (.refl rest)))
  | @plain c hc =>
    refine crosses_plain hcode ?_ hline
    simp only [isPlain, Bool.and_eq_true, beq_iff_eq] at hc
    have hbraces : c ≠ '\x7b' ∧ c ≠ '\x7d' := by
      constructor <;>
      · rintro rfl
        cases hc.1
    simpa [Phrase.isPlain, hbraces] using hc.2
  | comment hbody => exact crosses_comment hcode hbody
  | @group kind u i hu ih =>
    obtain ⟨hinner, hback⟩ := Writes.countBrace_closer hcode kind
    have hclose := @crosses_bracket (countBrace kind.opener frames)
      (u.reverse ++ kind.opener :: before) rest kind.closer hinner
      kind.ofChar_closer_ne_plain
    rw [hback] at hclose
    have hline' : IsLineFree before ([kind.opener] ++ (i ++ [kind.closer])) rest := hline
    exact (crosses_bracket hcode kind.ofChar_opener_ne_plain).cons
      ((ih hinner hline'.right.left).append hclose)
  | @quoted q u i hu ih =>
    have hline' : IsLineFree before ([q.char] ++ i) rest := hline
    have hnone : ∀ x ∈ (none : Option Char), before.head? = some x := by simp
    have hopen : Crosses frames (entered frames (some q)) before [q.char] [q.char] (u ++ rest) :=
      crosses_opening (o := .quote q) hcode hnone rfl
    exact hopen.cons (ih hcode hline'.right)
  | closing q => exact crosses_closer (o := .quote q)
  | @escaped q c u i hu ih =>
    have hline' : IsLineFree before ([' ', blankOf c] ++ i) rest := hline
    have hescape : Crosses (entered frames (some q)) (entered frames (some q)) before ['\\', c]
        [' ', blankOf c] (u ++ rest) := crosses_escape (o := .quote q)
    refine hescape.append (ih hcode (hline'.right.congr (fun hbreak => ?_) (.refl rest)))
    obtain rfl : c = '\n' := eq_of_beq hbreak
    rfl
  | @inside q c u i hc hu ih =>
    have hline' : IsLineFree before ([blankOf c] ++ i) rest := hline
    have hstep : Crosses (entered frames (some q)) (entered frames (some q)) before [c]
        [blankOf c] (u ++ rest) := crosses_inside (o := .quote q) hc
    refine hstep.cons (ih hcode (hline'.right.congr (fun hbreak => ?_) (.refl rest)))
    obtain rfl : c = '\n' := eq_of_beq hbreak
    rfl
  | @interpolated q hq u v i j hu hv ihu ihv =>
    have hinner : IsCode (.code 0 :: entered frames (some q)) := fun _ _ _ h => by cases h
    have hcodes : (Opening.quote q).interpolates = true := by
      cases q
      · exact absurd rfl hq
      · rfl
      · rfl
    have hline' : IsLineFree before (['#', '\x7b'] ++ (i ++ (['\x7d'] ++ j))) rest := hline
    have hopen : Crosses (entered frames (some q)) (.code 0 :: entered frames (some q)) before
        ['#', '\x7b'] ['#', '\x7b'] (u ++ '\x7d' :: v ++ rest) :=
      crosses_interpolation (o := .quote q) hcodes
    have hclose : Crosses (.code 0 :: entered frames (some q)) (entered frames (some q))
        (u.reverse ++ '\x7b' :: '#' :: before) ['\x7d'] ['\x7d'] (v ++ rest) :=
      crosses_bracket hinner (by decide)
    have hfree : IsLineFree ('\x7b' :: '#' :: before) i ('\x7d' :: v ++ rest) :=
      hline'.right.left.congr id (.of_notMem (by decide) _ _)
    have hbody := ihu hinner hfree
    exact hopen.append (hbody.append (hclose.cons (ihv hcode
      (hline'.right.right.right.congr id (.refl rest)))))

end IsShownAs

end Code

end FactoryDowngrade
