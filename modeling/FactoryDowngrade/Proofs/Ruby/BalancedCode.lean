import FactoryDowngrade.Proofs.Ruby.ScanRuns

/-!
# Balanced code

Balanced code is made of plain characters, comments that end with their line, groups in brackets of
three kinds, and quoted strings, which may hold more of it in their interpolations. A scan comes out
of it in the same frames in which it came in, and what it shows is properly nested. A name that the
code mentions is shown, however deep it stands in groups and interpolations.
-/

namespace FactoryDowngrade

namespace BracketKind

/-- The bracket that opens a group. -/
def opener : BracketKind → Char
  | round => '('
  | square => '['
  | curly => '\x7b'

/-- The bracket that closes a group. -/
def closer : BracketKind → Char
  | round => ')'
  | square => ']'
  | curly => '\x7d'

/-- An opener opens its kind. -/
theorem ofChar_opener (kind : BracketKind) : BracketRole.ofChar kind.opener = .opens kind := by
  cases kind <;> rfl

/-- A closer closes its kind. -/
theorem ofChar_closer (kind : BracketKind) : BracketRole.ofChar kind.closer = .closes kind := by
  cases kind <;> rfl

/-- An opener is no plain character. -/
theorem ofChar_opener_ne_plain (kind : BracketKind) : BracketRole.ofChar kind.opener ≠ .plain := by
  cases kind <;> decide

/-- Neither is a closer. -/
theorem ofChar_closer_ne_plain (kind : BracketKind) : BracketRole.ofChar kind.closer ≠ .plain := by
  cases kind <;> decide

end BracketKind

/-- The quotes that a string may stand between. -/
inductive Quote where
  | single
  | double
  | backtick
deriving DecidableEq, Repr

namespace Quote

/-- The character of a quote. -/
def char : Quote → Char
  | single => '\''
  | double => '"'
  | backtick => '\x60'

/-- The literal between two quotes. Only between single ones it holds no code. -/
def literal (q : Quote) : Literal :=
  ⟨q.char, none, q != .single⟩

/-- A quote opens its literal. -/
theorem ofQuote?_char (q : Quote) : Literal.ofQuote? q.char = some q.literal := by
  cases q <;> rfl

/-- A quote is no bracket. -/
theorem ofChar_char (q : Quote) : BracketRole.ofChar q.char = .plain := by
  cases q <;> rfl

end Quote

namespace Bracket

open BracketRole

/-- A walk inside a group goes past the text. -/
def IsNested (text : Text) : Prop :=
  ∀ kinds rest, kinds ≠ [] →
    closeDistance ofChar kinds (text ++ rest) =
      (closeDistance ofChar kinds rest).map (· + text.length)

namespace IsNested

variable {u v : Text}

/-- Nothing is nested. -/
theorem nil : IsNested [] := fun _ _ _ => by simp

/-- Two nested texts are one. -/
theorem append (hu : IsNested u) (hv : IsNested v) : IsNested (u ++ v) := by
  intro kinds rest hkinds
  rw [List.append_assoc, hu kinds _ hkinds, hv kinds rest hkinds, Option.map_map,
    List.length_append]
  congr 1
  funext distance
  simp only [Function.comp_apply]
  omega

/-- A plain character is nested. -/
theorem singleton {c : Char} (hc : ofChar c = .plain) : IsNested [c] := by
  intro kinds rest _
  rw [List.singleton_append, closeDistance, hc]
  rfl

/-- So are any number of them. -/
theorem of_plain {w : Text} (hw : ∀ c ∈ w, ofChar c = .plain) : IsNested w := by
  induction w with
  | nil => exact .nil
  | cons c w ih =>
    exact (singleton (hw c List.mem_cons_self)).append
      (ih fun x hx => hw x (List.mem_cons_of_mem _ hx))

/-- A group is passed as a whole. -/
theorem group (hu : IsNested u) (kind : BracketKind) :
    IsNested (kind.opener :: (u ++ [kind.closer])) := by
  intro kinds rest hkinds
  obtain ⟨last, outer, rfl⟩ := List.exists_cons_of_ne_nil hkinds
  have hclose : closeDistance ofChar (kind :: last :: outer) (kind.closer :: rest) =
      (closeDistance ofChar (last :: outer) rest).map (· + 1) := by
    rw [closeDistance, kind.ofChar_closer]
    simp
  rw [List.cons_append, closeDistance, kind.ofChar_opener, List.append_assoc]
  dsimp only
  rw [hu _ _ (by simp), List.singleton_append, hclose, Option.map_map, Option.map_map]
  congr 1
  funext distance
  simp only [Function.comp_apply, List.length_cons, List.length_append, List.length_nil]
  omega

/-- The bracket behind a nested text closes the group around it. -/
theorem closeDistance_eq (hu : IsNested u) (kind : BracketKind) (rest : Text) :
    closeDistance ofChar [] (kind.opener :: (u ++ kind.closer :: rest)) = some (u.length + 1) := by
  have hclose : closeDistance ofChar [kind] (kind.closer :: rest) = some 0 := by
    rw [closeDistance, kind.ofChar_closer]
    simp
  rw [closeDistance, kind.ofChar_opener]
  dsimp only
  rw [hu _ _ (by simp), hclose]
  simp

end IsNested

end Bracket

namespace Code

open Scan

/-- Characters that are no brackets and open neither a literal nor a heredoc nor a comment. -/
def isPlain (c : Char) : Bool :=
  BracketRole.ofChar c == .plain &&
    !(['"', '\'', '\x60', '#', '%', '<'].contains c)

/-- Code in which all brackets and quotes are closed; or the rest of a string behind some of it, its
closing quote included, in which all interpolations are. -/
inductive IsBalanced : Option Quote → Text → Prop where
  | nil : IsBalanced none []
  | append {u v : Text} (hu : IsBalanced none u) (hv : IsBalanced none v) : IsBalanced none (u ++ v)
  | plain {c : Char} (hc : isPlain c = true) : IsBalanced none [c]
  | comment {body : Text} (hbody : '\n' ∉ body) : IsBalanced none ('#' :: (body ++ ['\n']))
  | group (kind : BracketKind) {u : Text} (hu : IsBalanced none u) :
    IsBalanced none (kind.opener :: (u ++ [kind.closer]))
  | quoted (q : Quote) {u : Text} (hu : IsBalanced (some q) u) : IsBalanced none (q.char :: u)
  | closing (q : Quote) : IsBalanced (some q) [q.char]
  | escaped {q : Quote} (c : Char) {u : Text} (hu : IsBalanced (some q) u) :
    IsBalanced (some q) ('\\' :: c :: u)
  | inside {q : Quote} {c : Char} {u : Text} (hclose : c ≠ q.char) (hescape : c ≠ '\\')
    (hcode : c = '#' → u.head? = some '\x7b' → q = .single) (hu : IsBalanced (some q) u) :
    IsBalanced (some q) (c :: u)
  | interpolated {q : Quote} (hq : q ≠ .single) {u v : Text} (hu : IsBalanced none u)
    (hv : IsBalanced (some q) v) : IsBalanced (some q) ('#' :: '\x7b' :: (u ++ '\x7d' :: v))

/-- Balanced code, or the rest of a string, that mentions a name as a bare word: somewhere, however
deep in groups and interpolations, it stands between the brackets of its group, commas and blanks,
or in front of a dot. -/
inductive Mentions (name : Text) : Option Quote → Text → Prop where
  | word {before after : Text} (hbefore : IsBalanced none before) (hafter : IsBalanced none after)
    (hleft : before.getLast?.all [',', ' '].contains = true)
    (hright : after.head?.all [',', ' ', '.'].contains = true) :
    Mentions name none (before ++ (name ++ after))
  | group (kind : BracketKind) {before u after : Text} (hbefore : IsBalanced none before)
    (hu : Mentions name none u) (hafter : IsBalanced none after) :
    Mentions name none (before ++ (kind.opener :: (u ++ [kind.closer]) ++ after))
  | quoted (q : Quote) {before u after : Text} (hbefore : IsBalanced none before)
    (hu : Mentions name (some q) u) (hafter : IsBalanced none after) :
    Mentions name none (before ++ (q.char :: u ++ after))
  | escaped {q : Quote} (c : Char) {u : Text} (hu : Mentions name (some q) u) :
    Mentions name (some q) ('\\' :: c :: u)
  | inside {q : Quote} {c : Char} {u : Text} (hclose : c ≠ q.char) (hescape : c ≠ '\\')
    (hcode : c = '#' → u.head? = some '\x7b' → q = .single) (hu : Mentions name (some q) u) :
    Mentions name (some q) (c :: u)
  | interpolated {q : Quote} (hq : q ≠ .single) {u v : Text} (hu : Mentions name none u)
    (hv : IsBalanced (some q) v) : Mentions name (some q) ('#' :: '\x7b' :: (u ++ '\x7d' :: v))
  | beyond {q : Quote} (hq : q ≠ .single) {u v : Text} (hu : IsBalanced none u)
    (hv : Mentions name (some q) v) : Mentions name (some q) ('#' :: '\x7b' :: (u ++ '\x7d' :: v))

/-! ### Scans through balanced code -/

/-- The frames of code, or those in a string that stands in it. -/
def entered (frames : List Frame) : Option Quote → List Frame
  | none => frames
  | some q => .literal q.literal 0 :: frames

/-- A scan through the text, in whatever code it stands and without heredocs pending, leads from one
mode to another and writes the image. -/
structure Writes (first last : Option Quote) (text image : Text) : Prop where
  reaches : ∀ before masked rest frames, IsCode frames → IsLineFree before text rest →
    Reaches ⟨before, masked, text ++ rest, entered frames first, []⟩
      ⟨text.reverse ++ before, image.reverse ++ masked, rest, entered frames last, []⟩
  masks : List.Forall₂ IsMaskOf image text

namespace Writes

variable {first middle last : Option Quote} {u v i j : Text} {q : Quote} {c : Char}

/-- Nothing stays in the mode. -/
theorem nil (mode : Option Quote) : Writes mode mode [] [] :=
  ⟨fun _ _ _ _ _ _ => .refl _, .nil⟩

/-- Texts are scanned one behind the other. -/
theorem append (hu : Writes first middle u i) (hv : Writes middle last v j) :
    Writes first last (u ++ v) (i ++ j) where
  reaches before masked rest frames hcode hline := by
    have hfirst := hu.reaches before masked (v ++ rest) frames hcode hline.left
    have hmore := hv.reaches (u.reverse ++ before) (i.reverse ++ masked) rest frames hcode
      hline.right
    simpa using hfirst.trans hmore
  masks := List.rel_append hu.masks hv.masks

/-- A plain character is shown. -/
theorem plain (hc : isPlain c = true) : Writes none none [c] [c] where
  reaches before masked rest frames hcode hline := by
    simp only [isPlain, Bool.and_eq_true, beq_iff_eq, Bool.not_eq_true', List.contains_eq_mem,
      decide_eq_false_iff_not] at hc
    obtain ⟨hplain, hnot⟩ := hc
    have hbraces : c ≠ '\x7b' ∧ c ≠ '\x7d' := by
      constructor <;>
      · rintro rfl
        cases hplain
    refine .step ?_
    by_cases hbreak : c = '\n'
    · subst hbreak
      exact step_of_lineBreak hcode
    · have hshown : IsShown c := isShown_of_notMem hbreak hnot
      have hstep : (Scan.mk before masked (c :: rest) frames []).step =
          ⟨c :: before, c :: masked, rest, countBrace c frames, []⟩ :=
        step_of_isShown hcode hshown hline.head
      rwa [countBrace_eq hbraces.1 hbraces.2] at hstep
  masks := .cons (isMaskOf_id c) .nil

/-- Plain characters are shown. -/
theorem of_plain {w : Text} (hw : ∀ c ∈ w, isPlain c = true) : Writes none none w w := by
  induction w with
  | nil => exact nil none
  | cons c w ih =>
    exact (plain (hw c List.mem_cons_self)).append (ih fun x hx => hw x (List.mem_cons_of_mem _ hx))

/-- A comment is blanked, and the line goes on in code. -/
theorem comment {body : Text} (hbody : '\n' ∉ body) :
    Writes none none ('#' :: (body ++ ['\n'])) (('#' :: (body ++ ['\n'])).map blankOf) where
  reaches before masked rest frames hcode _ := by
    have hblank : Reaches ⟨before, masked, '#' :: (body ++ '\n' :: rest), frames, []⟩ _ :=
      .step (step_of_comment hcode hbody)
    have hend := hblank.trans (.step (step_of_lineBreak hcode))
    simpa [entered, blankOf] using hend
  masks := by
    rw [List.forall₂_map_left_iff, List.forall₂_same]
    exact fun c _ => isMaskOf_blankOf c

/-- Brackets of either side are shown. -/
theorem step_of_bracket {frames : List Frame} {before masked rest : Text} (hcode : IsCode frames)
    (hc : BracketRole.ofChar c ≠ .plain) :
    (Scan.mk before masked (c :: rest) frames []).step =
      ⟨c :: before, c :: masked, rest, countBrace c frames, []⟩ := by
  have hshown : IsShown c := by
    constructor
    case notQuote =>
      unfold Literal.ofQuote?
      split
      · rename_i hquote
        rcases Bool.or_eq_true_iff.mp hquote with hquote | hquote <;>
        · rw [eq_of_beq hquote] at hc
          exact absurd rfl hc
      · split
        · rename_i hquote
          rw [eq_of_beq hquote] at hc
          exact absurd rfl hc
        · rfl
    all_goals
      rintro rfl
      exact hc rfl
  refine step_of_isShown hcode hshown fun _ hcomment => ?_
  obtain ⟨more, hmore⟩ := hcomment
  obtain rfl : '=' = c := (List.cons.inj hmore).1
  exact hc rfl

/-- The brace that closes a group takes back what its opening brace has done. -/
theorem countBrace_closer {frames : List Frame} (hcode : IsCode frames) (kind : BracketKind) :
    IsCode (countBrace kind.opener frames) ∧
      countBrace kind.closer (countBrace kind.opener frames) = frames := by
  cases frames with
  | nil => exact ⟨hcode, rfl⟩
  | cons frame outer =>
    cases frame with
    | literal kind' depth => exact absurd rfl (hcode kind' depth outer)
    | code depth =>
      have hdeeper : IsCode (.code (depth + 1) :: outer) := fun _ _ _ h => by cases h
      cases kind with
      | curly => exact ⟨hdeeper, rfl⟩
      | round => exact ⟨hcode, rfl⟩
      | square => exact ⟨hcode, rfl⟩

/-- What is scanned as code is scanned so in a group. -/
theorem group (hu : Writes none none u i) (kind : BracketKind) :
    Writes none none (kind.opener :: (u ++ [kind.closer]))
      (kind.opener :: (i ++ [kind.closer])) where
  reaches before masked rest frames hcode hline := by
    obtain ⟨hinner, hback⟩ := countBrace_closer hcode kind
    have hline' : IsLineFree before ([kind.opener] ++ (u ++ [kind.closer])) rest := hline
    have hbody := hu.reaches (kind.opener :: before) (kind.opener :: masked) (kind.closer :: rest)
      _ hinner hline'.right.left
    have hopen : Reaches ⟨before, masked, kind.opener :: (u ++ kind.closer :: rest), frames, []⟩
        _ := .step (step_of_bracket hcode kind.ofChar_opener_ne_plain)
    have hend := hopen.trans (hbody.trans (.step (step_of_bracket hinner
      kind.ofChar_closer_ne_plain)))
    simp only [entered, hback] at hend
    simpa [entered] using hend
  masks := .cons (isMaskOf_id _) (List.rel_append hu.masks (.cons (isMaskOf_id _) .nil))

/-! ### Scans in strings -/

/-- A quote opens a string. -/
theorem opening (q : Quote) : Writes none (some q) [q.char] [q.char] where
  reaches _ _ _ _ hcode _ := .step (step_of_quote hcode q.ofQuote?_char)
  masks := .cons (isMaskOf_id _) .nil

/-- The same quote closes it. -/
theorem closing (q : Quote) : Writes (some q) none [q.char] [q.char] where
  reaches before masked rest frames _ _ := by
    refine .step ?_
    cases q <;> rfl
  masks := .cons (isMaskOf_id _) .nil

/-- A backslash takes the next character with it. -/
theorem escaped (q : Quote) (c : Char) :
    Writes (some q) (some q) ['\\', c] (['\\', c].map blankOf) where
  reaches _ _ _ _ _ _ := .step rfl
  masks := by
    rw [List.forall₂_map_left_iff, List.forall₂_same]
    exact fun c _ => isMaskOf_blankOf c

/-- A character of a string is blanked. -/
theorem inside (hclose : c ≠ q.char) (hescape : c ≠ '\\')
    (hcode : c = '#' → u.head? = some '\x7b' → q = .single) (hu : Writes (some q) last u i)
    (hnonempty : u ≠ []) : Writes (some q) last (c :: u) (blankOf c :: i) where
  reaches before masked rest frames hframes hline := by
    have hline' : IsLineFree before ([c] ++ u) rest := hline
    have hmore := hu.reaches (c :: before) (blankOf c :: masked) rest frames hframes hline'.right
    have hstep : (Scan.mk before masked (c :: (u ++ rest)) (entered frames (some q)) []).step =
        ⟨c :: before, blankOf c :: masked, u ++ rest, entered frames (some q), []⟩ := by
      have hhead : (u ++ rest).head? = u.head? := List.head?_append_of_ne_nil _ hnonempty
      have hplain : ¬(q.literal.interpolates = true ∧ c = '#' ∧ u.head? = some '\x7b') := by
        rintro ⟨hcodes, hhash, hbrace⟩
        obtain rfl := hcode hhash hbrace
        cases hcodes
      change stepLiteral q.literal 0 frames c (u ++ rest).head? _ = _
      rw [stepLiteral.eq_def, hhead, if_neg (by simp [hescape]),
        if_neg (by simpa [and_assoc] using hplain), if_neg (by simp [Quote.literal]),
        if_neg (show ¬c = q.literal.closer from hclose)]
      rfl
    simpa using (Reaches.step hstep).trans hmore
  masks := .cons (isMaskOf_blankOf c) hu.masks

/-- The code of an interpolation is shown with its braces. -/
theorem interpolated (hq : q ≠ .single) (hu : Writes none none u i) :
    Writes (some q) (some q) ('#' :: '\x7b' :: (u ++ ['\x7d'])) ('#' :: '\x7b' :: (i ++ ['\x7d']))
      where
  reaches before masked rest frames hcode hline := by
    have hinner : IsCode (.code 0 :: entered frames (some q)) := fun _ _ _ h => by cases h
    have hline' : IsLineFree before (['#', '\x7b'] ++ (u ++ ['\x7d'])) rest := hline
    have hbody := hu.reaches ('\x7b' :: '#' :: before) ('\x7b' :: '#' :: masked)
      ('\x7d' :: rest) _ hinner hline'.right.left
    have hopen : (Scan.mk before masked ('#' :: '\x7b' :: (u ++ '\x7d' :: rest))
        (entered frames (some q)) []).step =
        ⟨'\x7b' :: '#' :: before, '\x7b' :: '#' :: masked, u ++ '\x7d' :: rest,
          .code 0 :: entered frames (some q), []⟩ := by
      cases q with
      | single => exact absurd rfl hq
      | double => rfl
      | backtick => rfl
    have hbrace : BracketRole.ofChar '\x7d' ≠ .plain := by decide
    have hend := (Reaches.step hopen).trans (hbody.trans (.step (step_of_bracket hinner hbrace)))
    simpa [entered, countBrace] using hend
  masks := .cons (isMaskOf_id _) (.cons (isMaskOf_id _)
    (List.rel_append hu.masks (.cons (isMaskOf_id _) .nil)))

end Writes

/-! ### What balanced code shows -/

/-- What is blanked holds no brackets. -/
theorem isNested_map_blankOf (text : Text) : Bracket.IsNested (text.map blankOf) := by
  refine .of_plain fun c hc => ?_
  obtain ⟨x, -, rfl⟩ := List.mem_map.mp hc
  unfold blankOf
  split <;> rfl

/-- Plain code holds none either. -/
theorem ofChar_of_isPlain {c : Char} (hc : isPlain c = true) : BracketRole.ofChar c = .plain :=
  eq_of_beq (Bool.and_eq_true_iff.mp hc).1

/-- Word characters are plain. -/
theorem isPlain_of_isWord {c : Char} (hc : CharClass.isWord c = true) : isPlain c = true := by
  have hmarks : ∀ x ∈ ['"', '\'', '\x60', '#', '%', '<', '(', '[', '\x7b', ')', ']', '\x7d'],
      CharClass.isWord x = false := by decide
  have hnot := notMem_of_accepted hmarks hc
  simp only [List.mem_cons, List.not_mem_nil, or_false, not_or] at hnot
  have hrole : BracketRole.ofChar c = .plain := by
    unfold BracketRole.ofChar
    split <;> first | rfl | simp at hnot
  simp [isPlain, hrole, hnot]

/-- What is left of a string holds its closing quote. -/
theorem IsBalanced.ne_nil {q : Quote} {u : Text} (h : IsBalanced (some q) u) : u ≠ [] := by
  cases h <;> simp

/-- Balanced code is scanned from end to end, and what is shown of it is nested. -/
theorem IsBalanced.exists_writes {mode : Option Quote} {text : Text} (h : IsBalanced mode text) :
    ∃ image, Writes mode none text image ∧ Bracket.IsNested image := by
  induction h with
  | nil => exact ⟨[], .nil none, .nil⟩
  | append _ _ ihu ihv =>
    obtain ⟨i, hi, hnested⟩ := ihu
    obtain ⟨j, hj, hnested'⟩ := ihv
    exact ⟨_, hi.append hj, hnested.append hnested'⟩
  | plain hc => exact ⟨_, .plain hc, .singleton (ofChar_of_isPlain hc)⟩
  | comment hbody => exact ⟨_, .comment hbody, isNested_map_blankOf _⟩
  | group kind _ ih =>
    obtain ⟨i, hi, hnested⟩ := ih
    exact ⟨_, hi.group kind, hnested.group kind⟩
  | quoted q _ ih =>
    obtain ⟨i, hi, hnested⟩ := ih
    exact ⟨_, (Writes.opening q).append hi,
      (Bracket.IsNested.singleton q.ofChar_char).append hnested⟩
  | closing q => exact ⟨_, .closing q, .singleton q.ofChar_char⟩
  | @escaped q c u _ ih =>
    obtain ⟨i, hi, hnested⟩ := ih
    exact ⟨_, (Writes.escaped q c).append hi, (isNested_map_blankOf _).append hnested⟩
  | inside hclose hescape hcode hu ih =>
    obtain ⟨i, hi, hnested⟩ := ih
    exact ⟨_, .inside hclose hescape hcode hi hu.ne_nil,
      (isNested_map_blankOf [_]).append hnested⟩
  | interpolated hq _ _ ihu ihv =>
    obtain ⟨i, hi, hnested⟩ := ihu
    obtain ⟨j, hj, hnested'⟩ := ihv
    exact ⟨'#' :: (('\x7b' :: (i ++ ['\x7d'])) ++ j), by
      simpa using (Writes.interpolated hq hi).append hj,
      (Bracket.IsNested.singleton (by rfl)).append ((hnested.group .curly).append hnested')⟩

/-! ### What is mentioned is shown -/

/-- Characters that a name may stand behind as a bare word. -/
def mayPrecede (c : Char) : Bool :=
  ['(', '[', '\x7b', ',', ' '].contains c

/-- Characters that may stand behind a name as a bare word. -/
def mayFollow (c : Char) : Bool :=
  [')', ']', '\x7d', ',', ' ', '.'].contains c

/-- The text shows the name as a bare word. -/
def ShowsWord (name text : Text) : Prop :=
  ∃ before after, text = before ++ (name ++ after) ∧ before.getLast?.any mayPrecede = true ∧
    after.head?.any mayFollow = true

/-- A word that is shown is so in a longer text. -/
theorem ShowsWord.append {name text : Text} (h : ShowsWord name text) (first last : Text) :
    ShowsWord name (first ++ (text ++ last)) := by
  obtain ⟨before, after, rfl, hbefore, hafter⟩ := h
  refine ⟨first ++ before, after ++ last, by simp, ?_, ?_⟩
  · rcases List.eq_nil_or_concat before with rfl | ⟨before, x, rfl⟩
    · cases hbefore
    · simpa using hbefore
  · cases after with
    | nil => cases hafter
    | cons x after => exact hafter

/-- What is shown of code shows the name once brackets stand around it. -/
def Presents (name : Text) : Option Quote → Text → Prop
  | none, image => ∀ kind : BracketKind,
      ShowsWord name (kind.opener :: (image ++ [kind.closer]))
  | some _, image => ShowsWord name image

/-- What is known of the first character holds of its masked form, if it holds of a blank. -/
theorem head?_of_masks {accepts : Char → Bool} (hblank : accepts ' ' = true) {image text : Text}
    (h : List.Forall₂ IsMaskOf image text) (htext : text.head?.all accepts = true) :
    image.head?.all accepts = true := by
  have himage := @any_head?_of_masks (fun c => !accepts c) (by simp [hblank]) image text h
  simp only [Option.any_eq_false, Bool.not_eq_false', ← Option.all_eq_true] at himage
  exact himage htext

/-- A name that is set off by commas, blanks or a dot is presented. -/
theorem presents_word {before after i j : Text} (name : Text)
    (hi : List.Forall₂ IsMaskOf i before) (hj : List.Forall₂ IsMaskOf j after)
    (hleft : before.getLast?.all [',', ' '].contains = true)
    (hright : after.head?.all [',', ' ', '.'].contains = true) :
    Presents name none (i ++ (name ++ j)) := by
  have hlast : i.getLast?.all [',', ' '].contains = true := by
    rw [List.getLast?_eq_head?_reverse] at hleft ⊢
    exact head?_of_masks (by decide) (List.forall₂_reverse_iff.mpr hi) hleft
  have hfirst := head?_of_masks (by decide) hj hright
  refine fun kind => ⟨kind.opener :: i, j ++ [kind.closer], by simp, ?_, ?_⟩
  · rcases List.eq_nil_or_concat i with rfl | ⟨i, x, rfl⟩
    · cases kind <;> rfl
    · have hx : x = ',' ∨ x = ' ' := by simpa using hlast
      rw [List.concat_eq_append, ← List.cons_append, List.getLast?_concat]
      rcases hx with rfl | rfl <;> rfl
  · cases j with
    | nil => cases kind <;> rfl
    | cons x j =>
      have hx : x = ',' ∨ x = ' ' ∨ x = '.' := by simpa using hfirst
      rcases hx with rfl | rfl | rfl <;> rfl

/-- The rest of a string that mentions a name is not empty. -/
theorem Mentions.ne_nil {name : Text} {q : Quote} {u : Text} (h : Mentions name (some q) u) :
    u ≠ [] := by
  cases h <;> simp

/-- A scan through code that mentions a name shows the name. -/
theorem Mentions.exists_writes {name : Text} (hname : ∀ c ∈ name, CharClass.isWord c = true)
    {mode : Option Quote} {text : Text} (h : Mentions name mode text) :
    ∃ image, Writes mode none text image ∧ Bracket.IsNested image ∧ Presents name mode image := by
  induction h with
  | word hbefore hafter hleft hright =>
    obtain ⟨i, hi, hnested⟩ := hbefore.exists_writes
    obtain ⟨j, hj, hnested'⟩ := hafter.exists_writes
    have hplain (c : Char) (hc : c ∈ name) : isPlain c = true := isPlain_of_isWord (hname c hc)
    have hword : Bracket.IsNested name := .of_plain fun c hc => ofChar_of_isPlain (hplain c hc)
    exact ⟨_, hi.append ((Writes.of_plain hplain).append hj),
      hnested.append (hword.append hnested'),
      presents_word name hi.masks hj.masks hleft hright⟩
  | group kind hbefore _ hafter ih =>
    obtain ⟨i, hi, hnested⟩ := hbefore.exists_writes
    obtain ⟨j, hj, hnested'⟩ := hafter.exists_writes
    obtain ⟨k, hk, hinner, hshows⟩ := ih
    refine ⟨_, hi.append ((hk.group kind).append hj), hnested.append ((hinner.group kind).append
      hnested'), fun outer => ?_⟩
    simpa using (hshows kind).append (outer.opener :: i) (j ++ [outer.closer])
  | quoted q hbefore _ hafter ih =>
    obtain ⟨i, hi, hnested⟩ := hbefore.exists_writes
    obtain ⟨j, hj, hnested'⟩ := hafter.exists_writes
    obtain ⟨k, hk, hinner, hshows⟩ := ih
    refine ⟨_, hi.append (((Writes.opening q).append hk).append hj), hnested.append
      (((Bracket.IsNested.singleton q.ofChar_char).append hinner).append hnested'), fun outer => ?_⟩
    simpa using hshows.append (outer.opener :: (i ++ [q.char])) (j ++ [outer.closer])
  | @escaped q c u _ ih =>
    obtain ⟨i, hi, hnested, hshows⟩ := ih
    refine ⟨_, (Writes.escaped q c).append hi, (isNested_map_blankOf _).append hnested, ?_⟩
    simpa [Presents] using hshows.append (['\\', c].map blankOf) []
  | @inside q c u hclose hescape hcode hu ih =>
    obtain ⟨i, hi, hnested, hshows⟩ := ih
    refine ⟨_, .inside hclose hescape hcode hi hu.ne_nil,
      (isNested_map_blankOf [_]).append hnested, ?_⟩
    simpa [Presents] using hshows.append [blankOf c] []
  | interpolated hq _ hv ih =>
    obtain ⟨i, hi, hnested, hshows⟩ := ih
    obtain ⟨j, hj, hnested'⟩ := hv.exists_writes
    refine ⟨'#' :: (('\x7b' :: (i ++ ['\x7d'])) ++ j), by
      simpa using (Writes.interpolated hq hi).append hj,
      (Bracket.IsNested.singleton (by rfl)).append ((hnested.group .curly).append hnested'), ?_⟩
    exact (hshows .curly).append ['#'] j
  | beyond hq hu _ ih =>
    obtain ⟨i, hi, hnested⟩ := hu.exists_writes
    obtain ⟨j, hj, hnested', hshows⟩ := ih
    refine ⟨'#' :: (('\x7b' :: (i ++ ['\x7d'])) ++ j), by
      simpa using (Writes.interpolated hq hi).append hj,
      (Bracket.IsNested.singleton (by rfl)).append ((hnested.group .curly).append hnested'), ?_⟩
    simpa [Presents] using hshows.append ('#' :: '\x7b' :: (i ++ ['\x7d'])) []

end Code

end FactoryDowngrade
