import FactoryDowngrade.Proofs.Template.Patterns
import FactoryDowngrade.Proofs.Template.Scans
import FactoryDowngrade.Proofs.Text.CharClasses
import FactoryDowngrade.Ruby.Mask
import Mathlib.Data.List.TakeWhile

/-!
# Heredocs and comments on templates

What opens a heredoc is the same in every filling unless a slot stands in it, and in an orderly
template none does if no slot follows a flag. The lines that a heredoc body or a block comment
takes are the same if no slot stands among them.
-/

namespace FactoryDowngrade

open Template Pattern

/-! ### Lengths by lines -/

/-- A heredoc takes lines through the first one that closes it. -/
theorem Heredoc.bodyLength_eq (h : Heredoc) (text : Text) : h.bodyLength text =
    match text.dropWhile (· ≠ '\n') with
    | [] => text.firstLine.length
    | _ :: rest => if h.closes text.firstLine then text.firstLine.length + 1
        else text.firstLine.length + 1 + h.bodyLength rest := by
  rw [bodyLength]
  split
  · rename_i heq
    rw [heq]
  · rename_i heq
    rw [heq]

/-- Whether a line ends a block comment. -/
def endsBlockComment (line : Text) : Bool :=
  line.startsWith "=end".toList && !(line.drop 4).head?.any CharClass.isWord

/-- A block comment takes lines through the first one that ends it, its line break excepted. -/
theorem blockCommentLength_eq (text : Text) : blockCommentLength text =
    match text.dropWhile (· ≠ '\n') with
    | [] => text.firstLine.length
    | _ :: rest => if endsBlockComment text.firstLine then text.firstLine.length + 0
        else text.firstLine.length + 1 + blockCommentLength rest := by
  rw [blockCommentLength]
  split
  · rename_i heq
    rw [heq]
  · rename_i heq
    rw [heq]
    rfl

namespace Template

/-! ### Lines -/

/-- A template has its first line alone, or a line break and more behind it. -/
theorem exists_firstLine_fill (t : Template) :
    ∃ line : Template, (∀ f : Filling, (fill f.word t).firstLine = fill f.word line) ∧
      ((t = line ∧ ∀ f : Filling, (fill f.word t).dropWhile (· ≠ '\n') = []) ∨
        ∃ c rest, t = line ++ some c :: rest ∧
          ∀ f : Filling, (fill f.word t).dropWhile (· ≠ '\n') = c :: fill f.word rest) := by
  have hbreak : Ignores (fun c => decide (c ≠ '\n')) true := by decide
  have hsplit := List.takeWhile_append_dropWhile
    (p := onItem true fun c => decide (c ≠ '\n')) (l := t)
  have hdrop (f : Filling) : (fill f.word t).dropWhile (· ≠ '\n') =
      fill f.word (t.dropWhile (onItem true fun c => decide (c ≠ '\n'))) :=
    dropWhile_fill hbreak f.isSlotWord_word t
  refine ⟨t.takeWhile (onItem true fun c => decide (c ≠ '\n')),
    fun f => takeWhile_fill hbreak f.isSlotWord_word t, ?_⟩
  cases hrest : t.dropWhile (onItem true fun c => decide (c ≠ '\n')) with
  | nil =>
    rw [hrest, List.append_nil] at hsplit
    exact .inl ⟨hsplit.symm, fun f => by rw [hdrop f, hrest, fill_nil]⟩
  | cons item rest =>
    have hhead := List.head?_dropWhile_not (onItem true fun c => decide (c ≠ '\n')) t
    rw [hrest] at hsplit hhead
    cases item with
    | none => simp at hhead
    | some c => exact .inr ⟨c, rest, hsplit.symm, fun f => by rw [hdrop f, hrest, fill_some]⟩

/-- The lines through the first one that closes, counted in items. What they are when another word
fills the slots is only known if there is no slot among them. -/
theorem exists_lines_fill (lines : Text → Nat) (closes : Text → Bool) {extra : Nat}
    (hextra : extra ≤ 1) (hlines : ∀ text, lines text =
      match text.dropWhile (· ≠ '\n') with
      | [] => text.firstLine.length
      | _ :: rest => if closes text.firstLine then text.firstLine.length + extra
          else text.firstLine.length + 1 + lines rest) (f g : Filling) (t : Template) :
    ∃ count, lines (fill f.word t) = offsetOf f.word t count ∧
      (none ∉ t.take count → lines (fill g.word t) = offsetOf g.word t count) := by
  induction hlength : t.length using Nat.strongRecOn generalizing t with
  | ind n ih =>
    obtain ⟨line, hline, ⟨rfl, hdrop⟩ | ⟨c, rest, rfl, hdrop⟩⟩ := exists_firstLine_fill t
    · have hall (f : Filling) : lines (fill f.word t) = offsetOf f.word t t.length := by
        rw [hlines, hdrop f, hline f, offsetOf, List.take_length]
      exact ⟨t.length, hall f, fun _ => hall g⟩
    · have hlineLength (f : Filling) : (fill f.word line).length =
          offsetOf f.word (line ++ some c :: rest) line.length := by
        rw [offsetOf, List.take_left]
      have hdropLine : (line ++ some c :: rest).drop line.length = some c :: rest := List.drop_left
      have hplain {count : Nat}
          (hnone : none ∉ (line ++ some c :: rest).take (line.length + count)) :
          fill g.word line = fill f.word line := by
        rw [List.take_length_add_append, List.mem_append, not_or] at hnone
        obtain ⟨text, rfl⟩ := exists_map_some_of_none_notMem hnone.1
        rw [fill_map_some, fill_map_some]
      by_cases hcloses : closes (fill f.word line) = true
      · have hall (f : Filling) (hcloses : closes (fill f.word line) = true) :
            lines (fill f.word (line ++ some c :: rest)) =
              offsetOf f.word (line ++ some c :: rest) (line.length + extra) := by
          have hmore : offsetOf f.word (some c :: rest) extra = extra := by
            rcases Nat.le_one_iff_eq_zero_or_eq_one.mp hextra with rfl | rfl
            · exact offsetOf_zero _ _
            · rw [offsetOf_some_succ, offsetOf_zero]
          rw [hlines, hdrop f, hline f]
          dsimp only
          rw [if_pos hcloses, offsetOf_add, hdropLine, hmore, hlineLength]
        refine ⟨line.length + extra, hall f hcloses, fun hnone => hall g ?_⟩
        rw [hplain hnone]
        exact hcloses
      · obtain ⟨count, hcount, hother⟩ := ih rest.length (by
          rw [← hlength, List.length_append, List.length_cons]
          omega) rest rfl
        have hall (f : Filling) (hcloses : ¬closes (fill f.word line) = true)
            (hcount : lines (fill f.word rest) = offsetOf f.word rest count) :
            lines (fill f.word (line ++ some c :: rest)) =
              offsetOf f.word (line ++ some c :: rest) (line.length + (count + 1)) := by
          rw [hlines, hdrop f, hline f]
          dsimp only
          rw [if_neg hcloses, offsetOf_add, hdropLine, offsetOf_some_succ, hcount, hlineLength]
          omega
        refine ⟨line.length + (count + 1), hall f hcloses hcount, fun hnone => hall g ?_ ?_⟩
        · rw [hplain hnone]
          exact hcloses
        · refine hother fun hmem => hnone ?_
          rw [List.take_length_add_append, List.take_succ_cons]
          exact List.mem_append_right _ (List.mem_cons_of_mem _ hmem)

/-- The body of a heredoc, counted in items. -/
theorem exists_bodyLength_fill (h : Heredoc) (f g : Filling) (t : Template) :
    ∃ count, h.bodyLength (fill f.word t) = offsetOf f.word t count ∧
      (none ∉ t.take count → h.bodyLength (fill g.word t) = offsetOf g.word t count) :=
  exists_lines_fill h.bodyLength h.closes (Nat.le_refl 1) h.bodyLength_eq f g t

/-- The bodies of successive heredocs, counted in items. -/
theorem exists_bodiesLength_fill (hs : List Heredoc) (f g : Filling) (t : Template) :
    ∃ count, Heredoc.bodiesLength hs (fill f.word t) = offsetOf f.word t count ∧
      (none ∉ t.take count →
        Heredoc.bodiesLength hs (fill g.word t) = offsetOf g.word t count) := by
  induction hs generalizing t with
  | nil => exact ⟨0, (offsetOf_zero _ _).symm, fun _ => (offsetOf_zero _ _).symm⟩
  | cons h hs ih =>
    obtain ⟨first, hfirst, hfirstOther⟩ := exists_bodyLength_fill h f g t
    obtain ⟨more, hmore, hmoreOther⟩ := ih (t.drop first)
    have hall (f : Filling) (hfirst : h.bodyLength (fill f.word t) = offsetOf f.word t first)
        (hmore : Heredoc.bodiesLength hs (fill f.word (t.drop first)) =
          offsetOf f.word (t.drop first) more) :
        Heredoc.bodiesLength (h :: hs) (fill f.word t) = offsetOf f.word t (first + more) := by
      rw [Heredoc.bodiesLength, hfirst, drop_offsetOf, hmore, offsetOf_add]
    refine ⟨first + more, hall f hfirst hmore, fun hnone => ?_⟩
    rw [List.take_add, List.mem_append, not_or] at hnone
    exact hall g (hfirstOther hnone.1) (hmoreOther hnone.2)

/-- A block comment, counted in items. -/
theorem exists_blockCommentLength_fill (f g : Filling) (t : Template) :
    ∃ count, blockCommentLength (fill f.word t) = offsetOf f.word t count ∧
      (none ∉ t.take count →
        blockCommentLength (fill g.word t) = offsetOf g.word t count) :=
  exists_lines_fill blockCommentLength endsBlockComment (Nat.zero_le 1) blockCommentLength_eq f g t

end Template

namespace Heredoc

/-! ### Tags -/

/-- A tag in quotes is told by its first two characters and what ends the name. -/
theorem quotedTag?_cons_cons (quote first : Char) (rest : Text) :
    quotedTag? (quote :: first :: rest) =
      if (quote == '\'' || quote == '"' || quote == '\x60') && CharClass.isNameStart first
          && (rest.dropWhile CharClass.isWord).head? == some quote then
        some (first :: rest.takeWhile CharClass.isWord,
          (rest.takeWhile CharClass.isWord).length + 3)
      else none := by
  rw [quotedTag?, drop_length_takeWhile]

/-- A tag without quotes goes on to its last character and stands in front of no word. -/
theorem bareTag?_cons (first : Char) (rest : Text) :
    bareTag? (first :: rest) =
      if (first == '_' || first.isUpper) && !(rest.dropWhile isTagChar).head?.any CharClass.isWord
      then some (first :: rest.takeWhile isTagChar, (rest.takeWhile isTagChar).length + 1)
      else none := by
  rw [bareTag?, drop_length_takeWhile]

/-- What a bare tag is made of belongs to words. -/
theorem isWord_of_isTagChar {c : Char} (h : isTagChar c = true) : CharClass.isWord c = true := by
  simp only [isTagChar, Bool.or_eq_true] at h
  rcases h with (h | h) | h
  · rw [eq_of_beq h]
    decide
  · exact CharClass.isWord_of_isUpper h
  · exact CharClass.isWord_of_isDigit h

/-- A tag on a template: its items, and the number of quotes around them. -/
abbrev SpotTag := Template × Nat

/-- The tag in a filling, with its length. -/
def SpotTag.tag (x : SpotTag) (f : Filling) : Text × Nat :=
  (fill f.word x.1, (fill f.word x.1).length + x.2)

/-- A tag that stands at the front of a template: in quotes, or with a visible first character, or
without either where a flag comes before it. -/
inductive SpotTag.IsAt : SpotTag → Template → Prop where
  | quoted {quote : Char} {tag rest : Template} (hquote : CharClass.isWord quote = false)
      (hround : quote ≠ '(') (hspace : CharClass.isSpaceOrTab quote = false)
      (hword : ∀ item ∈ tag, isWordItem item = true) :
      SpotTag.IsAt (tag, 2) (some quote :: tag ++ some quote :: rest)
  | bare {first : Char} {tag rest : Template} (hfirst : CharClass.isWord first = true)
      (hword : ∀ item ∈ tag, isWordItem item = true) :
      SpotTag.IsAt (some first :: tag, 0) (some first :: tag ++ rest)
  | slot {tag rest : Template} : SpotTag.IsAt (none :: tag, 0) (none :: tag ++ rest)

/-- The quotes of a tag belong neither to words nor to what may stand around arguments. -/
theorem facts_of_quote {quote : Char}
    (hquote : (quote == '\'' || quote == '"' || quote == '\x60') = true) :
    quote ∉ letters ∧ CharClass.isWord quote = false ∧ quote ≠ '(' ∧
      CharClass.isSpaceOrTab quote = false := by
  simp only [Bool.or_eq_true, beq_iff_eq] at hquote
  rcases hquote with (rfl | rfl) | rfl <;> decide

/-- A name between quotes is a tag. -/
theorem SpotTag.isAt_quoted {quote : Char}
    (hquote : (quote == '\'' || quote == '"' || quote == '\x60') = true) {item : Option Char}
    {rest : Template} (hstart : onItem true CharClass.isNameStart item = true)
    (hend : (rest.dropWhile isWordItem).head? = some (some quote)) :
    SpotTag.IsAt (item :: rest.takeWhile isWordItem, 2) (some quote :: item :: rest) := by
  obtain ⟨-, hword, hround, hspace⟩ := facts_of_quote hquote
  obtain ⟨after, hafter⟩ := List.head?_eq_some_iff.mp hend
  have ht : some quote :: item :: rest =
      some quote :: (item :: rest.takeWhile isWordItem) ++ some quote :: after := by
    rw [← hafter]
    simp [List.takeWhile_append_dropWhile]
  rw [ht]
  refine .quoted hword hround hspace fun x hx => ?_
  rcases List.mem_cons.mp hx with rfl | hx
  · cases x with
    | none => rfl
    | some c => exact CharClass.isWord_of_isNameStart hstart
  · exact List.mem_takeWhile_imp hx

/-- Behind a quote a tag stands in every filling or in none. -/
theorem quotedTag?_fill_cons {quote : Char}
    (hquote : (quote == '\'' || quote == '"' || quote == '\x60') = true) (item : Option Char)
    (rest : Template) (f : Filling) :
    quotedTag? (fill f.word (some quote :: item :: rest)) =
      if onItem true CharClass.isNameStart item = true ∧
          (rest.dropWhile isWordItem).head? = some (some quote) then
        some (SpotTag.tag (item :: rest.takeWhile isWordItem, 2) f)
      else none := by
  have hstart : Ignores CharClass.isNameStart true := by decide
  obtain ⟨first, more, hmore, hfill, htest⟩ := exists_fill_cons_eq item f
  have hend : (fill f.word (rest.dropWhile isWordItem)).head? = some quote ↔
      (rest.dropWhile isWordItem).head? = some (some quote) :=
    head?_fill_eq_some_iff (facts_of_quote hquote).1 f.isSlotWord_word _
  rw [fill_some, hfill, quotedTag?_cons_cons, hquote, htest _ _ hstart,
    dropWhile_isWord_append hmore, takeWhile_isWord_append hmore, Bool.true_and]
  simp only [Bool.and_eq_true, beq_iff_eq, hend, SpotTag.tag, hfill, List.length_cons]

/-- A quoted tag begins at the same items in every filling. -/
theorem exists_quotedTag?_fill (t : Template) :
    ∃ found : Option SpotTag, (∀ x ∈ found, x.IsAt t ∧ t.head? ≠ some none) ∧
      ∀ f : Filling, quotedTag? (fill f.word t) = found.map (·.tag f) := by
  have hplain : ∀ c ∈ letters, (c == '\'' || c == '"' || c == '\x60') = false := by decide
  match t with
  | [] => exact ⟨none, by simp, fun f => rfl⟩
  | none :: rest =>
    refine ⟨none, by simp, fun f => ?_⟩
    obtain ⟨c, hc, more, -, hfill⟩ := exists_fill_none_eq f.isSlotWord_word rest
    rw [hfill]
    cases more ++ fill f.word rest with
    | nil => rfl
    | cons d rest =>
      rw [quotedTag?_cons_cons, hplain c hc]
      rfl
  | [some quote] => exact ⟨none, by simp, fun f => rfl⟩
  | some quote :: item :: rest =>
    by_cases hquote : (quote == '\'' || quote == '"' || quote == '\x60') = true
    · by_cases htag : onItem true CharClass.isNameStart item = true ∧
          (rest.dropWhile isWordItem).head? = some (some quote)
      · refine ⟨some (item :: rest.takeWhile isWordItem, 2), fun x hx => ?_, fun f => ?_⟩
        · obtain rfl := Option.mem_some_iff.mp hx
          exact ⟨SpotTag.isAt_quoted hquote htag.1 htag.2, by simp⟩
        · rw [quotedTag?_fill_cons hquote, if_pos htag]
          rfl
      · exact ⟨none, by simp, fun f => by rw [quotedTag?_fill_cons hquote, if_neg htag]; rfl⟩
    · refine ⟨none, by simp, fun f => ?_⟩
      obtain ⟨first, more, -, hfill, -⟩ := exists_fill_cons_eq item f
      rw [fill_some, hfill, quotedTag?_cons_cons, Bool.eq_false_iff.mpr hquote]
      rfl

/-- A bare tag begins at the same items in every filling. -/
theorem exists_bareTag?_fill (t : Template) :
    ∃ found : Option SpotTag, (∀ x ∈ found, x.IsAt t ∧ t.head? ≠ some none) ∧
      ∀ f : Filling, bareTag? (fill f.word t) = found.map (·.tag f) := by
  have hreject : RejectsSlots fun c => c == '_' || c.isUpper := by decide
  have hrejectTag : RejectsSlots isTagChar := by decide
  have hisWord : Ignores CharClass.isWord true := by decide
  match t with
  | [] => exact ⟨none, by simp, fun f => rfl⟩
  | none :: rest =>
    refine ⟨none, by simp, fun f => ?_⟩
    obtain ⟨c, more, hword⟩ := List.exists_cons_of_ne_nil f.isSlotWord_word.nonempty
    have hc : (c == '_' || c.isUpper) = false := by
      have hhead := hreject f
      rwa [hword] at hhead
    rw [fill_none, hword, List.cons_append, bareTag?_cons, hc]
    rfl
  | some first :: rest =>
    let tag := rest.takeWhile (onItem false isTagChar)
    let closed := (rest.dropWhile (onItem false isTagChar)).head?.any (onItem true CharClass.isWord)
    refine ⟨if ((first == '_' || first.isUpper) && !closed) = true then some (some first :: tag, 0)
      else none, fun x hx => ?_, fun f => ?_⟩
    · split at hx
      · rename_i hfirst
        obtain rfl := Option.mem_some_iff.mp hx
        have ht : some first :: rest =
            some first :: tag ++ rest.dropWhile (onItem false isTagChar) := by
          simp [tag, List.takeWhile_append_dropWhile]
        refine ⟨?_, by simp⟩
        rw [ht]
        refine .bare ?_ fun item hitem => ?_
        · simp only [Bool.and_eq_true, Bool.or_eq_true] at hfirst
          exact hfirst.1.elim (fun h => by rw [eq_of_beq h]; decide) CharClass.isWord_of_isUpper
        · have htag := List.mem_takeWhile_imp hitem
          cases item with
          | none => cases htag
          | some c => exact isWord_of_isTagChar htag
      · cases hx
    · rw [fill_some, bareTag?_cons, dropWhile_fill_of_rejects hrejectTag,
        any_head?_fill hisWord f.isSlotWord_word, takeWhile_fill_of_rejects hrejectTag]
      split
      · rfl
      · rfl

/-- A tag that begins with a small letter begins at the same items in every filling. -/
theorem exists_smallTag?_fill (t : Template) :
    ∃ found : Option SpotTag, (∀ x ∈ found, x.IsAt t) ∧
      ∀ f : Filling, smallTag? (fill f.word t) = found.map (·.tag f) := by
  have hlower : Ignores CharClass.isLowerStart true := by decide
  match t with
  | [] => exact ⟨none, by simp, fun f => rfl⟩
  | item :: rest =>
    refine ⟨if onItem true CharClass.isLowerStart item = true then
      some (item :: rest.takeWhile isWordItem, 0) else none, fun x hx => ?_, fun f => ?_⟩
    · split at hx
      · rename_i hfirst
        obtain rfl := Option.mem_some_iff.mp hx
        have ht : item :: rest =
            item :: rest.takeWhile isWordItem ++ rest.dropWhile isWordItem := by
          simp [List.takeWhile_append_dropWhile]
        rw [ht]
        cases item with
        | none => exact .slot
        | some c =>
          exact .bare (CharClass.isWord_of_isLowerStart hfirst) fun x hx =>
            List.mem_takeWhile_imp hx
      · cases hx
    · obtain ⟨first, more, hmore, hfill, htest⟩ := exists_fill_cons_eq item f
      rw [hfill, smallTag?, htest _ _ hlower, takeWhile_isWord_append hmore]
      split
      · simp only [Option.map_some, SpotTag.tag, hfill, List.length_cons, Nat.add_zero]
      · rfl

/-- A tag begins at the same items in every filling. -/
theorem exists_tag?_fill (flagged : Bool) (t : Template) :
    ∃ found : Option SpotTag,
      (∀ x ∈ found, x.IsAt t ∧ (flagged = false → t.head? ≠ some none)) ∧
      ∀ f : Filling, tag? flagged (fill f.word t) = found.map (·.tag f) := by
  obtain ⟨quoted, hquotedAt, hquoted⟩ := exists_quotedTag?_fill t
  obtain ⟨bare, hbareAt, hbare⟩ := exists_bareTag?_fill t
  obtain ⟨small, hsmallAt, hsmall⟩ := exists_smallTag?_fill t
  refine ⟨quoted.or (bare.or (if flagged then small else none)), fun x hx => ?_, fun f => ?_⟩
  · rcases Option.or_eq_some_iff.mp hx with hx | ⟨-, hx⟩
    · exact ⟨(hquotedAt x hx).1, fun _ => (hquotedAt x hx).2⟩
    · rcases Option.or_eq_some_iff.mp hx with hx | ⟨-, hx⟩
      · exact ⟨(hbareAt x hx).1, fun _ => (hbareAt x hx).2⟩
      · cases flagged with
        | true => exact ⟨hsmallAt x hx, fun h => nomatch h⟩
        | false => cases hx
  · rw [tag?, hquoted f, hbare f, hsmall f]
    cases quoted with
    | some x => rfl
    | none =>
      cases bare with
      | some x => rfl
      | none => cases flagged <;> rfl

namespace SpotTag

variable {x : SpotTag} {t : Template}

/-- The number of items that a tag takes. -/
def count (x : SpotTag) : Nat :=
  x.1.length + x.2

/-- No arguments begin with a word character. -/
theorem opensArguments_eq_false {c : Char} (hc : CharClass.isWord c = true) (t : Template) :
    opensArguments (some c :: t) = false := by
  have hround : (c == '(') = false := by
    rw [beq_eq_false_iff_ne]
    rintro rfl
    exact absurd hc (by decide)
  have hspace : CharClass.isSpaceOrTab c = false := by
    rw [Bool.eq_false_iff]
    intro hspace
    simp only [CharClass.isSpaceOrTab, Bool.or_eq_true, beq_iff_eq] at hspace
    rcases hspace with rfl | rfl <;> exact absurd hc (by decide)
  rw [opensArguments, hround, hspace]
  rfl

/-- The items of a tag in quotes with its quotes. -/
theorem take_quoted (quote : Option Char) (tag rest : Template) :
    (quote :: tag ++ quote :: rest).take (tag.length + 2) = quote :: (tag ++ [quote]) := by
  rw [List.cons_append, List.take_succ_cons, List.take_length_add_append]
  rfl

/-- In an orderly template no slot stands in a tag, unless the tag begins with it. -/
theorem IsAt.none_notMem (h : x.IsAt t) (horderly : IsOrderly (t.take x.count))
    (hfirst : t.head? ≠ some none) : none ∉ t.take x.count := by
  cases h with
  | @quoted quote tag rest hquote hround hspace hword =>
    rw [count, take_quoted] at horderly ⊢
    intro hmem
    have htag : none ∈ tag := by simpa using hmem
    obtain ⟨front, back, rfl⟩ := List.append_of_mem htag
    have harguments := horderly.arguments (some quote :: front) (back ++ [some quote]) (by simp)
    cases back with
    | nil =>
      have hclosed : (quote == '(') = false := beq_eq_false_iff_ne.mpr hround
      rw [List.nil_append, opensArguments, hclosed, hspace] at harguments
      cases harguments
    | cons item back =>
      cases item with
      | none => cases harguments
      | some c =>
        have hc : CharClass.isWord c = true := hword (some c) (by simp)
        rw [List.cons_append, opensArguments_eq_false hc] at harguments
        cases harguments
  | @bare first tag rest hstart hword =>
    have hchunk : (some first :: tag ++ rest).take ((some first :: tag).length + 0) =
        some first :: tag := by
      rw [Nat.add_zero, List.take_left]
    rw [count, hchunk] at horderly ⊢
    intro hmem
    have htag : none ∈ tag := by simpa using hmem
    obtain ⟨front, back, rfl⟩ := List.append_of_mem htag
    rcases List.eq_nil_or_concat front with rfl | ⟨lead, item, rfl⟩
    · have hclean := horderly.unstained [] first back (by simp)
      rw [stains_of_isWord hstart] at hclean
      cases hclean
    · cases item with
      | none =>
        have harguments := horderly.arguments (some first :: lead) (none :: back) (by simp)
        cases harguments
      | some c =>
        have hclean := horderly.unstained (some first :: lead) c back (by simp)
        have hc : CharClass.isWord c = true := hword (some c) (by simp)
        rw [stains_of_isWord hc] at hclean
        cases hclean
  | slot => exact absurd rfl hfirst

/-- A tag takes at least one item. -/
theorem IsAt.count_pos (h : x.IsAt t) : 0 < x.count := by
  cases h <;> simp [count]

/-- The items of a tag are among those that it takes. -/
theorem IsAt.subset (h : x.IsAt t) : x.1 ⊆ t.take x.count := by
  cases h with
  | @quoted quote tag rest hquote hround hspace hword =>
    intro item hitem
    rw [count, take_quoted]
    simp [hitem]
  | bare hfirst hword => simp [count]
  | slot => simp [count]

/-- The length of a tag with its quotes counts the items that it takes. -/
theorem IsAt.offsetOf_count (h : x.IsAt t) (f : Filling) :
    offsetOf f.word t x.count = (x.tag f).2 := by
  cases h with
  | @quoted quote tag rest hquote hround hspace hword =>
    rw [offsetOf, count, take_quoted, SpotTag.tag]
    simp
  | bare hfirst hword => rw [offsetOf, count, Nat.add_zero, List.take_left, SpotTag.tag]; rfl
  | slot => rw [offsetOf, count, Nat.add_zero, List.take_left, SpotTag.tag]; rfl

end SpotTag

/-! ### Openers -/

/-- What opens a heredoc on a template: the items of its tag, whether its closing line may be
indented, and the number of items that the opener takes. -/
structure Opening where
  tag : Template
  indented : Bool
  count : Nat

/-- The opener in a filling. -/
def Opening.opener (o : Opening) (t : Template) (f : Filling) : Heredoc × Nat :=
  (⟨fill f.word o.tag, o.indented⟩, offsetOf f.word t o.count)

namespace SpotTag.IsAt

variable {x : SpotTag} {t : Template}

/-- A tag without slots has none behind some characters either. -/
theorem none_notMem_behind (h : x.IsAt t) (lead : Text) (hplain : none ∉ t.take x.count) :
    none ∉ x.1 ∧ none ∉ (lead.map some ++ t).take (x.count + lead.length) := by
  refine ⟨fun hmem => hplain (h.subset hmem), ?_⟩
  have hlead : lead.length = (lead.map (some : Char → Option Char)).length := by simp
  rw [Nat.add_comm, hlead, List.take_length_add_append, List.mem_append, not_or]
  exact ⟨by simp, hplain⟩

/-- Behind some characters a tag opens a heredoc with them. -/
theorem opener_behind (h : x.IsAt t) (lead : Text) (indented : Bool) (f : Filling) :
    ((⟨(x.tag f).1, indented⟩ : Heredoc), (x.tag f).2 + lead.length) =
      Opening.opener ⟨x.1, indented, x.count + lead.length⟩ (lead.map some ++ t) f := by
  have hlead : lead.length = (lead.map (some : Char → Option Char)).length := by simp
  have htake : (lead.map some ++ t).take (x.count + lead.length) =
      lead.map some ++ t.take x.count := by
    rw [Nat.add_comm, hlead, List.take_length_add_append]
  rw [Opening.opener, offsetOf, htake, length_fill_append, fill_map_some, ← h.offsetOf_count f,
    offsetOf, Nat.add_comm]
  rfl

end SpotTag.IsAt

/-- No slot follows the flag of a heredoc. -/
def IsUntagged (t : Template) : Prop :=
  ∀ before flag after, t = before ++ some '<' :: some '<' :: some flag :: none :: after →
    flag ≠ '-' ∧ flag ≠ '~'

/-- A part of a template without slots behind flags has none there. -/
theorem IsUntagged.of_isInfix {s t : Template} (ht : IsUntagged t) (h : s <:+: t) :
    IsUntagged s := by
  obtain ⟨front, back, rfl⟩ := h
  intro before flag after hs
  exact ht (front ++ before) flag (after ++ back) (by simp [hs])

/-- No slot stands in the opener if its items are orderly. -/
def Opening.IsPlain (o : Opening) (t : Template) : Prop :=
  IsOrderly (t.take o.count) → IsUntagged (t.take o.count) →
    none ∉ o.tag ∧ none ∉ t.take o.count

/-- Without two less-than signs no heredoc opens. -/
theorem opener?_eq_none {previous : Option Char} {text : Text}
    (h : ∀ rest, text ≠ '<' :: '<' :: rest) : opener? previous text = none := by
  unfold opener?
  split
  · exact absurd rfl (h _)
  · rfl

/-- Behind a flag the opener has a tag of any case, and its body ends indented. -/
theorem opener?_of_flag (previous : Option Char) {flag : Char} (hflag : flag = '-' ∨ flag = '~')
    (text : Text) : opener? previous ('<' :: '<' :: flag :: text) =
      if previous.any isOperand then none
      else (tag? true text).map fun (tag, n) => (⟨tag, true⟩, n + 3) := by
  rcases hflag with rfl | rfl
  · rfl
  · rfl

/-- Without a flag its tag is in capitals or quoted. -/
theorem opener?_of_not_flag (previous : Option Char) {text : Text} (hdash : text.head? ≠ some '-')
    (htilde : text.head? ≠ some '~') : opener? previous ('<' :: '<' :: text) =
      if previous.any isOperand then none
      else (tag? false text).map fun (tag, n) => (⟨tag, false⟩, n + 2) := by
  rw [opener?]
  · rintro more rfl
    exact hdash rfl
  · rintro more rfl
    exact htilde rfl

/-- Behind an operand nothing is opened. -/
theorem opener?_of_operand {previous : Option Char} (h : previous.any isOperand = true)
    (text : Text) : opener? previous ('<' :: '<' :: text) = none := by
  rw [opener?.eq_def]
  exact if_pos h

/-- The opener behind a flag. -/
theorem exists_flagged_fill {flag : Char} (hflag : flag = '-' ∨ flag = '~') (t : Template) :
    ∃ found : Option Opening,
      (∀ o ∈ found, o.IsPlain (some '<' :: some '<' :: some flag :: t)) ∧
      ∀ f : Filling, ((tag? true (fill f.word t)).map fun (tag, n) =>
        ((⟨tag, true⟩ : Heredoc), n + 3)) =
          found.map (·.opener (some '<' :: some '<' :: some flag :: t) f) := by
  obtain ⟨found, hfound, htag⟩ := exists_tag?_fill true t
  refine ⟨found.map fun x => ⟨x.1, true, x.count + 3⟩, fun o ho => ?_, fun f => ?_⟩
  · obtain ⟨x, hx, rfl⟩ := Option.map_eq_some_iff.mp ho
    obtain ⟨hat, -⟩ := hfound x hx
    intro horderly huntagged
    have htake : (some '<' :: some '<' :: some flag :: t).take (x.count + 3) =
        some '<' :: some '<' :: some flag :: t.take x.count := rfl
    rw [htake] at horderly huntagged
    have hfirst : t.head? ≠ some none := by
      intro hslot
      obtain ⟨rest, rfl⟩ := List.head?_eq_some_iff.mp hslot
      obtain ⟨more, hmore⟩ : ∃ more, (none :: rest).take x.count = none :: more := by
        obtain ⟨n, hn⟩ := Nat.exists_eq_succ_of_ne_zero (Nat.pos_iff_ne_zero.mp hat.count_pos)
        exact ⟨rest.take n, by rw [hn, List.take_succ_cons]⟩
      have hnot := huntagged [] flag more (by rw [hmore]; rfl)
      exact hflag.elim hnot.1 hnot.2
    exact hat.none_notMem_behind ['<', '<', flag] (hat.none_notMem
      (horderly.of_isInfix (List.suffix_append [some '<', some '<', some flag] _).isInfix) hfirst)
  · rw [htag f, Option.map_map, Option.map_map]
    exact Option.map_congr fun x hx => (hfound x hx).1.opener_behind ['<', '<', flag] true f

/-- The opener without a flag. -/
theorem exists_unflagged_fill (t : Template) :
    ∃ found : Option Opening, (∀ o ∈ found, o.IsPlain (some '<' :: some '<' :: t)) ∧
      ∀ f : Filling, ((tag? false (fill f.word t)).map fun (tag, n) =>
        ((⟨tag, false⟩ : Heredoc), n + 2)) =
          found.map (·.opener (some '<' :: some '<' :: t) f) := by
  obtain ⟨found, hfound, htag⟩ := exists_tag?_fill false t
  refine ⟨found.map fun x => ⟨x.1, false, x.count + 2⟩, fun o ho => ?_, fun f => ?_⟩
  · obtain ⟨x, hx, rfl⟩ := Option.map_eq_some_iff.mp ho
    obtain ⟨hat, hfirst⟩ := hfound x hx
    intro horderly _
    have htake : (some '<' :: some '<' :: t).take (x.count + 2) =
        some '<' :: some '<' :: t.take x.count := rfl
    rw [htake] at horderly
    exact hat.none_notMem_behind ['<', '<'] (hat.none_notMem
      (horderly.of_isInfix (List.suffix_append [some '<', some '<'] _).isInfix) (hfirst rfl))
  · rw [htag f, Option.map_map, Option.map_map]
    exact Option.map_congr fun x hx => (hfound x hx).1.opener_behind ['<', '<'] false f

/-- A heredoc is opened at the same items in every filling. -/
theorem exists_opener?_fill (passed t : Template) :
    ∃ found : Option Opening, (∀ o ∈ found, o.IsPlain t) ∧
      ∀ f : Filling, opener?
        ((fill f.word.reverse passed).dropWhile CharClass.isSpaceOrTab).head? (fill f.word t) =
          found.map (·.opener t f) := by
  have hspace : Ignores CharClass.isSpaceOrTab false := by decide
  have hoperand : Ignores isOperand true := by decide
  have hprevious (f : Filling) :
      ((fill f.word.reverse passed).dropWhile CharClass.isSpaceOrTab).head?.any isOperand =
        (passed.dropWhile (onItem false CharClass.isSpaceOrTab)).head?.any
          (onItem true isOperand) := by
    rw [dropWhile_fill hspace f.isSlotWord_reverse, any_head?_fill hoperand f.isSlotWord_reverse]
  by_cases hangles : ∃ rest, t = some '<' :: some '<' :: rest
  · obtain ⟨rest, rfl⟩ := hangles
    cases hblocked : (passed.dropWhile (onItem false CharClass.isSpaceOrTab)).head?.any
        (onItem true isOperand) with
    | true =>
      refine ⟨none, by simp, fun f => ?_⟩
      rw [fill_some, fill_some, opener?_of_operand ((hprevious f).trans hblocked)]
      rfl
    | false =>
      by_cases hflag : ∃ flag more, rest = some flag :: more ∧ (flag = '-' ∨ flag = '~')
      · obtain ⟨flag, more, rfl, hflag⟩ := hflag
        obtain ⟨found, hplain, hfound⟩ := exists_flagged_fill hflag more
        refine ⟨found, hplain, fun f => ?_⟩
        rw [fill_some, fill_some, fill_some, opener?_of_flag _ hflag, hprevious f, hblocked,
          if_neg (by decide), hfound f]
      · obtain ⟨found, hplain, hfound⟩ := exists_unflagged_fill rest
        have hnot {flag : Char} (hchar : flag ∉ letters) (hcase : flag = '-' ∨ flag = '~')
            (f : Filling) : (fill f.word rest).head? ≠ some flag := by
          rw [ne_eq, head?_fill_eq_some_iff hchar f.isSlotWord_word]
          intro hhead
          obtain ⟨more, rfl⟩ := List.head?_eq_some_iff.mp hhead
          exact hflag ⟨flag, more, rfl, hcase⟩
        refine ⟨found, hplain, fun f => ?_⟩
        rw [fill_some, fill_some, opener?_of_not_flag _ (hnot (by decide) (.inl rfl) f)
          (hnot (by decide) (.inr rfl) f), hprevious f, hblocked, if_neg (by decide), hfound f]
  · refine ⟨none, by simp, fun f => opener?_eq_none fun rest hrest => hangles ?_⟩
    have hchar : '<' ∉ letters := by decide
    obtain ⟨more, rfl⟩ := List.head?_eq_some_iff.mp
      ((head?_fill_eq_some_iff hchar f.isSlotWord_word t).mp (by rw [hrest]; rfl))
    rw [fill_some] at hrest
    obtain ⟨last, rfl⟩ := List.head?_eq_some_iff.mp
      ((head?_fill_eq_some_iff hchar f.isSlotWord_word more).mp (by
        rw [(List.cons.inj hrest).2]; rfl))
    exact ⟨last, rfl⟩

end Heredoc

end FactoryDowngrade
