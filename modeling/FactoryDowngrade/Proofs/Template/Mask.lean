import FactoryDowngrade.Proofs.Ruby.MaskGeometry
import FactoryDowngrade.Proofs.Template.Heredocs

/-!
# Masks of templates

A scan in code passes the word of a slot letter by letter, and one in a literal or a comment blanks
its first letter. So if the mask of a text shows the words of all slots, the scan takes the same
items when another word fills them, and the mask shows that word instead.
-/

namespace FactoryDowngrade

open Template

namespace Literal

/-- No letter closes a literal. -/
theorem closer_notMem_of_ofQuote? {c : Char} {kind : Literal} (h : ofQuote? c = some kind) :
    kind.closer ∉ letters := by
  unfold ofQuote? at h
  split at h
  · rename_i hquote
    obtain rfl := Option.some.inj h
    simp only [Bool.or_eq_true, beq_iff_eq] at hquote
    rcases hquote with rfl | rfl <;> decide
  · split at h
    · rename_i hquote
      obtain rfl := Option.some.inj h
      obtain rfl := eq_of_beq hquote
      decide
    · cases h

/-- No letter of the words closes a literal. -/
theorem closer_notMem_of_ofDelimiter? {interpolates : Bool} {c : Char} {kind : Literal}
    (h : ofDelimiter? interpolates c = some kind) : kind.closer ∉ letters := by
  unfold ofDelimiter? at h
  split at h <;> cases h <;> cases interpolates <;> decide

/-- A percent literal begins with a percent sign. -/
theorem percent?_eq_none {text : Text} (h : text.head? ≠ some '%') : percent? text = none := by
  rw [percent?.eq_def]
  split
  · exact absurd rfl h
  · rfl

/-- What opens a percent literal is the same in every filling and takes visible items only. -/
theorem exists_percent?_fill (t : Template) :
    ∃ found : Option (Literal × Nat),
      (∀ x ∈ found, x.1.closer ∉ letters ∧ ∀ f : Filling, offsetOf f.word t x.2 = x.2) ∧
      ∀ f : Filling, percent? (fill f.word t) = found := by
  have hchar : '%' ∉ letters := by decide
  by_cases hpercent : t.head? = some (some '%')
  · obtain ⟨rest, rfl⟩ := List.head?_eq_some_iff.mp hpercent
    obtain _ | ⟨_ | a, rest⟩ := rest
    · exact ⟨none, by simp, fun f => rfl⟩
    · exact ⟨none, by simp, fun f => by cases f <;> rfl⟩
    · cases hkind : kind? a with
      | none =>
        refine ⟨(ofDelimiter? true a).map (·, 2), fun x hx => ?_, fun f => ?_⟩
        · obtain ⟨kind, hkind, rfl⟩ := Option.map_eq_some_iff.mp hx
          refine ⟨closer_notMem_of_ofDelimiter? hkind, fun f => ?_⟩
          simp [offsetOf]
        · rw [fill_some, fill_some, percent?, hkind]
      | some interpolates =>
        obtain _ | ⟨_ | b, rest⟩ := rest
        · exact ⟨none, by simp, fun f => by rw [fill_some, fill_some, percent?, hkind]; rfl⟩
        · refine ⟨none, by simp, fun f => ?_⟩
          rw [fill_some, fill_some, percent?, hkind]
          cases f <;> rfl
        · refine ⟨(ofDelimiter? interpolates b).map (·, 3), fun x hx => ?_, fun f => ?_⟩
          · obtain ⟨kind, hkind, rfl⟩ := Option.map_eq_some_iff.mp hx
            refine ⟨closer_notMem_of_ofDelimiter? hkind, fun f => ?_⟩
            simp [offsetOf]
          · rw [fill_some, fill_some, percent?, hkind]
            rfl
  · refine ⟨none, by simp, fun f => percent?_eq_none ?_⟩
    rwa [ne_eq, head?_fill_eq_some_iff hchar f.isSlotWord_word]

end Literal

namespace Scan

/-! ### Scans at spots -/

/-- A scan over a filled template that has come to a spot. -/
def atSpot (s : Spot) (frames : List Frame) (heredocs : List Heredoc) (masked : Text)
    (f : Filling) : Scan :=
  ⟨(s.cursor f).before, masked, (s.cursor f).after, frames, heredocs⟩

/-- Frames of literals that no letter closes. -/
def IsTame (frames : List Frame) : Prop :=
  ∀ kind depth, .literal kind depth ∈ frames → kind.closer ∉ letters

/-- Where a step leads: the numbers of items that it keeps and then blanks, and what the scan is
inside of behind them. -/
structure Move where
  kept : Nat
  blanked : Nat
  frames : List Frame
  heredocs : List Heredoc

namespace Move

/-- The masked form of the items passed. -/
def image (m : Move) (t : Template) (f : Filling) : Text :=
  fill f.word (t.take m.kept) ++ (fill f.word ((t.drop m.kept).take m.blanked)).map blankOf

/-- The scan behind the items passed. -/
def scan (m : Move) (s : Spot) (masked : Text) (f : Filling) : Scan :=
  atSpot (s.move (m.kept + m.blanked)) m.frames m.heredocs ((m.image s.after f).reverse ++ masked) f

end Move

/-- Passing characters passes the items that they fill. -/
theorem keep_atSpot (s : Spot) (frames : List Frame) (heredocs : List Heredoc) (masked : Text)
    (f : Filling) (count : Nat) :
    (atSpot s frames heredocs masked f).keep (offsetOf f.word s.after count) =
      (Move.mk count 0 frames heredocs).scan s masked f := by
  simp only [keep, pass, atSpot, Spot.cursor, take_offsetOf, drop_offsetOf, Move.scan, Move.image,
    Spot.move, fill_append, fill_reverse, List.map_id, Nat.add_zero, List.take_zero, fill_nil,
    List.map_nil, List.append_nil]

/-- Blanking up to an item is a move over so many items. -/
theorem blank_atSpot (s : Spot) (frames : List Frame) (heredocs : List Heredoc) (masked : Text)
    (f : Filling) (count : Nat) :
    (atSpot s frames heredocs masked f).blank (offsetOf f.word s.after count) =
      (Move.mk 0 count frames heredocs).scan s masked f := by
  simp only [blank, pass, atSpot, Spot.cursor, take_offsetOf, drop_offsetOf, Move.scan, Move.image,
    Spot.move, fill_append, fill_reverse, Nat.zero_add, List.take_zero, fill_nil, List.drop_zero,
    List.nil_append]

/-- A step that leads from a spot to the same one in every filling. -/
def Leads (s : Spot) (frames : List Frame) (heredocs : List Heredoc) (m : Move) (f : Filling) :
    Prop :=
  ∀ masked, (atSpot s frames heredocs masked f).step = m.scan s masked f

variable {s : Spot} {frames outer : List Frame} {heredocs : List Heredoc} {c : Char}
  {rest : Template}

/-- A literal that no letter of the words closes may be opened. -/
theorem IsTame.cons_literal (h : IsTame outer) {kind : Literal} (hkind : kind.closer ∉ letters)
    (depth : Nat) : IsTame (.literal kind depth :: outer) := by
  intro kind' depth' hmem
  rcases List.mem_cons.mp hmem with heq | hmem
  · cases heq
    exact hkind
  · exact h kind' depth' hmem

/-- So may code. -/
theorem IsTame.cons_code (h : IsTame outer) (depth : Nat) : IsTame (.code depth :: outer) := by
  intro kind depth' hmem
  rcases List.mem_cons.mp hmem with heq | hmem
  · cases heq
  · exact h kind depth' hmem

/-- What is open further out stays tame. -/
theorem IsTame.tail {frame : Frame} (h : IsTame (frame :: outer)) : IsTame outer :=
  fun kind depth hmem => h kind depth (List.mem_cons_of_mem _ hmem)

/-- A step that keeps the characters of some items, within other frames or the same. -/
theorem leads_keep {frames' : List Frame} {f : Filling} {length count : Nat}
    (hlength : length = offsetOf f.word s.after count)
    (hstep : ∀ masked, (atSpot s frames heredocs masked f).step =
      (atSpot s frames' heredocs masked f).keep length) :
    Leads s frames heredocs ⟨count, 0, frames', heredocs⟩ f := by
  intro masked
  rw [hstep, hlength, keep_atSpot]

/-- A step that blanks up to an item leads there. -/
theorem leads_blank {frames' : List Frame} {f : Filling} {length count : Nat}
    (hlength : length = offsetOf f.word s.after count)
    (hstep : ∀ masked, (atSpot s frames heredocs masked f).step =
      (atSpot s frames' heredocs masked f).blank length) :
    Leads s frames heredocs ⟨0, count, frames', heredocs⟩ f := by
  intro masked
  rw [hstep, hlength, blank_atSpot]

/-- In a literal a step on a visible item takes the same items in every filling. -/
theorem exists_leads_of_literal {kind : Literal} {depth : Nat} (hafter : s.after = some c :: rest)
    (htame : IsTame (.literal kind depth :: outer)) (hescape : c = '\\' → rest.head? ≠ some none) :
    ∃ m : Move, IsTame m.frames ∧
      ∀ f : Filling, Leads s (.literal kind depth :: outer) heredocs m f := by
  have hcloser := htame kind depth List.mem_cons_self
  have hone (f : Filling) : 1 = offsetOf f.word s.after 1 := by simp [hafter, offsetOf]
  have hstep (f : Filling) (masked : Text) :
      (atSpot s (.literal kind depth :: outer) heredocs masked f).step =
        (atSpot s (.literal kind depth :: outer) heredocs masked f).stepLiteral kind depth outer c
          (fill f.word rest).head? := by
    rw [step, atSpot, Spot.cursor, hafter, fill_some]
  have hnext (f : Filling) : (fill f.word rest).head?.isSome = !rest.isEmpty := by
    rw [← isEmpty_fill f.isSlotWord_word]
    cases fill f.word rest <;> rfl
  have hbrace (f : Filling) : (fill f.word rest).head? = some '\x7b' ↔
      rest.head? = some (some '\x7b') :=
    head?_fill_eq_some_iff (by decide) f.isSlotWord_word rest
  -- the branches of a step in a literal, in their order
  by_cases hback : (decide (c = '\\') && !rest.isEmpty) = true
  · rw [Bool.and_eq_true, decide_eq_true_eq] at hback
    obtain ⟨d, more, rfl⟩ : ∃ d more, rest = some d :: more := by
      obtain _ | ⟨_ | d, more⟩ := rest
      · cases hback.2
      · exact absurd rfl (hescape hback.1)
      · exact ⟨d, more, rfl⟩
    have htwo (f : Filling) : 2 = offsetOf f.word s.after 2 := by simp [hafter, offsetOf]
    refine ⟨_, htame, fun f => leads_blank (htwo f) fun masked => ?_⟩
    rw [hstep, stepLiteral.eq_def, hnext f, if_pos (by simpa using hback)]
  have hnot (f : Filling) :
      ¬(decide (c = '\\') && (fill f.word rest).head?.isSome) = true := by rwa [hnext f]
  by_cases hcode : (kind.interpolates && decide (c = '#')) = true ∧
      rest.head? = some (some '\x7b')
  · obtain ⟨more, hrest⟩ := List.head?_eq_some_iff.mp hcode.2
    have htwo (f : Filling) : 2 = offsetOf f.word s.after 2 := by simp [hafter, hrest, offsetOf]
    refine ⟨_, htame.cons_code 0, fun f => leads_keep (htwo f) fun masked => ?_⟩
    rw [hstep, stepLiteral.eq_def, if_neg (hnot f), if_pos (by simpa [hbrace f] using hcode)]
    rfl
  have hnotCode (f : Filling) : ¬(kind.interpolates && decide (c = '#') &&
      decide ((fill f.word rest).head? = some '\x7b')) = true := by
    rw [Bool.and_eq_true, decide_eq_true_eq, hbrace f]
    exact hcode
  by_cases hopener : kind.opener = some c
  · refine ⟨_, htame.tail.cons_literal hcloser (depth + 1),
      fun f => leads_blank (hone f) fun masked => ?_⟩
    rw [hstep, stepLiteral.eq_def, if_neg (hnot f), if_neg (hnotCode f), if_pos hopener]
    rfl
  by_cases hclose : c = kind.closer
  · cases depth with
    | zero =>
      refine ⟨_, htame.tail, fun f => leads_keep (hone f) fun masked => ?_⟩
      rw [hstep, stepLiteral.eq_def, if_neg (hnot f), if_neg (hnotCode f), if_neg hopener,
        if_pos hclose]
      rfl
    | succ depth =>
      refine ⟨_, htame.tail.cons_literal hcloser depth,
        fun f => leads_blank (hone f) fun masked => ?_⟩
      rw [hstep, stepLiteral.eq_def, if_neg (hnot f), if_neg (hnotCode f), if_neg hopener,
        if_pos hclose]
      rfl
  refine ⟨_, htame, fun f => leads_blank (hone f) fun masked => ?_⟩
  rw [hstep, stepLiteral.eq_def, if_neg (hnot f), if_neg (hnotCode f), if_neg hopener,
    if_neg hclose]

/-- Frames on top of which code is read. -/
def IsCode (frames : List Frame) : Prop :=
  ∀ kind depth outer, frames ≠ .literal kind depth :: outer

/-- In code a step is one of code. -/
theorem step_of_isCode {t : Scan} {more : Text} (hafter : t.after = c :: more)
    (hcode : IsCode t.frames) : t.step = t.stepCode c := by
  rw [step, hafter]
  dsimp only
  split
  · rename_i heq
    exact absurd heq (hcode _ _ _)
  · rfl

/-- A brace changes the innermost frame at most, and only if it is one of code. -/
theorem countBrace_induction {P : List Frame → Prop}
    (htail : ∀ {frame outer}, P (frame :: outer) → P outer)
    (hcode : ∀ {outer}, P outer → ∀ depth, P (.code depth :: outer)) (h : P frames) (c : Char) :
    P (countBrace c frames) := by
  unfold Scan.countBrace
  split
  · split
    · exact hcode (htail h) _
    · split
      · split
        · exact htail h
        · exact hcode (htail h) _
      · exact h
  · exact h

/-- Counting a brace keeps frames tame. -/
theorem IsTame.countBrace (h : IsTame frames) (c : Char) : IsTame (countBrace c frames) :=
  countBrace_induction IsTame.tail IsTame.cons_code h c

/-- A literal is opened at the same items in every filling, and takes visible items only. -/
theorem exists_literalAhead?_atSpot (hafter : s.after = some c :: rest) (frames : List Frame)
    (heredocs : List Heredoc) : ∃ found : Option (Literal × Nat),
      (∀ x ∈ found, x.1.closer ∉ letters ∧ ∀ f : Filling, offsetOf f.word s.after x.2 = x.2) ∧
      ∀ f masked, (atSpot s frames heredocs masked f).literalAhead? c = found := by
  cases hquote : Literal.ofQuote? c with
  | some kind =>
    refine ⟨some (kind, 1), fun x hx => ?_, fun f masked => by rw [literalAhead?, hquote]⟩
    obtain rfl := Option.mem_some_iff.mp hx
    exact ⟨Literal.closer_notMem_of_ofQuote? hquote, fun f => by simp [hafter, offsetOf]⟩
  | none =>
    have hspace : Ignores CharClass.isSpaceOrTab false := by decide
    have hfollow : Ignores Literal.mayFollow false := by decide
    obtain ⟨found, hvisible, hfound⟩ := Literal.exists_percent?_fill s.after
    refine ⟨if (s.before.dropWhile (onItem false CharClass.isSpaceOrTab)).head?.all
      (onItem false Literal.mayFollow) then found else none, fun x hx => ?_, fun f masked => ?_⟩
    · split at hx
      · exact hvisible x hx
      · cases hx
    · have hprevious : (atSpot s frames heredocs masked f).previous.all Literal.mayFollow =
          (s.before.dropWhile (onItem false CharClass.isSpaceOrTab)).head?.all
            (onItem false Literal.mayFollow) := by
        rw [previous, atSpot, Spot.cursor]
        dsimp only
        rw [dropWhile_fill hspace f.isSlotWord_reverse, all_head?_fill hfollow f.isSlotWord_reverse]
      rw [literalAhead?, hquote]
      dsimp only
      rw [hprevious, ← hfound f]
      rfl

/-- Behind a line break the bodies of the heredocs are passed. -/
theorem passLineBreak_atSpot (hafter : s.after = some c :: rest) (masked : Text) (f : Filling)
    {count : Nat} (hcount : Heredoc.bodiesLength heredocs (fill f.word rest) =
      offsetOf f.word rest count) :
    (atSpot s frames heredocs masked f).passLineBreak =
      (Move.mk 1 count frames []).scan s masked f := by
  have hone : offsetOf f.word s.after 1 = 1 := by simp [hafter, offsetOf]
  have hkeep := keep_atSpot s frames heredocs masked f 1
  rw [hone] at hkeep
  have hrest : (s.move 1).after = rest := by simp [Spot.move, hafter]
  have hmoved : (Move.mk 1 0 frames heredocs).scan s masked f = atSpot (s.move 1) frames heredocs
      (((Move.mk 1 0 frames heredocs).image s.after f).reverse ++ masked) f := rfl
  have hahead : (atSpot (s.move 1) frames heredocs
      (((Move.mk 1 0 frames heredocs).image s.after f).reverse ++ masked) f).after =
        fill f.word rest := congrArg (fill f.word) hrest
  have hblank := blank_atSpot (s.move 1) frames heredocs
    (((Move.mk 1 0 frames heredocs).image s.after f).reverse ++ masked) f count
  rw [hrest] at hblank
  have hsplit : s.move (1 + count) = (s.move 1).move count := (s.move_move 1 count).symm
  rw [passLineBreak, hkeep, hmoved, hahead]
  change { (atSpot (s.move 1) frames heredocs
    (((Move.mk 1 0 frames heredocs).image s.after f).reverse ++ masked) f).blank
      (Heredoc.bodiesLength heredocs (fill f.word rest)) with heredocs := [] } = _
  rw [hcount, hblank]
  simp only [Move.scan, hsplit, Nat.zero_add]
  simp [Move.image, atSpot, hafter, hrest]

/-- A step that leads from a spot to the same one in two fillings, if in the first it blanks no slot
and takes none into the tag of a heredoc. -/
def LeadsAlike (s : Spot) (frames : List Frame) (heredocs : List Heredoc) (f g : Filling) : Prop :=
  ∃ m : Move, IsTame m.frames ∧ Leads s frames heredocs m f ∧
    (IsOrderly (s.after.take m.kept) → Heredoc.IsUntagged (s.after.take m.kept) →
      none ∉ (s.after.drop m.kept).take m.blanked → Leads s frames heredocs m g)

/-- A move that all fillings make leads alike. -/
theorem Leads.alike {m : Move} (htame : IsTame m.frames)
    (h : ∀ f : Filling, Leads s frames heredocs m f) (f g : Filling) :
    LeadsAlike s frames heredocs f g :=
  ⟨m, htame, h f, fun _ _ _ => h g⟩

/-- The bodies of the heredocs behind a line break are blanked alike. -/
theorem leadsAlike_passLineBreak (hafter : s.after = some c :: rest) (htame : IsTame frames)
    (hstep : ∀ f masked, (atSpot s frames heredocs masked f).step =
      (atSpot s frames heredocs masked f).passLineBreak) (f g : Filling) :
    LeadsAlike s frames heredocs f g := by
  obtain ⟨count, hcount, hother⟩ := exists_bodiesLength_fill heredocs f g rest
  have hleads (f : Filling) (hcount : Heredoc.bodiesLength heredocs (fill f.word rest) =
      offsetOf f.word rest count) : Leads s frames heredocs ⟨1, count, frames, []⟩ f := by
    intro masked
    rw [hstep, passLineBreak_atSpot hafter masked f hcount]
  refine ⟨⟨1, count, frames, []⟩, htame, hleads f hcount, fun _ _ hnone => hleads g (hother ?_)⟩
  simpa [hafter] using hnone

/-- The rest of a line is blanked alike. -/
theorem leadsAlike_blank_firstLine (htame : IsTame frames)
    (hstep : ∀ f masked, (atSpot s frames heredocs masked f).step =
      (atSpot s frames heredocs masked f).blank (fill f.word s.after).firstLine.length)
    (f g : Filling) : LeadsAlike s frames heredocs f g := by
  have hline : Ignores (fun c => decide (c ≠ '\n')) true := by decide
  have hlength (f : Filling) : (fill f.word s.after).firstLine.length = offsetOf f.word s.after
      (s.after.takeWhile (onItem true fun c => decide (c ≠ '\n'))).length :=
    length_takeWhile_fill hline f.isSlotWord_word s.after
  exact Leads.alike htame (fun f => leads_blank (hlength f) (hstep f)) f g

/-- A block comment is blanked alike. -/
theorem leadsAlike_blank_blockComment (htame : IsTame frames)
    (hstep : ∀ f masked, (atSpot s frames heredocs masked f).step =
      (atSpot s frames heredocs masked f).blank (blockCommentLength (fill f.word s.after)))
    (f g : Filling) : LeadsAlike s frames heredocs f g := by
  obtain ⟨count, hcount, hother⟩ := exists_blockCommentLength_fill f g s.after
  exact ⟨⟨0, count, frames, heredocs⟩, htame, leads_blank hcount (hstep f),
    fun _ _ hnone => leads_blank (hother hnone) (hstep g)⟩

/-- Visible items are kept alike. -/
theorem leadsAlike_keep {frames' : List Frame} (htame : IsTame frames') {count : Nat}
    (hcount : ∀ f : Filling, offsetOf f.word s.after count = count)
    (hstep : ∀ f masked, (atSpot s frames heredocs masked f).step =
      (atSpot s frames' heredocs masked f).keep count)
    (f g : Filling) : LeadsAlike s frames heredocs f g :=
  Leads.alike htame (fun f => leads_keep (hcount f).symm (hstep f)) f g

/-- The opening of a heredoc is kept alike, if it takes no slot into its tag. -/
theorem leadsAlike_opener (htame : IsTame frames) {o : Heredoc.Opening}
    (hplain : IsOrderly (s.after.take o.count) → Heredoc.IsUntagged (s.after.take o.count) →
      none ∉ o.tag)
    (hstep : ∀ f masked, (atSpot s frames heredocs masked f).step =
      (atSpot s frames (heredocs ++ [⟨fill f.word o.tag, o.indented⟩]) masked f).keep
        (offsetOf f.word s.after o.count))
    (f g : Filling) : LeadsAlike s frames heredocs f g := by
  have hleads (f' : Filling) (htag : fill f'.word o.tag = fill f.word o.tag) :
      Leads s frames heredocs
        ⟨o.count, 0, frames, heredocs ++ [⟨fill f.word o.tag, o.indented⟩]⟩ f' := by
    intro masked
    rw [hstep, htag, keep_atSpot]
  refine ⟨⟨o.count, 0, frames, heredocs ++ [⟨fill f.word o.tag, o.indented⟩]⟩, htame,
    hleads f rfl, fun horderly huntagged _ => hleads g ?_⟩
  obtain ⟨tag, htag⟩ := exists_map_some_of_none_notMem (hplain horderly huntagged)
  rw [htag, fill_map_some, fill_map_some]

/-- Whether a block comment begins at a spot is the same in every filling. -/
theorem exists_beginsComment_atSpot (s : Spot) (frames : List Frame) (heredocs : List Heredoc)
    (c : Char) : ∃ begins : Bool, ∀ f masked,
      (decide (c = '=') && (atSpot s frames heredocs masked f).atLineStart &&
        (atSpot s frames heredocs masked f).after.startsWith "=begin".toList) = begins := by
  obtain ⟨begins, hbegins⟩ := @exists_startsWith_fill "=begin".toList (by decide) s.after
  have hstart : Ignores (fun c => c == '\n') false := by decide
  refine ⟨decide (c = '=') && s.before.head?.all (onItem false (· == '\n')) && begins,
    fun f masked => ?_⟩
  have hahead : (atSpot s frames heredocs masked f).after = fill f.word s.after := rfl
  rw [hahead, hbegins f, atLineStart, atSpot, Spot.cursor]
  dsimp only
  rw [all_head?_fill hstart f.isSlotWord_reverse]

/-- In code a step on a visible item takes the same items in every filling, unless it blanks a slot
or takes one into the tag of a heredoc. -/
theorem leadsAlike_of_code (hafter : s.after = some c :: rest) (hcode : IsCode frames)
    (htame : IsTame frames) (f g : Filling) : LeadsAlike s frames heredocs f g := by
  have hstep (f : Filling) (masked : Text) :
      (atSpot s frames heredocs masked f).step = (atSpot s frames heredocs masked f).stepCode c :=
    step_of_isCode (by rw [atSpot, Spot.cursor, hafter, fill_some]) hcode
  obtain ⟨begins, hbegins⟩ := exists_beginsComment_atSpot s frames heredocs c
  obtain ⟨literal, hvisible, hliteral⟩ := exists_literalAhead?_atSpot hafter frames heredocs
  obtain ⟨opening, hplain, hopening⟩ := Heredoc.exists_opener?_fill s.before s.after
  have hopener (f : Filling) (masked : Text) :
      Heredoc.opener? (atSpot s frames heredocs masked f).previous
        (atSpot s frames heredocs masked f).after = opening.map (·.opener s.after f) :=
    hopening f
  -- the branches of a step in code, in their order
  by_cases hbreak : c = '\n'
  · refine leadsAlike_passLineBreak hafter htame (fun f masked => ?_) f g
    rw [hstep, stepCode.eq_def, if_pos hbreak]
  by_cases hhash : c = '#'
  · refine leadsAlike_blank_firstLine htame (fun f masked => ?_) f g
    rw [hstep, stepCode.eq_def, if_neg hbreak, if_pos hhash]
    rfl
  by_cases hcomment : begins = true
  · refine leadsAlike_blank_blockComment htame (fun f masked => ?_) f g
    rw [hstep, stepCode.eq_def, if_neg hbreak, if_neg hhash,
      if_pos ((hbegins f masked).trans hcomment)]
    rfl
  have hplainStep (f : Filling) (masked : Text) : ¬(decide (c = '=') &&
      (atSpot s frames heredocs masked f).atLineStart &&
        (atSpot s frames heredocs masked f).after.startsWith "=begin".toList) = true := by
    rwa [hbegins f masked]
  cases literal with
  | some found =>
    obtain ⟨hcloser, hcount⟩ := hvisible _ rfl
    refine leadsAlike_keep (htame.cons_literal hcloser 0) hcount (fun f masked => ?_) f g
    rw [hstep, stepCode.eq_def, if_neg hbreak, if_neg hhash, if_neg (hplainStep f masked),
      hliteral f masked]
    rfl
  | none =>
    cases opening with
    | some o =>
      refine leadsAlike_opener htame (hplain o rfl · · |>.1) (fun f masked => ?_) f g
      rw [hstep, stepCode.eq_def, if_neg hbreak, if_neg hhash, if_neg (hplainStep f masked),
        hliteral f masked]
      dsimp only
      rw [hopener f masked]
      rfl
    | none =>
      have hone (f : Filling) : offsetOf f.word s.after 1 = 1 := by simp [hafter, offsetOf]
      refine leadsAlike_keep (htame.countBrace c) hone (fun f masked => ?_) f g
      rw [hstep, stepCode.eq_def, if_neg hbreak, if_neg hhash, if_neg (hplainStep f masked),
        hliteral f masked]
      dsimp only
      rw [hopener f masked]
      rfl

/-! ### Characters that are shown -/

/-- Characters that open neither a literal nor a heredoc nor a comment and break no line. -/
structure IsShown (c : Char) : Prop where
  notBreak : c ≠ '\n'
  notHash : c ≠ '#'
  notQuote : Literal.ofQuote? c = none
  notPercent : c ≠ '%'
  notAngle : c ≠ '<'

/-- Such a character is passed and shown in code, where it does not begin a block comment. -/
theorem step_of_isShown {before masked after : Text} (hcode : IsCode frames) (hc : IsShown c)
    (hcomment : before.head?.all (· == '\n') = true → ¬"=begin".toList <+: c :: after) :
    (Scan.mk before masked (c :: after) frames heredocs).step =
      ⟨c :: before, c :: masked, after, countBrace c frames, heredocs⟩ := by
  have hplain : ¬(decide (c = '=') &&
      (Scan.mk before masked (c :: after) frames heredocs).atLineStart &&
      Text.startsWith (c :: after) "=begin".toList) = true := by
    rw [Bool.and_eq_true, Bool.and_eq_true]
    exact fun ⟨⟨_, hstart⟩, hbegin⟩ => hcomment hstart (List.isPrefixOf_iff_prefix.mp hbegin)
  have hliteral : (Scan.mk before masked (c :: after) frames heredocs).literalAhead? c = none := by
    rw [literalAhead?, hc.notQuote]
    dsimp only
    rw [Literal.percent?_eq_none (by simpa using hc.notPercent), ite_self]
  have hopener (previous : Option Char) : Heredoc.opener? previous (c :: after) = none :=
    Heredoc.opener?_eq_none fun rest hrest => hc.notAngle (List.cons.inj hrest).1
  rw [step_of_isCode rfl hcode, stepCode.eq_def, if_neg hc.notBreak, if_neg hc.notHash,
    if_neg hplain, hliteral]
  dsimp only
  rw [hopener]
  rfl

/-- Braces alone are counted. -/
theorem countBrace_eq (hopen : c ≠ '\x7b') (hclose : c ≠ '\x7d') (frames : List Frame) :
    countBrace c frames = frames := by
  unfold countBrace
  split
  · rw [if_neg hopen, if_neg hclose]
  · rfl

/-! ### Scans at slots -/

/-- In code a letter is passed and shown. -/
theorem step_of_letter {before masked after : Text} (hcode : IsCode frames) (hc : c ∈ letters) :
    (Scan.mk before masked (c :: after) frames heredocs).step =
      ⟨c :: before, c :: masked, after, frames, heredocs⟩ := by
  have hletter : ∀ c ∈ letters, c ≠ '\n' ∧ c ≠ '#' ∧ c ≠ '=' ∧ Literal.ofQuote? c = none ∧
      c ≠ '%' ∧ c ≠ '<' ∧ c ≠ '\x7b' ∧ c ≠ '\x7d' := by decide
  obtain ⟨hbreak, hhash, hequals, hquote, hpercent, hangle, hopen, hclose⟩ := hletter c hc
  have hcomment : ¬"=begin".toList <+: c :: after := by
    rintro ⟨more, hmore⟩
    exact hequals (List.cons.inj hmore).1.symm
  rw [step_of_isShown hcode ⟨hbreak, hhash, hquote, hpercent, hangle⟩ fun _ => hcomment,
    countBrace_eq hopen hclose]

/-- In code letters are passed and shown one after the other. -/
theorem finishes_letters_iff (hcode : IsCode frames) {u : Text} (hu : ∀ x ∈ u, x ∈ letters)
    {before masked after image : Text} :
    (Scan.mk before masked (u ++ after) frames heredocs).Finishes image ↔
      ∃ more, image = u ++ more ∧
        (Scan.mk (u.reverse ++ before) (u.reverse ++ masked) after frames heredocs).Finishes
          more := by
  induction u generalizing before masked image with
  | nil => simp
  | cons x u ih =>
    have hx := hu x List.mem_cons_self
    have hrest := fun y hy => hu y (List.mem_cons_of_mem _ hy)
    have hstep : (Scan.mk before masked (x :: (u ++ after)) frames heredocs).step =
        ⟨x :: before, x :: masked, u ++ after, frames, heredocs⟩ := step_of_letter hcode hx
    constructor
    · intro h
      obtain ⟨chunk, more, rfl, hchunk, hmore⟩ := h.exists_step (by simp)
      rw [List.cons_append, hstep] at hchunk hmore
      obtain ⟨last, rfl, hlast⟩ := (ih hrest).mp hmore
      have hshown : [x] = chunk.reverse := List.append_cancel_right hchunk
      refine ⟨last, ?_, by simpa using hlast⟩
      rw [← List.reverse_reverse chunk, ← hshown]
      simp
    · rintro ⟨more, rfl, hmore⟩
      have hlast : (Scan.mk (x :: before) (x :: masked) (u ++ after) frames heredocs).Finishes
          (u ++ more) := (ih hrest).mpr ⟨more, rfl, by simpa using hmore⟩
      change Finishes _ ([x] ++ (u ++ more))
      exact .step (by simp) (by rw [List.cons_append, hstep]; rfl)
        (by rwa [List.cons_append, hstep])

/-- In a literal a letter is blanked. -/
theorem masked_step_of_literal {t : Scan} {kind : Literal} {depth : Nat} {more : Text}
    (hafter : t.after = c :: more) (hframes : t.frames = .literal kind depth :: outer)
    (hcloser : kind.closer ∉ letters) (hc : c ∈ letters) : t.step.masked = ' ' :: t.masked := by
  have hletter : ∀ c ∈ letters, c ≠ '\\' ∧ c ≠ '#' ∧ blankOf c = ' ' := by decide
  obtain ⟨hescape, hhash, hblank⟩ := hletter c hc
  have hclose : c ≠ kind.closer := fun heq => hcloser (heq ▸ hc)
  have hone (frames : List Frame) : ((t.within frames).blank 1).masked = ' ' :: t.masked := by
    simp [blank, pass, within, hafter, hblank]
  rw [step, hafter]
  dsimp only
  rw [hframes]
  dsimp only
  rw [stepLiteral.eq_def, if_neg (by simp [hescape]), if_neg (by simp [hhash]), if_neg hclose]
  by_cases hopener : kind.opener = some c
  · rw [if_pos hopener]
    exact hone _
  · rw [if_neg hopener]
    exact hone t.frames

/-- In a literal the character behind a backslash is blanked. -/
theorem masked_step_of_escape {t : Scan} {kind : Literal} {depth : Nat} {more : Text}
    (hafter : t.after = '\\' :: c :: more) (hframes : t.frames = .literal kind depth :: outer) :
    t.step.masked = blankOf c :: ' ' :: t.masked := by
  rw [step, hafter]
  dsimp only
  rw [hframes]
  dsimp only
  rw [stepLiteral.eq_def, if_pos (by simp)]
  simp [blank, pass, hafter, show blankOf '\\' = ' ' by decide]

/-- No letter is the masked form of a blanked character. -/
theorem blankOf_notMem_letters (c : Char) : blankOf c ∉ letters := by
  unfold blankOf
  split <;> decide

/-- No slot is shown in a literal. -/
theorem not_finishes_of_literal {f : Filling} {kind : Literal} {depth : Nat}
    (hafter : s.after = none :: rest) (hcloser : kind.closer ∉ letters) {i : Template}
    (hslots : SameSlots s.after i) (masked : Text) :
    ¬(atSpot s (.literal kind depth :: outer) heredocs masked f).Finishes (fill f.word i) := by
  intro h
  rw [hafter] at hslots
  obtain ⟨i', rfl, -⟩ := hslots.exists_cons_none
  obtain ⟨c, hc, more, -, hfill⟩ := exists_fill_none_eq f.isSlotWord_word rest
  obtain ⟨d, hd, shown, -, hshown⟩ := exists_fill_none_eq f.isSlotWord_word i'
  have hahead : (atSpot s (.literal kind depth :: outer) heredocs masked f).after =
      c :: (more ++ fill f.word rest) := by
    rw [atSpot, Spot.cursor, hafter, hfill]
  obtain ⟨chunk, last, himage, hchunk, -⟩ := h.exists_step (by simp [hahead])
  rw [masked_step_of_literal hahead rfl hcloser hc] at hchunk
  have hblank : [' '] = chunk.reverse := List.append_cancel_right hchunk
  rw [hshown, ← List.reverse_reverse chunk, ← hblank] at himage
  obtain ⟨rfl, -⟩ := List.cons.inj himage
  exact absurd hd (by decide)

/-- No slot is shown behind a backslash in a literal. -/
theorem not_finishes_of_escape {f : Filling} {kind : Literal} {depth : Nat}
    (hafter : s.after = some '\\' :: none :: rest) {i : Template}
    (hslots : SameSlots s.after i) (masked : Text) :
    ¬(atSpot s (.literal kind depth :: outer) heredocs masked f).Finishes (fill f.word i) := by
  intro h
  have hbehind := hslots.drop 1
  rw [hafter] at hbehind
  obtain ⟨i', hi', -⟩ := hbehind.exists_cons_none
  obtain ⟨x, rfl⟩ : ∃ x, i = some x :: none :: i' := by
    rw [hafter] at hslots
    cases i with
    | nil => cases hslots
    | cons item i =>
      cases item with
      | none => cases hslots
      | some x => exact ⟨x, by rw [← hi']; rfl⟩
  obtain ⟨c, hc, more, -, hfill⟩ := exists_fill_none_eq f.isSlotWord_word rest
  obtain ⟨d, hd, shown, -, hshown⟩ := exists_fill_none_eq f.isSlotWord_word i'
  have hahead : (atSpot s (.literal kind depth :: outer) heredocs masked f).after =
      '\\' :: c :: (more ++ fill f.word rest) := by
    rw [atSpot, Spot.cursor, hafter, fill_some, hfill]
  obtain ⟨chunk, last, himage, hchunk, -⟩ := h.exists_step (by simp [hahead])
  rw [masked_step_of_escape hahead rfl] at hchunk
  have hblank : [blankOf c, ' '] = chunk.reverse := List.append_cancel_right hchunk
  rw [fill_some, hshown, ← List.reverse_reverse chunk, ← hblank] at himage
  obtain ⟨rfl, -⟩ := List.cons.inj (List.cons.inj himage).2
  exact blankOf_notMem_letters c hd

/-! ### Masks -/

/-- What a step shows of a template: the items that it keeps, and no slot among those it blanks. -/
theorem Move.shown (m : Move) {t i : Template} (hslots : SameSlots t i) {f : Filling} {more : Text}
    (h : fill f.word i = m.image t f ++ more) :
    t.take m.kept = i.take m.kept ∧ none ∉ (t.drop m.kept).take m.blanked ∧
      more = fill f.word (i.drop (m.kept + m.blanked)) ∧
      ∀ g : Filling, m.image t g = fill g.word (i.take (m.kept + m.blanked)) := by
  have hblankSlots := (hslots.drop m.kept).take m.blanked
  have hlength {t i : Template} (hslots : SameSlots t i) (count : Nat) :
      (fill f.word (t.take count)).length = (fill f.word (i.take count)).length :=
    hslots.offsetOf_eq f.word count
  have hsplit : fill f.word (i.take m.kept) ++ (fill f.word ((i.drop m.kept).take m.blanked) ++
      fill f.word (i.drop (m.kept + m.blanked))) = m.image t f ++ more := by
    rw [← h, ← fill_append, ← fill_append, ← List.drop_drop, List.take_append_drop,
      List.take_append_drop]
  rw [Move.image, List.append_assoc] at hsplit
  obtain ⟨hkept, hrest⟩ := List.append_inj hsplit (hlength hslots m.kept).symm
  obtain ⟨hblanked, hmore⟩ := List.append_inj hrest (by
    rw [List.length_map]
    exact (hlength (hslots.drop m.kept) m.blanked).symm)
  have hplain : none ∉ (i.drop m.kept).take m.blanked := by
    intro hmem
    obtain ⟨c, hc⟩ := List.exists_mem_of_ne_nil _ f.isSlotWord_word.nonempty
    have hshown : c ∈ fill f.word ((i.drop m.kept).take m.blanked) :=
      (infix_fill_of_none_mem f.word hmem).subset hc
    rw [hblanked] at hshown
    obtain ⟨d, -, rfl⟩ := List.mem_map.mp hshown
    exact blankOf_notMem_letters d (f.isSlotWord_word.letters _ hc)
  have hplainText := hplain
  rw [← hblankSlots.none_mem_iff] at hplainText
  have hsame : t.take m.kept = i.take m.kept := (hslots.take m.kept).eq_of_fill_eq hkept.symm
  refine ⟨hsame, hplainText, hmore.symm, fun g => ?_⟩
  obtain ⟨text, htext⟩ := exists_map_some_of_none_notMem hplainText
  obtain ⟨shown, hshown⟩ := exists_map_some_of_none_notMem hplain
  rw [hshown, htext, fill_map_some, fill_map_some] at hblanked
  rw [Move.image, hsame, htext, fill_map_some, ← hblanked, List.take_add, fill_append, hshown,
    fill_map_some]

/-- In code the word of a slot is passed and shown. -/
theorem finishes_slot_iff (hcode : IsCode frames) (hafter : s.after = none :: rest) {i : Template}
    {masked : Text} {f : Filling} :
    (atSpot s frames heredocs masked f).Finishes (fill f.word (none :: i)) ↔
      (atSpot (s.move 1) frames heredocs (f.word.reverse ++ masked) f).Finishes
        (fill f.word i) := by
  have hword : atSpot s frames heredocs masked f =
      ⟨(s.cursor f).before, masked, f.word ++ fill f.word rest, frames, heredocs⟩ := by
    rw [atSpot, Spot.cursor, hafter, fill_none]
  have hbehind : atSpot (s.move 1) frames heredocs (f.word.reverse ++ masked) f =
      ⟨f.word.reverse ++ (s.cursor f).before, f.word.reverse ++ masked, fill f.word rest, frames,
        heredocs⟩ := by
    simp [atSpot, Spot.cursor, Spot.move, hafter]
  rw [hword, hbehind, finishes_letters_iff hcode f.isSlotWord_word.letters, fill_none]
  constructor
  · rintro ⟨more, himage, hfinish⟩
    obtain rfl : fill f.word i = more := List.append_cancel_left himage
    exact hfinish
  · exact fun hfinish => ⟨fill f.word i, rfl, hfinish⟩

/-- Outside of code a literal is open. -/
theorem exists_literal_of_not_isCode (h : ¬IsCode frames) :
    ∃ kind depth outer, frames = .literal kind depth :: outer := by
  simpa [IsCode] using h

/-- Where the image of a scan shows all slots, a step on a visible item takes the same items in the
other filling. -/
theorem leadsAlike_of_finishes (hafter : s.after = some c :: rest) (htame : IsTame frames)
    {i : Template} (hslots : SameSlots s.after i) {masked : Text} {f : Filling}
    (h : (atSpot s frames heredocs masked f).Finishes (fill f.word i)) (g : Filling) :
    LeadsAlike s frames heredocs f g := by
  by_cases hcode : IsCode frames
  · exact leadsAlike_of_code hafter hcode htame f g
  · obtain ⟨kind, depth, outer, rfl⟩ := exists_literal_of_not_isCode hcode
    obtain ⟨m, hmTame, hleads⟩ : ∃ m : Move, IsTame m.frames ∧
        ∀ f : Filling, Leads s (.literal kind depth :: outer) heredocs m f := by
      refine exists_leads_of_literal hafter htame ?_
      rintro rfl hslot
      obtain ⟨more, rfl⟩ := List.head?_eq_some_iff.mp hslot
      exact not_finishes_of_escape hafter hslots masked h
    exact Leads.alike hmTame hleads f g

/-- Every step passes items. -/
theorem Leads.length_after_lt {m : Move} {f : Filling} (h : Leads s frames heredocs m f)
    (hafter : s.after = some c :: rest) :
    (s.move (m.kept + m.blanked)).after.length < s.after.length := by
  have hmore : (atSpot s frames heredocs [] f).after ≠ [] := by
    rw [atSpot, Spot.cursor, hafter]
    simp
  obtain ⟨stretch, _, hstretch, hadvance⟩ := progresses_step hmore
  have hahead := hadvance.length_after
  rw [h []] at hahead
  have hpassed := List.length_pos_iff.mpr hstretch
  have hchars : (s.cursor f).after.length =
      stretch.length + ((s.move (m.kept + m.blanked)).cursor f).after.length := hahead
  exact Spot.length_after_move_lt (f := f) (by omega)

/-- Where the image of a scan is a filling of an orderly template, the step on a visible item leads
on in both fillings, and what it shows in the other is the other filling of the same items. -/
theorem Finishes.exists_leads (hafter : s.after = some c :: rest) (htame : IsTame frames)
    {i : Template} (hslots : SameSlots s.after i) (horderly : IsOrderly i)
    (huntagged : Heredoc.IsUntagged i) {masked : Text} {f : Filling}
    (h : (atSpot s frames heredocs masked f).Finishes (fill f.word i)) (g : Filling) :
    ∃ m : Move, IsTame m.frames ∧ Leads s frames heredocs m f ∧ Leads s frames heredocs m g ∧
      (m.scan s masked f).Finishes (fill f.word (i.drop (m.kept + m.blanked))) ∧
      m.image s.after g = fill g.word (i.take (m.kept + m.blanked)) := by
  have hmore : (atSpot s frames heredocs masked f).after ≠ [] := by
    rw [atSpot, Spot.cursor, hafter]
    simp
  obtain ⟨m, hmTame, hleads, hother⟩ := leadsAlike_of_finishes hafter htame hslots h g
  obtain ⟨chunk, more, himage, hchunk, hfinish⟩ := h.exists_step hmore
  rw [hleads masked] at hchunk hfinish
  have hshownChunk : m.image s.after f = chunk := by
    have := List.append_cancel_right (show _ ++ masked = _ ++ masked from hchunk)
    exact List.reverse_inj.mp this
  rw [← hshownChunk] at himage
  obtain ⟨hkept, hplain, rfl, himages⟩ := m.shown hslots himage
  -- what the step keeps is part of the template, and so it leads on in the other filling
  rw [hkept] at hother
  exact ⟨m, hmTame, hleads, hother (horderly.of_isInfix (List.take_prefix _ _).isInfix)
    (huntagged.of_isInfix (List.take_prefix _ _).isInfix) hplain, hfinish, himages g⟩

/-- Where the image of a scan is a filling of an orderly template, its image in the other filling
is the other filling of that template. -/
theorem finishes_fill (f g : Filling) (htame : IsTame frames) {i : Template}
    (hslots : SameSlots s.after i) (horderly : IsOrderly i) (huntagged : Heredoc.IsUntagged i)
    {masked masked' : Text} (h : (atSpot s frames heredocs masked f).Finishes (fill f.word i)) :
    (atSpot s frames heredocs masked' g).Finishes (fill g.word i) := by
  induction hlength : s.after.length using Nat.strongRecOn
    generalizing s frames heredocs i masked masked' with
  | ind n ih =>
    cases hafter : s.after with
    | nil =>
      rw [hafter] at hslots
      obtain rfl : i = [] := by simpa [SameSlots] using hslots.symm
      exact .done (by rw [atSpot, Spot.cursor, hafter]; rfl)
    | cons item rest =>
      cases item with
      | none =>
        by_cases hcode : IsCode frames
        · rw [hafter] at hslots
          obtain ⟨rest', rfl, hrest⟩ := hslots.exists_cons_none
          rw [finishes_slot_iff hcode hafter] at h ⊢
          exact ih rest.length (by simp [← hlength, hafter]) htame
            (by simpa [Spot.move, hafter] using hrest)
            (horderly.of_isInfix (List.suffix_cons none rest').isInfix)
            (huntagged.of_isInfix (List.suffix_cons none rest').isInfix) h
            (by simp [Spot.move, hafter])
        · obtain ⟨kind, depth, outer, rfl⟩ := exists_literal_of_not_isCode hcode
          exact absurd h (not_finishes_of_literal hafter (htame kind depth List.mem_cons_self)
            hslots masked)
      | some c =>
        have hmore : (atSpot s frames heredocs masked' g).after ≠ [] := by
          rw [atSpot, Spot.cursor, hafter]
          simp
        obtain ⟨m, hmTame, hleads, hleadsOther, hfinish, himage⟩ :=
          h.exists_leads hafter htame hslots horderly huntagged g
        have hrest : (m.scan s masked' g).Finishes (fill g.word (i.drop (m.kept + m.blanked))) :=
          ih _ (hlength ▸ hleads.length_after_lt hafter) hmTame (hslots.drop _)
            (horderly.of_isInfix (List.drop_suffix _ _).isInfix)
            (huntagged.of_isInfix (List.drop_suffix _ _).isInfix) hfinish rfl
        have hfill : fill g.word i =
            m.image s.after g ++ fill g.word (i.drop (m.kept + m.blanked)) := by
          rw [himage, ← fill_append, List.take_append_drop]
        rw [hfill]
        exact .step hmore (by rw [hleadsOther masked']; rfl)
          (by rw [hleadsOther masked']; exact hrest)

end Scan

/-- The mask of the other filling is the other filling of the mask. -/
theorem mask_fill {t m : Template} (hslots : SameSlots t m) (horderly : IsOrderly m)
    (huntagged : Heredoc.IsUntagged m) {f : Filling} (h : mask (fill f.word t) = fill f.word m)
    (g : Filling) : mask (fill g.word t) = fill g.word m := by
  have htame : Scan.IsTame [] := fun _ _ hmem => nomatch hmem
  rw [mask_eq_iff] at h ⊢
  exact Scan.finishes_fill (s := Spot.start t) f g htame hslots horderly huntagged h

end FactoryDowngrade
