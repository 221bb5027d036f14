import FactoryDowngrade.Proofs.AccessorCalls
import FactoryDowngrade.Proofs.LazyCreations

/-!
# Layouts of lazy blocks

The call in a lazy block is bound to the name of the block in every layout but one: written without
parentheses on one line with its `end`, it takes that `end` into its argument list and reaches
beyond the body. Then the block does not hold it, no name is bound to it, and evidence that names
the record is not seen.
-/

namespace FactoryDowngrade

open CallSite

/-! ### Blocks with one statement -/

/-- A keyword may begin behind blanks. -/
theorem Block.admitsKeyword_blanks {gap : Text} (hgap : ∀ x ∈ gap, CharClass.isBlank x = true)
    (hnonempty : gap ≠ []) (before : Text) : admitsKeyword (gap.reverse ++ before) = true := by
  obtain ⟨x, more, hx⟩ := List.exists_cons_of_ne_nil (mt List.reverse_eq_nil_iff.mp hnonempty)
  have hblank := hgap x (List.mem_reverse.mp (hx ▸ List.mem_cons_self))
  have hmarks := notMem_of_accepted
    (by decide : ∀ z ∈ ['.', ':', '@', '$'], CharClass.isBlank z = false) hblank
  simp only [List.mem_cons, List.not_mem_nil, or_false, not_or] at hmarks
  rw [hx, admitsKeyword]
  simp [spoilsBefore, CharClass.isWord_eq_false_of_isBlank hblank, hmarks]

/-- The search finds the `end` behind a single statement without keywords. -/
theorem Block.stop?_statement (q : Quiet) {before gap rest : Text} {x : Char}
    (hbefore : admitsKeyword before = true) (hgap : ∀ y ∈ gap, CharClass.isBlank y = true)
    (hnonempty : gap ≠ []) (hx : CharClass.isBlank x = true) (hrest : endsKeyword rest = true) :
    stop? ⟨before, "do".toList ++ (gap ++ (q.text ++ x :: ("end".toList ++ rest)))⟩ =
      some (before.length + 2 + gap.length + q.text.length + 1) := by
  have hdo : keyword? "do".toList = some .opens := by decide
  have hend : keyword? "end".toList = some .closes := by decide
  have hword {y : Char} (hy : CharClass.isBlank y = true) := CharClass.isWord_eq_false_of_isBlank hy
  have hedge {blank : Char} (hblank : CharClass.isBlank blank = true) (more : Text) :
      endsKeyword (blank :: more) = true := by
    have hmarks := notMem_of_accepted
      (by decide : ∀ z ∈ ['?', '!', ':'], CharClass.isBlank z = false) hblank
    simp only [List.mem_cons, List.not_mem_nil, or_false, not_or] at hmarks
    simp [endsKeyword, hword hblank, hmarks]
  have hopened : endsKeyword (gap ++ (q.text ++ x :: ("end".toList ++ rest))) = true := by
    obtain ⟨y, more, rfl⟩ := List.exists_cons_of_ne_nil hnonempty
    exact hedge (hgap y List.mem_cons_self) _
  have hlast : ∀ y ∈ [x], CharClass.isBlank y = true := by simpa using hx
  have hspelling : x :: ("end".toList ++ rest) = [x] ++ ("end".toList ++ rest) := rfl
  rw [stop?, closingEnd?_keyword hdo hbefore hopened]
  dsimp only
  rw [Int.zero_add, closingEnd?_of_not_isWord fun y hy => hword (hgap y hy),
    q.closingEnd?_text (admitsKeyword_blanks hgap hnonempty _) (hedge hx _), hspelling,
    closingEnd?_of_not_isWord fun y hy => hword (hlast y hy),
    closingEnd?_keyword hend (admitsKeyword_blanks hlast (by simp) _) hrest]
  dsimp only
  rw [if_pos rfl, Option.map_some]
  simp [Cursor.offset]
  omega

/-! ### The block of a call -/

namespace LazyCreation

/-- The block as it is found in the text. -/
def block (b : LazyCreation) : LazyBinding where
  name := b.name
  keyword := b.keyword
  bodyStart := (LazyBinding.lead b.keyword b.name ++ b.layout.opener).length
  bodyStop := b.front.length + b.call.text.length + 1

/-- What stands behind the name of the block. -/
def behindLead (b : LazyCreation) (rest : Text) : Text :=
  b.layout.opener ++ (b.layout.gap ++ (b.call.text ++ (b.layout.closer ++ '\n' :: rest)))

/-- The opener stands behind a space. -/
theorem exists_reverse_lead (b : LazyCreation) :
    ∃ outside, (LazyBinding.lead b.keyword b.name).reverse = ' ' :: outside :=
  ⟨(b.keyword ++ ("(:".toList ++ (b.name ++ [')']))).reverse, by simp [LazyBinding.lead]⟩

section Proper

variable {b : LazyCreation} (hb : b.IsProper)

include hb

/-- Braces are closed behind the call. -/
theorem closeDistance_behindLead (hl : b.layout = .braces) (rest : Text) :
    Bracket.closeDistance BracketRole.ofChar [] (b.behindLead rest) =
      some (b.call.text.length + 3) := by
  have hspace : Bracket.IsNested [' '] := .singleton rfl
  have hclose := ((hspace.append (SimpleCall.isNested_text hb.call)).append hspace).closeDistance_eq
    .curly ('\n' :: rest)
  have hbehind : b.behindLead rest = BracketKind.curly.opener ::
      (([' '] ++ b.call.text) ++ [' '] ++ BracketKind.curly.closer :: '\n' :: rest) := by
    simp [behindLead, hl, Layout.opener, Layout.gap, Layout.closer, BracketKind.opener,
      BracketKind.closer]
  rw [hbehind, hclose]
  simp

/-- Behind `do` the search comes to the `end` behind the call. -/
theorem stop?_behindLead (hl : b.layout ≠ .braces) (rest : Text) :
    Block.stop? ⟨(LazyBinding.lead b.keyword b.name).reverse, b.behindLead rest⟩ =
      some b.block.bodyStop := by
  obtain ⟨x, hx, hopener, hgap, hcloser⟩ : ∃ x, CharClass.isBlank x = true ∧
      b.layout.opener = "do".toList ∧ b.layout.gap ≠ [] ∧
      b.layout.closer = x :: "end".toList := by
    cases hlayout : b.layout with
    | braces => exact absurd hlayout hl
    | line => exact ⟨' ', by decide, rfl, by decide, rfl⟩
    | lines indent => exact ⟨'\n', by decide, rfl, by simp [Layout.gap], rfl⟩
  obtain ⟨outside, hlead⟩ := b.exists_reverse_lead
  have hbefore : Block.admitsKeyword (LazyBinding.lead b.keyword b.name).reverse = true := by
    rw [hlead]
    rfl
  have hrest : Block.endsKeyword ('\n' :: rest) = true := rfl
  have hstop := Block.stop?_statement (SimpleCall.quiet hb.call) hbefore
    (Layout.isBlank_of_mem_gap hb.layout) hgap hx hrest
  have hbehind : b.behindLead rest = "do".toList ++ (b.layout.gap ++
      ((SimpleCall.quiet hb.call).text ++ x :: ("end".toList ++ '\n' :: rest))) := by
    simp [behindLead, hopener, hcloser, SimpleCall.quiet]
  rw [hbehind, hstop]
  simp [block, front, hopener, SimpleCall.quiet]
  omega

/-- The block is the first one of the text, and the others begin behind the start of its call. -/
theorem exists_all_text (rest : Text) : ∃ others,
    LazyBinding.all (b.text rest) = b.block :: others ∧
      ∀ other ∈ others, b.front.length < other.bodyStart := by
  let lead := LazyBinding.lead b.keyword b.name
  let behind := b.call.text ++ (b.layout.closer ++ '\n' :: rest)
  let body : Cursor := ⟨b.layout.opener.reverse ++ lead.reverse, b.layout.gap ++ behind⟩
  have htext : b.text rest = lead ++ b.behindLead rest := by
    simp [text, front, lead, behindLead]
  have hsolid : (b.behindLead rest).head?.any CharClass.isBlank = false := by
    rw [behindLead]
    cases b.layout <;> rfl
  have hopener : LazyBinding.openerPattern.match? ⟨lead.reverse, b.behindLead rest⟩ =
      some body := by
    obtain ⟨outside, hlead⟩ := b.exists_reverse_lead
    simp only [body, lead, hlead]
    exact b.layout.match?_opener outside behind
  have hhead := LazyBinding.headAt?_lead hb.keyword hb.name hsolid hopener
  have hblock : LazyBinding.ofHead? ⟨b.keyword, some b.name, ⟨lead.reverse, b.behindLead rest⟩,
      body⟩ = some b.block := by
    have hstart : body.offset = b.block.bodyStart := by
      simp [body, block, lead, Cursor.offset, Nat.add_comm]
    rw [LazyBinding.ofHead?_eq]
    dsimp only [LazyBinding.Head.boundName, Option.some_or, Option.bind_some]
    by_cases hl : b.layout = .braces
    · have hbrace : (b.behindLead rest).head? = some '\x7b' := by
        rw [behindLead, hl]
        rfl
      rw [if_pos hbrace, closeDistance_behindLead hb hl, Option.map_some, Option.map_some, hstart]
      simp [block, front, hl, Layout.opener, Layout.gap, Cursor.offset, lead]
      omega
    · have hword : (b.behindLead rest).head? ≠ some '\x7b' := by
        rw [behindLead]
        cases hlayout : b.layout with
        | braces => exact absurd hlayout hl
        | line => exact (by decide : some 'd' ≠ some '\x7b')
        | lines indent => exact (by decide : some 'd' ≠ some '\x7b')
      rw [if_neg hword, stop?_behindLead hb hl, Option.map_some, hstart]
      rfl
  have hpass : body.Passes b.layout.gap ⟨b.front.reverse, behind⟩ :=
    ⟨rfl, by simp [body, front, lead]⟩
  refine ⟨(Cursor.readAll LazyBinding.headAt? body).filterMap LazyBinding.ofHead?, ?_,
    fun other hother => ?_⟩
  · rw [LazyBinding.all, htext, Cursor.readAll_of_some LazyBinding.isProgressive_headAt? hhead,
      List.filterMap_cons_some hblock]
  · have hlater := LazyBinding.lt_bodyStart_of_mem hpass
      (Layout.isBlank_of_mem_gap hb.layout) hother
    rwa [Cursor.offset, List.length_reverse] at hlater

/-- The block holds its call unless the call takes what closes the block. -/
theorem innermost?_all (rest : Text) :
    LazyBinding.innermost? (LazyBinding.all (b.text rest)) b.front.length
      (b.front.length + (b.call.text ++ b.taken).length) =
        if b.taken = [] then some b.block else none := by
  obtain ⟨others, hall, hothers⟩ := exists_all_text hb rest
  have hstart : b.block.bodyStart ≤ b.front.length := by
    simp [block, front]
  -- a closer is longer than the one blank that stands before the `end`
  have hstop : b.front.length + (b.call.text ++ b.taken).length ≤ b.block.bodyStop ↔
      b.taken = [] := by
    have hcloser : ∀ closer ∈ [" \x7d", " end", "\nend"].map String.toList, 1 < closer.length := by
      decide
    have hlong := hcloser _ b.layout.closer_mem
    have hbody : b.block.bodyStop = b.front.length + b.call.text.length + 1 := rfl
    rw [hbody, List.length_append, taken]
    split
    · rw [← List.length_eq_zero_iff]
      omega
    · simp
  have hholds : b.block.holds b.front.length (b.front.length + (b.call.text ++ b.taken).length) =
      decide (b.taken = []) := by
    simp only [LazyBinding.holds, hstart, hstop, decide_true, Bool.true_and]
  rw [hall, LazyBinding.innermost?_cons hothers, hholds]
  simp

/-- The first site of the text is the call of the block, and the name of the block is bound to it
unless the call takes what closes the block. -/
theorem exists_extract_text (rest : Text) : ∃ site sites,
    extract (b.text rest) = site :: sites ∧ site.variant = .create ∧
      site.schemaName = some b.call.factory ∧ site.argumentText = b.call.listed ++ b.taken ∧
      site.bindingName = if b.taken = [] then some b.name else none := by
  obtain ⟨others, hcalls⟩ := exists_calls_text hb rest
  have houter := enclosing?_of_calls_eq_cons hcalls
  have hplace : Cursor.place (mask (b.text rest)) b.front.length =
      ⟨b.front.reverse, b.call.text ++ (b.layout.closer ++ '\n' :: mask rest)⟩ := by
    rw [mask_text hb, text, Cursor.place, List.take_left, List.drop_left]
  have hoffset : Cursor.offset
      ⟨b.front.reverse, b.call.text ++ (b.layout.closer ++ '\n' :: mask rest)⟩ =
        b.front.length := List.length_reverse
  have hbound : (siteOf (b.text rest) (b.call.callAt b.front.length b.taken)).bindingName =
      if b.taken = [] then some b.name else none := by
    rw [siteOf, ofCall]
    dsimp only
    rw [houter, SimpleCall.callAt]
    dsimp only
    rw [hplace, boundName?, target?_front hb, hoffset, mask_text hb, innermost?_all hb]
    by_cases htaken : b.taken = [] <;> simp [htaken, block]
  have harguments : (siteOf (b.text rest) (b.call.callAt b.front.length b.taken)).argumentText =
      b.call.listed ++ b.taken := by
    obtain ⟨back, hback⟩ := b.exists_text_eq rest
    have hslice : (siteOf (b.text rest) (b.call.callAt b.front.length b.taken)).argumentText =
        (b.text rest).slice (b.front.length + 7)
          (b.front.length + 7 + (b.call.listed ++ b.taken).length) := rfl
    rw [hslice, hback, SimpleCall.slice_listed]
  exact ⟨_, others.map (siteOf (b.text rest)), by rw [extract_eq_map, hcalls, List.map_cons], rfl,
    rfl, harguments, hbound⟩

/-- The first site of the text is the call of the block. On one line with its `end` and without
parentheses it takes that `end`, in every other layout the name of the block is bound to it. If what
follows the block calls an accessor on the name, then in these layouts, and only in these, the
record is seen to be stored and is kept. -/
theorem exists_isMatch_text_iff {rest : Text}
    (haccessor : Evidence.Shows (SpecText.ofText rest) (Usage.accessorCall b.name)) :
    ∃ site sites, extract (b.text rest) = site :: sites ∧
      site.variant = .create ∧ site.schemaName = some b.call.factory ∧
      site.argumentText = b.call.listed ++ b.taken ∧
      (site.bindingName = some b.name ↔ (b.layout = .line → b.call.parenthesized = true)) ∧
      (∀ suffixes, (Detector.persistenceAccessor.detect suffixes (SpecText.ofText (b.text rest))
        site).isMatch = true ↔ (b.layout = .line → b.call.parenthesized = true)) ∧
      ((b.layout = .line → b.call.parenthesized = true) → ∀ granularity config,
        Detector.persistenceAccessor ∈ Config.detectors config →
          (Analysis.decisionOn (b.text rest) granularity config site).isNoop = true) := by
  obtain ⟨site, sites, hsites, hvariant, hschema, hlisted, hbound⟩ := exists_extract_text hb rest
  have hmask : mask (b.text rest) =
      (b.front ++ (b.call.text ++ b.layout.closer)) ++ '\n' :: mask rest := by
    rw [mask_text hb]
    simp [text]
  have hshows := haccessor.behind hmask
  have hsees (htaken : b.taken = []) (suffixes : Suffixes) :
      Detector.persistenceAccessor.Sees suffixes (SpecText.ofText (b.text rest)) site :=
    Detector.sees_of_shows suffixes (by rw [hbound, if_pos htaken]) hshows
  have hbinding : site.bindingName = some b.name ↔
      (b.layout = .line → b.call.parenthesized = true) := by
    rw [hbound, ← taken_eq_nil_iff]
    simp
  refine ⟨site, sites, hsites, hvariant, hschema, hlisted, hbinding, fun suffixes => ?_,
    fun hlayout granularity config hd =>
      Analysis.isNoop_of_sees granularity hd (hsees (taken_eq_nil_iff.mpr hlayout) _)⟩
  rw [Detector.isMatch_detect_iff, ← taken_eq_nil_iff]
  refine ⟨fun hseen => ?_, fun htaken => hsees htaken suffixes⟩
  by_contra htaken
  obtain ⟨name, hname, -⟩ := hseen
  rw [hbound, if_neg htaken] at hname
  cases hname

end Proper

/-- On one line with its `end` a block without parentheses hides that its record is reloaded. -/
theorem exists_not_isMatch_line :
    ∃ site sites, extract "let(:user) do create :user end\nuser.reload\n".toList = site :: sites ∧
      site.variant = .create ∧ ∀ suffixes, (Detector.persistenceAccessor.detect suffixes
        (SpecText.ofText "let(:user) do create :user end\nuser.reload\n".toList)
          site).isMatch = false := by
  let b : LazyCreation := ⟨"let".toList, "user".toList, .line, ⟨"user".toList, [], false⟩⟩
  have hb : b.IsProper :=
    { keyword := by decide
      name := ⟨"user".toList, [], by decide, by decide, by decide, rfl⟩
      layout := trivial
      call := ⟨⟨by decide, by decide⟩, by simp [b]⟩ }
  have haccessor : (Usage.accessorCall b.name).occurs
      (Cursor.start (SpecText.ofText "user.reload\n".toList).masked) = true := by decide
  obtain ⟨site, sites, hsites, hvariant, -, -, -, hmatch, -⟩ :=
    exists_isMatch_text_iff hb haccessor
  refine ⟨site, sites, hsites, hvariant, fun suffixes => Bool.eq_false_iff.mpr fun hseen => ?_⟩
  cases (hmatch suffixes).mp hseen rfl

/-- There the call takes the `end` of the block, and no name is bound to it. -/
theorem argumentText_extract_line :
    (extract "let(:user) do create :user end\nuser.reload\n".toList).map
      (fun s => (s.argumentText, s.bindingName)) = [(":user end".toList, none)] := by
  decide +kernel

end LazyCreation

end FactoryDowngrade
