import FactoryDowngrade.Proofs.AssignedCreation

/-!
# A record handed to a job is kept

A record that is created under a name and then mentioned among the arguments of a job is never
stubbed. The arguments may be any balanced code: the mask shows the name however deep it stands in
groups and in the interpolations of strings, and the parenthesis that closes the call is found,
whatever brackets the strings and comments hold.
-/

namespace FactoryDowngrade

open Code Pattern

/-- A spec that creates a record and hands some arguments to a job. -/
def jobSpec (name factory arguments rest : Text) : Text :=
  assigned name factory
    ("\nSyncJob.perform_later(".toList ++ (arguments ++ (")\n".toList ++ rest)))

/-! ### The mask -/

section Mask

open Scan

variable {name factory arguments : Text}

/-- No line behind the assignment begins a block comment before the job is called. -/
theorem isLineFree_job (hlines : ¬"\n=begin".toList <:+: arguments) (before rest : Text) :
    IsLineFree before ("\nSyncJob.perform_later(".toList ++ (arguments ++ ")\n".toList)) rest := by
  have hbreak : IsLineFree before ['\n']
      ("SyncJob.perform_later(".toList ++ (arguments ++ (")\n".toList ++ rest))) :=
    .of_line (by simp) (by decide)
  have hcall : IsLineFree ('\n' :: before) "SyncJob.perform_later(".toList
      (arguments ++ (")\n".toList ++ rest)) := .of_line (by decide) (by decide)
  have harguments : IsLineFree ("\nSyncJob.perform_later(".toList.reverse ++ before) arguments
      (")\n".toList ++ rest) := .of_rest (by simp) hlines (by decide)
  have hend (before : Text) : IsLineFree before ")\n".toList rest :=
    .of_line (by decide) (by decide)
  have hall := ((hbreak.append hcall).append harguments).append (hend _)
  simpa using hall

/-- The mask of such a spec has the same shape, and its arguments show what they mention. -/
theorem exists_mask_jobSpec (hname : IsLocalName name) (hfactory : IsSymbol factory)
    (harguments : Mentions name none arguments) (hlines : ¬"\n=begin".toList <:+: arguments)
    (rest : Text) :
    ∃ image more, mask (jobSpec name factory arguments rest) = jobSpec name factory image more ∧
      Bracket.IsNested image ∧ ShowsWord name ('(' :: (image ++ [')'])) := by
  obtain ⟨image, hwrites, hnested, hshows⟩ := harguments.exists_writes hname.word
  let job (arguments : Text) := "\nSyncJob.perform_later(".toList ++ (arguments ++ ")\n".toList)
  have hjob : Writes none none (job arguments) (job image) := by
    have hlead : Writes none none "\nSyncJob.perform_later".toList
        "\nSyncJob.perform_later".toList := .of_plain (by decide)
    have hend : Writes none none ['\n'] ['\n'] := .of_plain (by decide)
    simpa [job, BracketKind.opener, BracketKind.closer] using
      hlead.append ((hwrites.group .round).append hend)
  have hspec (arguments rest : Text) :
      assigned name factory (job arguments ++ rest) = jobSpec name factory arguments rest := by
    simp [jobSpec, job]
  have hline := isLineFree_job hlines (assigned name factory []).reverse rest
  obtain ⟨more, hmore⟩ := exists_mask_of_reaches
    ((reaches_assigned hname hfactory (job arguments ++ rest)).trans
      (hjob.reaches _ _ rest [] isCode_nil hline))
  rw [hspec, List.reverse_append, List.reverse_reverse, List.reverse_reverse, List.append_assoc,
    assigned_append, List.nil_append, hspec] at hmore
  exact ⟨image, more, hmore, hnested, hshows .round⟩

end Mask

/-! ### The invocation -/

namespace Invocation

variable {name factory image more : Text}

/-- The text of such a spec up to the dispatching method. -/
def jobLead (name factory : Text) : Text :=
  name ++ (" = create(:".toList ++ (factory ++ ")\nSyncJob.".toList))

/-- The place of the dispatching method. -/
def dispatchPlace (name factory image more : Text) : Cursor :=
  ⟨(jobLead name factory).reverse,
    "perform_later(".toList ++ (image ++ (")\n".toList ++ more))⟩

/-- The place behind it. -/
def dispatchStop (name factory image more : Text) : Cursor :=
  ⟨"perform_later".toList.reverse ++ (jobLead name factory).reverse,
    '(' :: (image ++ ')' :: '\n' :: more)⟩

/-- Read backwards, what leads to the arguments of the job begins with its call. -/
theorem reverse_jobLead (name factory : Text) : (jobLead name factory).reverse =
    ".boJcnyS\n)".toList ++ (name ++ (" = create(:".toList ++ factory)).reverse := by
  simp [jobLead]

/-- The dispatching method is one of the names of the text. -/
theorem mem_allMatches_dispatch :
    (dispatchPlace name factory image more, dispatchStop name factory image more) ∈
      anyName.allMatches (jobSpec name factory image more) := by
  have hread : anyName.reading (dispatchPlace name factory image more) =
      some ((dispatchPlace name factory image more, dispatchStop name factory image more),
        dispatchStop name factory image more) := by
    rw [reading, match?_anyName, dispatchPlace, dispatchStop, reverse_jobLead]
    rfl
  have hreach : (Cursor.start (jobSpec name factory image more)).Passes (jobLead name factory)
      (dispatchPlace name factory image more) :=
    ⟨by simp [jobSpec, assigned, jobLead, dispatchPlace, Cursor.start],
      by simp [dispatchPlace, Cursor.start]⟩
  rw [allMatches, matchesFrom_eq_readAll takesSome_anyName]
  refine Cursor.mem_readAll (isProgressive_reading takesSome_anyName) hreach hread
    fun first behind hsplit hbehind e e' other he hother => ?_
  -- a name that began before the method and went on behind its start would hold the dot
  obtain ⟨stop, hstop, hpair⟩ := Option.map_eq_some_iff.mp hother
  obtain ⟨-, rfl⟩ := Prod.mk.inj hpair
  obtain ⟨stretch, hplain, hpass⟩ := passesOnly_anyName e stop (List.mem_of_head? hstop)
  have hrest : e.Passes behind (dispatchPlace name factory image more) := by
    rw [hsplit] at hreach
    obtain ⟨e', he', hrest⟩ := hreach.split
    exact he.unique he' ▸ hrest
  by_contra hover
  rw [hpass.offset, hrest.offset] at hover
  have hfront : behind <+: stretch := List.prefix_of_prefix_length_le
    ⟨_, hrest.after.symm⟩ ⟨_, hpass.after.symm⟩ (by omega)
  have hdot : '.' ∈ behind := by
    have hlast : (jobLead name factory).getLast? = some '.' := by
      rw [List.getLast?_eq_head?_reverse, reverse_jobLead]
      rfl
    rw [hsplit, List.getLast?_append_of_ne_nil _ hbehind] at hlast
    exact List.mem_of_getLast? hlast
  exact absurd (hplain '.' (hfront.subset hdot)) (by decide)

/-- The job is invoked with the arguments between its parentheses. -/
theorem exists_dispatch (hnested : Bracket.IsNested image) :
    ∃ i ∈ all (jobSpec name factory image more), i.callee = "SyncJob.perform_later".toList ∧
      i.argsStart = (jobLead name factory).length + 14 ∧
      i.argsStop = (jobLead name factory).length + 14 + image.length := by
  have hoffset : (dispatchStop name factory image more).offset =
      (jobLead name factory).length + 13 := by
    simp [dispatchStop, Cursor.offset]
  have hclose := hnested.closeDistance_eq .round ('\n' :: more)
  have hstop : parenthesizedStop (dispatchStop name factory image more).after
      ((jobLead name factory).length + 13) = (jobLead name factory).length + 14 + image.length := by
    have hafter : (dispatchStop name factory image more).after =
        BracketKind.opener .round :: (image ++ BracketKind.closer .round :: '\n' :: more) := rfl
    rw [parenthesizedStop, hafter, hclose]
    dsimp only
    omega
  have hcallee : Receiver.chainEnding (dispatchStop name factory image more).before =
      "SyncJob.perform_later".toList := by
    rw [dispatchStop, reverse_jobLead]
    rfl
  have hround : (dispatchStop name factory image more).after.head? = some '(' := rfl
  have hread : ofName (dispatchPlace name factory image more)
      (dispatchStop name factory image more) =
      ⟨"SyncJob.perform_later".toList, (jobLead name factory).length,
        (jobLead name factory).length + 13, (jobLead name factory).length + 14,
        (jobLead name factory).length + 14 + image.length, true⟩ := by
    have hplace : (dispatchPlace name factory image more).offset = (jobLead name factory).length :=
      List.length_reverse
    unfold ofName
    rw [if_pos hround]
    simp only [hcallee, hoffset, hstop, hplace]
  exact ⟨_, List.mem_map.mpr ⟨_, mem_allMatches_dispatch, hread⟩, rfl, rfl, rfl⟩

end Invocation

/-! ### The reference -/

/-- Behind what may precede a word in code a reference to a plain name is not refused. -/
theorem Reference.refusedBefore_of_mayPrecede {name : Text} (hname : name.head? ≠ some '@')
    {c : Char} (hc : Code.mayPrecede c = true) : refusedBefore name c = false := by
  have hplain : ∀ c ∈ ['(', '[', '\x7b', ',', ' '], (CharClass.isWord c || c == '@' || c == '$' ||
      c == ':' || c == '.') = false := by decide
  rw [refusedBefore, if_neg hname]
  exact hplain c (by simpa [Code.mayPrecede] using hc)

/-- What may follow a word in code does not make it a key. -/
theorem Reference.ends_notKey_of_mayFollow {c : Char} (hc : Code.mayFollow c = true)
    (before after : Text) : notKey.ends ⟨before, c :: after⟩ = [⟨before, c :: after⟩] := by
  have hplain : ∀ c ∈ [')', ']', '\x7d', ',', ' ', '.'], extendsName c = false ∧ c ≠ ':' := by
    decide
  obtain ⟨hextends, hcolon⟩ := hplain c (by simpa [Code.mayFollow] using hc)
  simp [notKey, ends_notAhead, ends_either, ends_one, ends_seq, char, hextends, hcolon]

/-- A bare word between parentheses is a reference to its name. -/
theorem Reference.occurs_standalone {name image : Text} (before : Text)
    (hname : name.head? ≠ some '@') (h : Code.ShowsWord name ('(' :: (image ++ [')']))) :
    (standalone name).occurs ⟨'(' :: before, image⟩ = true := by
  obtain ⟨lead, tail, hsplit, hlead, htail⟩ := h
  obtain ⟨x, lead, rfl⟩ : ∃ x more, lead = x :: more := by
    cases lead with
    | nil => cases hlead
    | cons x more => exact ⟨x, more, rfl⟩
  obtain ⟨rfl, hinner⟩ := List.cons.inj hsplit
  rcases List.eq_nil_or_concat tail with rfl | ⟨tail, y, rfl⟩
  · cases htail
  have hinside : image ++ [')'] = (lead ++ name ++ tail) ++ [y] := by
    rw [hinner]
    simp
  obtain ⟨rfl, -⟩ := List.append_inj' hinside rfl
  have hplace : Cursor.Passes ⟨'(' :: before, lead ++ name ++ tail⟩ lead
      ⟨lead.reverse ++ '(' :: before, name ++ tail⟩ := ⟨by simp, rfl⟩
  -- what stands around the word makes it no part of something longer
  have hleft : Cursor.follows ⟨lead.reverse ++ '(' :: before, name ++ tail⟩ (refusedBefore name) =
      false := by
    have hlast : (lead.reverse ++ '(' :: before).head? = ('(' :: lead).getLast? := by
      rcases List.eq_nil_or_concat lead with rfl | ⟨lead, z, rfl⟩
      · rfl
      · rw [List.concat_eq_append, List.reverse_append, ← List.cons_append, List.getLast?_concat]
        rfl
    rw [Cursor.follows, hlast]
    cases hc : ('(' :: lead).getLast? with
    | none => rfl
    | some c =>
      rw [hc] at hlead
      exact refusedBefore_of_mayPrecede hname hlead
  have hright : notKey.ends ⟨name.reverse ++ (lead.reverse ++ '(' :: before), tail⟩ =
      [⟨name.reverse ++ (lead.reverse ++ '(' :: before), tail⟩] := by
    cases tail with
    | nil => rfl
    | cons z tail => exact ends_notKey_of_mayFollow htail _ _
  have hword : ⟨name.reverse ++ (lead.reverse ++ '(' :: before), tail⟩ ∈
      (literal name).ends ⟨lead.reverse ++ '(' :: before, name ++ tail⟩ :=
    mem_ends_literal.mpr ⟨rfl, rfl⟩
  have hmem : ⟨name.reverse ++ (lead.reverse ++ '(' :: before), tail⟩ ∈
      (standalone name).ends ⟨lead.reverse ++ '(' :: before, name ++ tail⟩ := by
    refine mem_ends_seq.mpr ⟨_, mem_ends_seq.mpr ⟨_, ?_, hword⟩, ?_⟩
    · rw [ends_notAfter, hleft]
      exact List.mem_singleton.mpr rfl
    · rw [ends_either, hright]
      simp
  exact occurs_iff.mpr ⟨lead, _, hplace, List.ne_nil_of_mem hmem⟩

/-! ### The plan -/

/-- A site about which a configured detector sees a sign is left as it is. -/
theorem Analysis.isNoop_of_sees {text : Text} {config : Config} {site : CallSite} {d : Detector}
    (granularity : Option Text) (hd : d ∈ config.detectors)
    (hsees : d.Sees config.suffixes (SpecText.ofText text) site) :
    (decisionOn text granularity config site).isNoop = true := by
  by_contra hchange
  have hproposal : (decisionOn text granularity config site).isProposal = true := by
    simpa [Decision.isProposal] using hchange
  obtain ⟨-, -, -, hnone⟩ := (isProposal_decisionOn_iff site).mp hproposal
  have hmatch := (Detector.isMatch_detect_iff d _ _ site).mpr hsees
  rw [hnone d hd] at hmatch
  cases hmatch

/-- A record that a boundary receives by its name is seen to be consumed. -/
theorem Detector.sees_of_isReceived {suffixes : Suffixes} {t : SpecText} {site : CallSite}
    {name : Text} (hbound : site.bindingName = some name)
    (h : Evidence.IsReceived t name (Callee.isBoundary suffixes)) :
    externalConsumption.Sees suffixes t site :=
  .inr ⟨name, hbound, h⟩

/-- Parentheses that show a word are not empty. -/
theorem Code.ShowsWord.ne_nil {name image : Text} (h : ShowsWord name ('(' :: (image ++ [')'])))
    (hname : name ≠ []) : image ≠ [] := by
  rintro rfl
  obtain ⟨lead, tail, hsplit, hlead, htail⟩ := h
  have hlength := congrArg List.length hsplit
  have hpos := List.length_pos_iff.mpr hname
  have hleadPos : 0 < lead.length := by
    cases lead with
    | nil => cases hlead
    | cons => exact Nat.succ_pos _
  have htailPos : 0 < tail.length := by
    cases tail with
    | nil => cases htail
    | cons => exact Nat.succ_pos _
  simp only [List.length_cons, List.length_append, List.length_nil] at hlength
  omega

/-- What the arguments of the job show, they refer to. -/
theorem Evidence.refersWithin_jobSpec {name factory image more : Text}
    (hsigil : name.head? ≠ some '@') (hshows : ShowsWord name ('(' :: (image ++ [')']))) :
    refersWithin (jobSpec name factory image more) name
      ((Invocation.jobLead name factory).length + 14)
      ((Invocation.jobLead name factory).length + 14 + image.length) = true := by
  have hlead : jobSpec name factory image more =
      (Invocation.jobLead name factory ++ "perform_later(".toList) ++
        (image ++ (")\n".toList ++ more)) := by simp [jobSpec, assigned, Invocation.jobLead]
  have hlength : (Invocation.jobLead name factory).length + 14 =
      (Invocation.jobLead name factory ++ "perform_later(".toList).length := by simp
  have hbefore : ((jobSpec name factory image more).take
      ((Invocation.jobLead name factory).length + 14)).reverse =
        '(' :: ("perform_later".toList.reverse ++ (Invocation.jobLead name factory).reverse) := by
    rw [hlead, hlength, List.take_left]
    simp
  have hslice : (jobSpec name factory image more).slice
      ((Invocation.jobLead name factory).length + 14)
      ((Invocation.jobLead name factory).length + 14 + image.length) = image := by
    rw [hlead, hlength, Text.slice, List.take_length_add_append, List.drop_left, List.take_left]
  rw [refersWithin, hbefore, hslice]
  exact Reference.occurs_standalone _ hsigil hshows

/-- The detector of boundaries sees that the arguments of the job refer to the name. -/
theorem Evidence.isReceived_jobSpec {name factory arguments : Text} (hname : IsLocalName name)
    (hfactory : IsSymbol factory) (harguments : Mentions name none arguments)
    (hlines : ¬"\n=begin".toList <:+: arguments) (rest : Text) :
    IsReceived (SpecText.ofText (jobSpec name factory arguments rest)) name
      (Callee.isBoundary Config.default.suffixes) := by
  obtain ⟨image, more, hmask, hnested, hshows⟩ :=
    exists_mask_jobSpec hname hfactory harguments hlines rest
  obtain ⟨i, hi, hcallee, hstart, hstop⟩ :=
    @Invocation.exists_dispatch name factory image more hnested
  have hfirst := hname.first
  have hnonempty : name ≠ [] := by
    rintro rfl
    cases hfirst
  have hsigil : name.head? ≠ some '@' := by
    intro hhead
    rw [hhead] at hfirst
    exact absurd hfirst (by decide)
  have hmem : i ∈ Invocation.all (mask (jobSpec name factory arguments rest)) := by
    rw [hmask]
    exact hi
  refine ⟨i, hmem, ?_, ?_, ?_⟩
  · have hpos := List.length_pos_iff.mpr (hshows.ne_nil hnonempty)
    omega
  · rw [hcallee]
    decide
  · change refersWithin (mask (jobSpec name factory arguments rest)) name i.argsStart i.argsStop =
      true
    rw [hmask, hstart, hstop]
    exact refersWithin_jobSpec hsigil hshows

/-- In a unit spec that creates a record under a name and then hands a job arguments that mention
the name, the first site creates the record, with the name bound to it, and is left as it is. -/
theorem Plan.exists_isNoop_jobSpec {name factory arguments : Text} (hname : IsLocalName name)
    (hfactory : IsSymbol factory) (harguments : Mentions name none arguments)
    (hlines : ¬"\n=begin".toList <:+: arguments) (rest : Text) :
    ∃ plan site sites decision decisions,
      Plan.ofText (jobSpec name factory arguments rest) (some "unit".toList) .default = .ok plan ∧
      plan.analysis.resolution.granularity = .unit ∧
      plan.analysis.resolution.source = .explicit ∧
      plan.analysis.sites = site :: sites ∧ plan.analysis.decisions = decision :: decisions ∧
      site.variant = .create ∧ site.schemaName = some factory ∧
      site.sourceSpan.start = name.length + 3 ∧ site.bindingName = some name ∧
      decision.siteId = site.id ∧ decision.isNoop = true := by
  obtain ⟨image, more, hmask, -, -⟩ :=
    exists_mask_jobSpec hname hfactory harguments hlines rest
  have htext : jobSpec name factory arguments rest = assigned name factory
      ("\nSyncJob.perform_later(".toList ++ (arguments ++ (")\n".toList ++ rest))) := rfl
  obtain ⟨sites, hsites, hbound⟩ :=
    CallSite.exists_extract_assigned hname hfactory htext hmask
  have hreceived := Evidence.isReceived_jobSpec hname hfactory harguments hlines rest
  have hnoop := Analysis.isNoop_of_sees (some "unit".toList) (by decide)
    (Detector.sees_of_isReceived hbound hreceived)
  have hdecisions : (Analysis.ofText (jobSpec name factory arguments rest) (some "unit".toList)
      .default).decisions = _ := Analysis.decisions_ofText _ _ _
  rw [hsites, List.map_cons] at hdecisions
  exact ⟨_, _, sites, _, _, Plan.ofText_eq _ _ _, rfl, rfl, hsites, hdecisions, rfl, rfl, rfl,
    hbound, Decision.siteId_decide _ _ _, hnoop⟩

/-- An argument that mentions a record in a list inside an interpolation. -/
theorem Code.mentions_interpolated :
    Mentions "user".toList none "1, \"by #\x7b[user]\x7d)\"".toList :=
  have hlead : IsBalanced none "1, ".toList :=
    .append (.plain (c := '1') (by decide)) (.append (.plain (c := ',') (by decide))
      (.plain (c := ' ') (by decide)))
  have hlist : Mentions "user".toList none "[user]".toList :=
    .group .square .nil (.word .nil .nil rfl rfl) .nil
  have hrest : IsBalanced (some .double) ")\"".toList :=
    .inside (by decide) (by decide) (by decide) (.closing .double)
  .quoted .double hlead (.inside (by decide) (by decide) (by decide)
    (.inside (by decide) (by decide) (by decide) (.inside (by decide) (by decide) (by decide)
      (.interpolated (by decide) hlist hrest)))) .nil

/-- The record mentioned there is kept. -/
theorem Plan.exists_isNoop_jobSpec_interpolated :
    IsLocalName "user".toList ∧ IsSymbol "user".toList ∧
    Mentions "user".toList none "1, \"by #\x7b[user]\x7d)\"".toList ∧
    ¬"\n=begin".toList <:+: "1, \"by #\x7b[user]\x7d)\"".toList ∧
    ∃ plan site sites decision decisions,
      Plan.ofText (jobSpec "user".toList "user".toList "1, \"by #\x7b[user]\x7d)\"".toList
        "expect(user.name).to be_nil\n".toList) (some "unit".toList) .default = .ok plan ∧
      plan.analysis.resolution.granularity = .unit ∧
      plan.analysis.resolution.source = .explicit ∧
      plan.analysis.sites = site :: sites ∧ plan.analysis.decisions = decision :: decisions ∧
      site.variant = .create ∧ site.schemaName = some "user".toList ∧
      site.sourceSpan.start = "user".toList.length + 3 ∧ site.bindingName = some "user".toList ∧
      decision.siteId = site.id ∧ decision.isNoop = true := by
  have hname : IsLocalName "user".toList := ⟨by decide, by decide, by decide⟩
  have hfactory : IsSymbol "user".toList := ⟨by decide, by decide⟩
  have hlines : ¬"\n=begin".toList <:+: "1, \"by #\x7b[user]\x7d)\"".toList := by decide
  exact ⟨hname, hfactory, mentions_interpolated, hlines,
    exists_isNoop_jobSpec hname hfactory mentions_interpolated hlines _⟩

end FactoryDowngrade
