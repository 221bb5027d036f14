import FactoryDowngrade.Proofs.AccessorCalls
import FactoryDowngrade.Proofs.Ruby.HeredocLines

/-!
# Evidence in interpolated code

A record that is created under a name is kept if an accessor is called on the name in code that a
string, a command or a percent literal interpolates, whatever stands around that code in the body of
the literal. A heredoc is different: its body is blanked with the code that it interpolates, so what
is called there is not seen.
-/

namespace FactoryDowngrade

open Pattern Scan

/-- The masking scan of a text comes to an offset in code, with no heredoc pending. -/
def IsInCodeAt (text : Text) (offset : Nat) : Prop :=
  ∃ s, (Scan.start text).Reaches s ∧ s.before.length = offset ∧ IsCode s.frames ∧ s.heredocs = []

section Interpolated

variable {front rest call name : Text} {o : Opening} {body : Phrase (some o)}

/-- A text with a literal whose body, behind some of it, interpolates code. -/
def interpolating (front : Text) (o : Opening) (body : Phrase (some o)) (code : Text) : Text :=
  front ++ (o.spelling ++ (body.spelling ++ '#' :: '\x7b' :: code))

/-- A call in interpolated code is shown behind the brace. -/
theorem exists_mask_interpolating (hplace : IsInCodeAt (interpolating front o body (call ++ rest))
      front.length)
    (hopens : o.opensBehind front.reverse = true) (hinterpolates : o.interpolates = true)
    (hproper : body.isProper none = true) (hlines : ¬"\n=begin".toList <:+: body.spelling)
    (hcall : ∀ x ∈ call, Phrase.isPlain x = true ∧ x ≠ '=') :
    ∃ shown more, mask (interpolating front o body (call ++ rest)) =
        (shown ++ ['#', '\x7b']) ++ (call ++ more) ∧
      List.Forall₂ IsMaskOf more rest := by
  obtain ⟨⟨before, masked, after, frames, heredocs⟩, hreach, hoffset, hcode, hclear⟩ := hplace
  obtain ⟨hbefore, hafter, hwritten⟩ := hreach.passed_front hoffset
  dsimp only at hbefore hafter hclear hwritten
  subst hbefore hafter hclear
  have hopening (rest : Text) : Crosses frames (.literal o.literal 0 :: frames) front.reverse
      o.spelling o.spelling rest := crosses_opening_of_previous hcode hopens
  have hbody (rest : Text) : Crosses (.literal o.literal 0 :: frames)
      (.literal o.literal 0 :: frames) (o.spelling.reverse ++ front.reverse) body.spelling
      body.shown ('#' :: rest) :=
    body.crosses hproper ⟨0, frames, rfl⟩ (by simp)
      (.of_rest (o.head?_reverse_spelling _) hlines (by decide))
  have hinside : IsCode (.code 0 :: .literal o.literal 0 :: frames) := fun _ _ _ h => by cases h
  have hcalled (before rest : Text) : Crosses (.code 0 :: .literal o.literal 0 :: frames)
      (.code 0 :: .literal o.literal 0 :: frames) before call call rest :=
    crosses_stretch hinside (fun x hx => (hcall x hx).1)
      (.of_notMem fun hequals => (hcall _ hequals).2 rfl)
  have hall := (hopening _).append ((hbody _).append
    ((crosses_interpolation hinterpolates).append (hcalled _ rest))) masked
  let passed := front ++ (o.spelling ++ (body.spelling ++ (['#', '\x7b'] ++ call)))
  let shown := masked.reverse ++ (o.spelling ++ body.shown)
  have htext : interpolating front o body (call ++ rest) = passed ++ rest := by
    simp [interpolating, passed]
  have hend : (Scan.start (passed ++ rest)).Reaches
      ⟨passed.reverse, ((shown ++ ['#', '\x7b']) ++ call).reverse, rest,
        .code 0 :: .literal o.literal 0 :: frames, []⟩ := by
    rw [← htext]
    refine hreach.trans ?_
    simpa [passed, shown] using hall
  obtain ⟨more, hmore⟩ := exists_mask_of_reaches hend
  obtain ⟨-, -, hlength⟩ := hend.passed_front (List.length_reverse)
  rw [List.reverse_reverse] at hmore
  refine ⟨shown, more, by rw [htext, hmore, List.append_assoc], ?_⟩
  have hwritten : ((shown ++ ['#', '\x7b']) ++ call).length = passed.length := by
    rw [← hlength, List.length_reverse]
  have hrest := List.forall₂_drop passed.length (mask_forall₂ (passed ++ rest))
  rwa [hmore, List.drop_left, List.drop_left' hwritten] at hrest

/-- In a text that creates a record under a name, with a literal behind it that interpolates an
accessor called on the name, the first site creates the record, with the name bound to it. The
accessor is seen, and the record is kept. -/
theorem exists_isMatch_interpolating {factory lead code : Text} (hname : IsLocalName name)
    (hfactory : IsSymbol factory)
    (hplace : IsInCodeAt (interpolating (assigned name factory lead) o body code)
      (assigned name factory lead).length)
    (hopens : o.opensBehind (assigned name factory lead).reverse = true)
    (hinterpolates : o.interpolates = true) (hproper : body.isProper none = true)
    (hlines : ¬"\n=begin".toList <:+: body.spelling)
    (haccessor : (Usage.accessorCall name).occursAt (Cursor.start code) = true) :
    ∃ site sites, CallSite.extract (interpolating (assigned name factory lead) o body code) =
        site :: sites ∧
      site.variant = .create ∧ site.schemaName = some factory ∧ site.bindingName = some name ∧
      (∀ suffixes, (Detector.persistenceAccessor.detect suffixes (SpecText.ofText
        (interpolating (assigned name factory lead) o body code)) site).isMatch = true) ∧
      ∀ granularity config, Detector.persistenceAccessor ∈ Config.detectors config →
        (Analysis.decisionOn (interpolating (assigned name factory lead) o body code) granularity
          config site).isNoop = true := by
  obtain ⟨-, call, rest, hcall, rfl, hrest⟩ := Usage.occursAt_accessorCall_iff.mp haccessor
  obtain ⟨shown, more, hmask, hmasks⟩ := exists_mask_interpolating hplace hopens hinterpolates
    hproper hlines fun x hx => hcall.mem hname.word hx
  obtain ⟨behind, hassigned⟩ := exists_mask_assigned hname hfactory
    (lead ++ (o.spelling ++ (body.spelling ++ '#' :: '\x7b' :: (call ++ rest))))
  rw [← assigned_append] at hassigned
  obtain ⟨sites, hsites, hbound⟩ := CallSite.exists_extract_assigned hname hfactory
    (assigned_append name factory lead _) hassigned
  have hmore := any_head?_of_masks (by decide) hmasks hrest
  have hrefused : (shown ++ ['#', '\x7b']).getLast?.any (Reference.refusedBefore name) =
      false := by
    simpa using Reference.refusedBefore_mark name '\x7b' (by decide)
  have hsees (suffixes : Suffixes) := Detector.sees_of_shows suffixes hbound
    (Evidence.shows_accessorCall hcall hmask hrefused hmore)
  exact ⟨_, sites, hsites, rfl, rfl, hbound,
    fun suffixes => (Detector.isMatch_detect_iff _ _ _ _).mpr (hsees suffixes),
    fun granularity config hd => Analysis.isNoop_of_sees granularity hd (hsees _)⟩

/-- An accessor is seen in a command that stands in a list which a string interpolates. -/
theorem exists_isMatch_interpolating_command :
    let front := assigned "user".toList "user".toList "\nputs \"a #\x7b[1, ".toList
    let text := interpolating front (.quote .backtick) (.inside "id ".toList .nil)
      "user.id\x7d\x60]\x7d\"\n".toList
    IsLocalName "user".toList ∧ IsSymbol "user".toList ∧ IsInCodeAt text front.length ∧
    (Usage.accessorCall "user".toList).occursAt
      (Cursor.start "user.id\x7d\x60]\x7d\"\n".toList) = true ∧
    ∃ site sites, CallSite.extract text = site :: sites ∧ site.variant = .create ∧
      site.schemaName = some "user".toList ∧ site.bindingName = some "user".toList ∧
      (∀ suffixes, (Detector.persistenceAccessor.detect suffixes (SpecText.ofText text)
        site).isMatch = true) ∧
      ∀ granularity config, Detector.persistenceAccessor ∈ Config.detectors config →
        (Analysis.decisionOn text granularity config site).isNoop = true := by
  intro front text
  have hname : IsLocalName "user".toList := ⟨by decide, by decide, by decide⟩
  have hfactory : IsSymbol "user".toList := ⟨by decide, by decide⟩
  have hplace : IsInCodeAt text front.length := by
    have hframes : (steps 34 (start text)).frames = [.code 0, .literal ⟨'"', none, true⟩ 0] := by
      decide
    refine ⟨steps 34 (start text), ⟨34, rfl⟩, by decide, ?_, by decide⟩
    rw [hframes]
    exact fun _ _ _ h => by cases h
  have haccessor : (Usage.accessorCall "user".toList).occursAt
      (Cursor.start "user.id\x7d\x60]\x7d\"\n".toList) = true := by decide
  exact ⟨hname, hfactory, hplace, haccessor, exists_isMatch_interpolating hname hfactory hplace rfl
    rfl rfl (by decide) haccessor⟩

end Interpolated

/-! ### Heredocs -/

/-- A chain passes the characters that are among its parts. -/
theorem mem_after_of_mem_ends_chain {x : Char} {parts : List Pattern} (hx : .char x ∈ parts)
    {c d : Cursor} (hd : d ∈ (chain parts).ends c) : x ∈ c.after := by
  induction parts generalizing c with
  | nil => cases hx
  | cons p parts ih =>
    obtain ⟨e, he, hd⟩ := mem_ends_seq.mp hd
    obtain ⟨stretch, hpass⟩ := passes_of_mem_ends he
    rcases List.mem_cons.mp hx with rfl | hx
    · rw [(mem_ends_char.mp he).after]
      exact List.mem_cons_self
    · rw [hpass.after]
      exact List.mem_append_right _ (ih hx hd)

/-- The uses of a name that read or write what is stored have a dot. -/
theorem Detector.mem_of_sees {suffixes : Suffixes} {t : SpecText} {site : CallSite}
    (h : persistenceAccessor.Sees suffixes t site) : '.' ∈ t.masked := by
  have hdot {p : Pattern} (hp : ∀ c d, d ∈ p.ends c → '.' ∈ c.after)
      (hshows : Evidence.Shows t p) : '.' ∈ t.masked := by
    obtain ⟨stretch, c, hpass, hends⟩ := occurs_iff.mp hshows
    obtain ⟨d, hd⟩ := List.exists_mem_of_ne_nil _ hends
    have hmasked : t.masked = stretch ++ c.after := hpass.after
    rw [hmasked]
    exact List.mem_append_right _ (hp c d hd)
  obtain ⟨name, -, hshows | hshows⟩ := h
  · refine hdot (fun c d hd => ?_) hshows
    obtain ⟨e, he, -⟩ := mem_ends_seq.mp hd
    exact mem_after_of_mem_ends_chain (by simp) he
  · exact hdot (fun c d hd => mem_after_of_mem_ends_chain (by simp) hd) hshows

/-- Nothing in the bodies of heredocs is seen, whatever they interpolate: if the line that opens
them calls no method, the record that is created before is taken not to be stored. -/
theorem exists_not_isMatch_heredocs {name factory stop : Text} {line : OpenerLine}
    {bodies : List Heredoc.Body} (hname : IsLocalName name) (hfactory : IsSymbol factory)
    (hproper : line.isProper = true) (hfirst : ¬"=begin".toList <+: line.spelling)
    (hdot : '.' ∉ line.spelling)
    (hbodies : List.Forall₂ (fun h b => Heredoc.Body.IsOf h b) line.heredocs bodies)
    (hstop : stop = ['\n'] ∨ stop = []) :
    ∃ site sites, CallSite.extract (assigned name factory ('\n' :: line.block bodies stop)) =
        site :: sites ∧
      site.variant = .create ∧ site.schemaName = some factory ∧ site.bindingName = some name ∧
      ∀ suffixes, (Detector.persistenceAccessor.detect suffixes (SpecText.ofText
        (assigned name factory ('\n' :: line.block bodies stop))) site).isMatch = false := by
  let front := assigned name factory ['\n']
  have htext : assigned name factory ('\n' :: line.block bodies stop) =
      front ++ (line.block bodies stop ++ []) := by
    rw [List.append_nil, assigned_append]
    rfl
  have hreverse : front.reverse = '\n' :: (assigned name factory []).reverse := by
    simp [front, assigned]
  have hreach (back : Text) : (Scan.start (front ++ back)).Reaches
      ⟨front.reverse, front.reverse, back, [], []⟩ := by
    rw [assigned_append, hreverse]
    exact (reaches_assigned hname hfactory _).trans (.step (step_of_lineBreak isCode_nil))
  have hlast : front.getLast? = some '\n' := by
    rw [List.getLast?_eq_head?_reverse, hreverse]
    rfl
  have hmask := mask_openerLine (.inr hlast) hproper hfirst hbodies
    (hstop.imp_right fun hnone => ⟨hnone, rfl⟩) ⟨_, hreach _, List.length_reverse, rfl⟩
  have hfront : mask front = front := by
    have hend := hreach []
    rw [List.append_nil] at hend
    rw [mask_eq_of_reaches_end hend rfl, List.reverse_reverse]
  rw [← htext, hfront, assigned_append] at hmask
  obtain ⟨sites, hsites, hbound⟩ := CallSite.exists_extract_assigned hname hfactory rfl hmask
  refine ⟨_, sites, hsites, rfl, rfl, hbound, fun suffixes => ?_⟩
  rw [Bool.eq_false_iff]
  intro hmatch
  have hmem : '.' ∈ mask (assigned name factory ('\n' :: line.block bodies stop)) :=
    Detector.mem_of_sees ((Detector.isMatch_detect_iff _ _ _ _).mp hmatch)
  -- neither the line of the call nor the one that opens the heredocs has a dot
  have hword {word : Text} (hword : ∀ c ∈ word, CharClass.isWord c = true) : '.' ∉ word :=
    fun hmem => absurd (hword _ hmem) (by decide)
  have hblank (bodies : Text) : '.' ∉ bodies.map blankOf := by
    intro hmem
    obtain ⟨c, -, hc⟩ := List.mem_map.mp hmem
    unfold blankOf at hc
    split at hc <;> exact absurd hc (by decide)
  rw [hmask] at hmem
  simp [assigned, OpenerLine.shown, hword hname.word, hword hfactory.word, hdot, hblank, mask,
    steps, start] at hmem

/-- An accessor that the body of a heredoc interpolates is not seen. -/
theorem exists_not_isMatch_heredoc :
    ∃ site sites, CallSite.extract
        "user = create(:user)\nbody = <<~TEXT\n  id #\x7buser.id\x7d\nTEXT\n".toList =
          site :: sites ∧
      site.variant = .create ∧ site.schemaName = some "user".toList ∧
      site.bindingName = some "user".toList ∧
      ∀ suffixes, (Detector.persistenceAccessor.detect suffixes (SpecText.ofText
        "user = create(:user)\nbody = <<~TEXT\n  id #\x7buser.id\x7d\nTEXT\n".toList)
          site).isMatch = false := by
  let line : OpenerLine :=
    .opener "body = ".toList ⟨some .tilde, none, "TEXT".toList⟩ (.code [])
  let bodies : List Heredoc.Body := [⟨["  id #\x7buser.id\x7d".toList], "TEXT".toList⟩]
  have htext : "user = create(:user)\nbody = <<~TEXT\n  id #\x7buser.id\x7d\nTEXT\n".toList =
      assigned "user".toList "user".toList ('\n' :: line.block bodies ['\n']) := by
    decide
  have hbodies : List.Forall₂ (fun h b => Heredoc.Body.IsOf h b) line.heredocs bodies :=
    .cons ⟨by decide, by decide, by decide, by decide⟩ .nil
  rw [htext]
  exact exists_not_isMatch_heredocs ⟨by decide, by decide, by decide⟩ ⟨by decide, by decide⟩
    (by decide) (by decide) (by decide) hbodies (.inl rfl)

end FactoryDowngrade
