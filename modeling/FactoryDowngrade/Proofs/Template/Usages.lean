import FactoryDowngrade.Evidence.Detector
import FactoryDowngrade.Proofs.Ruby.BoundNames
import FactoryDowngrade.Proofs.Template.Carries
import FactoryDowngrade.Proofs.Template.Heads

/-!
# Uses of a name on templates

A name that is followed by a dot, a bracket or an operator is no slot, since a slot is followed by
arguments. So the uses of a name that detectors look for are the same in every filling. Only
methods that create records of an association may have the name of a slot, where a call to be
changed is taken for one of them.
-/

namespace FactoryDowngrade

open Template Pattern

variable {pre post : Spot → Prop} {name : Text}

/-! ### References -/

namespace Reference

/-- Every letter of a method name spoils a reference behind it. -/
theorem ignores_refusedBefore (name : Text) : Ignores (refusedBefore name) true := by
  by_cases hsigil : name.head? = some '@'
  · have hrefused : refusedBefore name = fun c => CharClass.isWord c || c == '@' :=
      funext fun c => if_pos hsigil
    rw [hrefused]
    decide
  · have hrefused : refusedBefore name =
        fun c => CharClass.isWord c || c == '@' || c == '$' || c == ':' || c == '.' :=
      funext fun c => if_neg hsigil
    rw [hrefused]
    decide

/-- A reference does not begin in the middle of a word. -/
theorem skipsWords_pattern (name : Text) : SkipsWords (pattern name) :=
  SkipsWords.seq (skipsWords_notAfter fun c hc => by
    rw [refusedBefore]
    split <;> simp [hc]) _

/-- A reference with something behind it that shuns slots. -/
theorem tracks_pattern_seq {q : Pattern} (hname : IsName name) (hq : Tracks offSlot q post)
    (hshuns : Shuns q) : Tracks pre (.seq (pattern name) q) post :=
  Tracks.of_ends ((tracks_notAfter (ignores_refusedBefore name)).seq
    (tracks_name_seq hname.nonempty hname.stains hq hshuns)) fun c => ends_seq_assoc _ _ _ c

/-- Where no slot comes next, the end of a name is seen alike in all fillings. -/
theorem tracks_nameEnd : Tracks offSlot nameEnd offSlot :=
  tracks_one_offSlot.notAhead

/-- A value that is left out behind its name is seen alike everywhere. -/
theorem tracks_omittedValue : Tracks pre omittedValue anywhere := by
  have hcolon : Tracks pre (.char ':') anywhere := (tracks_one (by decide)).toAnywhere
  have hgap : Tracks anywhere (.run CharClass.isSpaceOrTab) anywhere :=
    (tracks_run (by decide)).toAnywhere
  have hcloser : Tracks anywhere (.anyOf ",)\x7d") anywhere :=
    (tracks_one (by decide)).toAnywhere
  exact hcolon.seq (hgap.seq ((hcloser.either tracks_textEnd).ahead.seq tracks_empty))

/-- It does not begin inside a word. -/
theorem skipsWords_omittedValue : SkipsWords omittedValue :=
  (skipsWords_one fun c hc => by rw [eq_of_beq hc]; decide).seq _

/-- A name that is referred to with the one word in the slots is with the other one, unless the
name is that word: no slot is a reference to another name. -/
theorem occurs_standalone_stubbed (hname : IsName name) (hother : name ≠ Filling.created.word)
    {s : Spot} (hs : IsOrderly s.whole)
    (h : (standalone name).occurs (s.cursor .created) = true) :
    (standalone name).occurs (s.cursor .stubbed) = true := by
  have hbehind : SkipsWords (.either notKey omittedValue) :=
    CallSite.skipsWords_notKey.either skipsWords_omittedValue
  obtain ⟨stretch, d, hpass, hends⟩ := occurs_iff.mp h
  rcases arrives_of_passes hpass with ⟨count, rfl, -⟩ | ⟨_, _, _, -, -, -, -, -, hinside⟩
  · have hwhole : IsOrderly (s.move count).whole := by rwa [Spot.whole_move]
    by_cases hslot : (s.move count).AtSlot
    · obtain ⟨t, hafter⟩ := exists_after_of_atSlot hslot
      refine absurd ?_ hends
      rw [standalone, ends_seq, List.flatMap_eq_nil_iff]
      intro e he
      obtain ⟨first, hfirst, he⟩ := mem_ends_seq.mp he
      rw [ends_notAfter, ← ite_not] at hfirst
      obtain rfl := (eq_of_mem_condition hfirst).2
      exact hbehind.ends_eq_nil hwhole hafter hname.nonempty hname.stains
        (mem_ends_literal.mp he) hother
    · have hliteral : Tracks offSlot (pattern name) offSlot :=
        (tracks_notAfter (ignores_refusedBefore name)).seq (tracks_literal_offSlot hname.stains)
      obtain ⟨b, hb⟩ := (hliteral.seq (CallSite.tracks_notKey.toAnywhere.either
        tracks_omittedValue)).exists_isEmpty hwhole hslot
      refine occurs_iff.mpr ⟨_, _, s.passes_move .stubbed count, ?_⟩
      rw [← List.isEmpty_eq_false_iff] at hends ⊢
      exact (hb .stubbed).trans ((hb .created).symm.trans hends)
  · exact absurd (((skipsWords_pattern name).seq _) d hinside.1 hinside.2) hends

end Reference

/-! ### Fixed words -/

/-- One of some words that neither begin the word of a slot nor begin with it. -/
theorem Callee.tracks_wordIn {first : String} {rest : List String}
    (h : ∀ chars ∈ (first :: rest).map String.toList, (∀ c ∈ chars, stains c = true) ∧
      ∀ f : Filling, ¬chars <+: f.word ∧ ¬f.word <+: chars) :
    Tracks pre (wordIn (first :: rest)) offSlot := by
  refine tracks_choice fun p hp => ?_
  rw [← List.map_cons, List.mem_map] at hp
  obtain ⟨chars, hchars, rfl⟩ := hp
  exact tracks_literal (h chars hchars).1 (h chars hchars).2

/-- One of some words, where no slot stands. -/
theorem Callee.tracks_wordIn_offSlot {first : String} {rest : List String}
    (h : ∀ chars ∈ (first :: rest).map String.toList, ∀ c ∈ chars, stains c = true) :
    Tracks offSlot (wordIn (first :: rest)) offSlot := by
  refine tracks_choice fun p hp => ?_
  rw [← List.map_cons, List.mem_map] at hp
  obtain ⟨chars, hchars, rfl⟩ := hp
  exact tracks_literal_offSlot (h chars hchars)

/-! ### Methods and associations -/

namespace Evidence

/-- The dot before a method is seen alike everywhere as well. -/
theorem tracks_methodDot : Tracks pre methodDot anywhere := by
  have hampersand : Tracks pre (.maybe (.char '&')) anywhere :=
    (tracks_one (by decide)).toAnywhere.maybe fun _ _ _ => trivial
  have hdot : Tracks anywhere (.char '.') anywhere := (tracks_one (by decide)).toAnywhere
  exact hampersand.seq (hdot.seq (tracks_blanks.toAnywhere.seq tracks_empty))

/-- It does not begin at a slot. -/
theorem shuns_methodDot : Shuns methodDot :=
  (shuns_char (by decide)).maybe_seq ((shuns_char (by decide)).seq _)

/-- A method that is called on a name is seen alike. -/
theorem tracks_methodOn (hname : IsName name) : Tracks pre (methodOn name) anywhere :=
  Reference.tracks_pattern_seq hname (tracks_blanks.toAnywhere.seq tracks_methodDot)
    shuns_methodDot.blanks_seq

/-- Such a call does not begin in the middle of a word. -/
theorem skipsWords_methodOn (name : Text) : SkipsWords (methodOn name) :=
  (Reference.skipsWords_pattern name).seq _

/-- An association with something behind it that shuns slots. -/
theorem tracks_associationOf_seq {q : Pattern} (hname : IsName name)
    (hq : Tracks anywhere q post) (hshuns : Shuns q) :
    Tracks pre (.seq (associationOf name) q) post := by
  have hassociation : Tracks anywhere
      (.seq (.one CharClass.isLowerStart) (.seq .wordRun (.seq .blanks q))) post :=
    tracks_identifier_seq (fun _ => CharClass.isWord_of_isLowerStart)
      (tracks_blanks.toAnywhere.seq hq) hshuns.blanks_seq
  exact Tracks.of_ends ((tracks_methodOn hname).seq hassociation) fun c => ends_chain_seq _ _ c

/-- Neither does an association of a name. -/
theorem skipsWords_associationOf (name : Text) : SkipsWords (associationOf name) :=
  (skipsWords_methodOn name).seq _

end Evidence

namespace Usage

/-- The call of an accessor is seen alike. -/
theorem tracks_accessorCall (hname : IsName name) :
    Tracks pre (accessorCall name) anywhere := by
  have haccessors : Tracks anywhere (Callee.wordIn accessors) offSlot :=
    Callee.tracks_wordIn (by decide)
  exact (Evidence.tracks_methodOn hname).seq
    (haccessors.seq (Reference.tracks_nameEnd.toAnywhere.seq tracks_empty))

/-- So is a matcher for what is stored. -/
theorem tracks_storedStateMatcher (hname : IsName name) :
    Tracks pre (storedStateMatcher name) anywhere := by
  have hblanks : Tracks anywhere .blanks anywhere := tracks_blanks.toAnywhere
  have hexpect : Tracks pre (.word "expect") anywhere :=
    (tracks_literal (by decide) (by decide)).toAnywhere
  have hopen : Tracks anywhere (.char '(') anywhere := (tracks_one (by decide)).toAnywhere
  have hclose : Tracks anywhere (.char ')') anywhere := (tracks_one (by decide)).toAnywhere
  have hdot : Tracks anywhere (.char '.') anywhere := (tracks_one (by decide)).toAnywhere
  have hto : Tracks anywhere (Callee.wordIn ["to", "not_to", "to_not"]) anywhere :=
    (Callee.tracks_wordIn (by decide)).toAnywhere
  have hbe : Tracks anywhere (.word "be_") anywhere :=
    (tracks_literal (by decide) (by decide)).toAnywhere
  have hstored : Tracks anywhere (Callee.wordIn ["persisted", "new_record"]) anywhere :=
    (Callee.tracks_wordIn (by decide)).toAnywhere
  have hmatcher := hblanks.seq ((hopen.maybe fun _ _ _ => trivial).seq (hblanks.seq (hbe.seq
    (hstored.seq (tracks_wordEdge.seq tracks_empty)))))
  have htail := hblanks.seq (hclose.seq (hblanks.seq (hdot.seq (hblanks.seq (hto.seq hmatcher)))))
  exact hexpect.seq (hblanks.seq (hopen.seq (hblanks.seq (Reference.tracks_pattern_seq hname
    (htail.mono (fun _ _ _ => trivial) fun _ _ h => h)
    (((shuns_char (by decide)).seq _).blanks_seq)))))

/-- A fixed word that is no part of a slot's does not begin inside one either. -/
theorem skipsSlots_literal_seq {chars : Text} {t : Template} (ht : IsOrderly t)
    (hstains : ∀ c ∈ chars, stains c = true) (hclash : ∀ f : Filling, ¬chars <:+: f.word)
    (q : Pattern) : SkipsSlots (Pattern.seq (literal chars) q).match? t := by
  intro s rest hs hafter f front back hword hfront hback
  have hnone : (literal chars).ends ⟨front.reverse ++ fill f.word.reverse s.before,
      back ++ fill f.word rest⟩ = [] := by
    rw [List.eq_nil_iff_forall_not_mem]
    intro d hd
    have hlead : (s.cursor f).Passes front
        ⟨front.reverse ++ fill f.word.reverse s.before, back ++ fill f.word rest⟩ :=
      ⟨by rw [Spot.cursor, hafter, fill_none, hword, List.append_assoc], rfl⟩
    obtain ⟨more, hmore⟩ := prefix_word_of_passes (hs ▸ ht) hafter (fun c hc => by
      rcases List.mem_append.mp hc with hc | hc
      · exact stains_of_isWord (f.isWord_of_mem_word c (hword ▸ List.mem_append_left _ hc))
      · exact hstains c hc) (hlead.trans (mem_ends_literal.mp hd))
    exact hclash f ⟨front, more, hmore⟩
  rw [match?, ends_seq, hnone]
  rfl

/-- Such a matcher is not found at a slot. -/
theorem skipsSlots_storedStateMatcher {t : Template} (ht : IsOrderly t) (name : Text) :
    SkipsSlots (storedStateMatcher name).match? t :=
  skipsSlots_literal_seq ht (by decide) (by decide) _

/-- Appending to an association is seen alike. -/
theorem tracks_associationAppend (hname : IsName name) :
    Tracks pre (associationAppend name) anywhere := by
  have hopener : Tracks anywhere (.seq (.maybe (.anyOf "~-"))
      (.one fun c => c.isUpper || c == '\'' || c == '"')) anywhere :=
    ((tracks_one (by decide)).toAnywhere.maybe fun _ _ h => h).seq
      (tracks_one (by decide)).toAnywhere
  have hshovel : Tracks anywhere (.word "<<") anywhere :=
    tracks_literal_of_rejects (by decide)
  exact Evidence.tracks_associationOf_seq hname
    (hshovel.seq (hopener.notAhead.seq tracks_empty)) (((shuns_char (by decide)).seq _).seq _)

/-- So is a query of an association. -/
theorem tracks_associationQuery (hname : IsName name) :
    Tracks pre (associationQuery name) anywhere := by
  have hqueries : Tracks anywhere (Callee.wordIn associationQueries) offSlot :=
    Callee.tracks_wordIn (by decide)
  exact Evidence.tracks_associationOf_seq hname (Evidence.tracks_methodDot.seq
    (hqueries.seq (Reference.tracks_nameEnd.toAnywhere.seq tracks_empty)))
    (Evidence.shuns_methodDot.seq _)

/-- No slot is a method of an association of a bound name. -/
def IsDetached (t : Template) : Prop :=
  ∀ (name : Text) (s e : Spot), s.whole = t → e.whole = t →
    e.cursor .created ∈
      (Pattern.seq (Evidence.associationOf name) Evidence.methodDot).ends (s.cursor .created) →
    ¬e.AtSlot

/-- So is a record that is created on an association, where no slot is a method of one. -/
theorem tracks_associationCreation (hname : IsName name) {t : Template} (ht : IsDetached t) :
    Tracks (fun s => s.whole = t) (associationCreation name) anywhere := by
  have hmethod : Tracks (fun s => s.whole = t)
      (.seq (Evidence.associationOf name) Evidence.methodDot) offSlot :=
    (Evidence.tracks_associationOf_seq hname Evidence.tracks_methodDot
      Evidence.shuns_methodDot).of_reached fun s e hs he =>
        ht name s e hs (he.trans hs)
  have hcreators : Tracks offSlot (Callee.wordIn creators) offSlot :=
    Callee.tracks_wordIn_offSlot (by decide)
  exact (hmethod.seq (hcreators.seq (Reference.tracks_nameEnd.toAnywhere.seq tracks_empty))).of_ends
    fun c => (ends_seq_assoc _ _ _ c).symm

end Usage

end FactoryDowngrade
