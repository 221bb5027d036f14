import FactoryDowngrade.Proofs.RunResults
import FactoryDowngrade.Proofs.Template.Letters

/-!
# Repeated runs come to rest

Stubbing a created record takes one occurrence of `create` out of the text, and no letter of
`build_stubbed` begins a new one. So whatever the settings and the surroundings of each run are, a
run takes as many occurrences away as it applies changes, and only as many runs can change a text
as it has occurrences.
-/

namespace FactoryDowngrade

namespace Text

/-- The number of places of a text at which a word begins. -/
def occurrences (word : Text) : Text → Nat
  | [] => 0
  | c :: rest => (if startsWith (c :: rest) word then 1 else 0) + occurrences word rest

/-- A word does not begin inside a stretch without its first character. -/
theorem occurrences_append {word : Text} {c : Char} {more stretch : Text} (hword : word = c :: more)
    (hstretch : c ∉ stretch) (rest : Text) :
    occurrences word (stretch ++ rest) = occurrences word rest := by
  induction stretch with
  | nil => rfl
  | cons d stretch ih =>
    obtain ⟨hne, hmore⟩ := not_or.mp (mt List.mem_cons.mpr hstretch)
    have hstarts : startsWith (d :: (stretch ++ rest)) word = false := by
      simp [startsWith, hword, List.isPrefixOf_cons_cons, hne]
    rw [List.cons_append, occurrences, hstarts, ih hmore]
    exact Nat.zero_add _

end Text

namespace Template

/-- A slot holds one more occurrence of `create` with that word in it than with the other. -/
theorem occurrences_fill (t : Template) :
    Text.occurrences Filling.created.word (fill Filling.created.word t) =
      Text.occurrences Filling.created.word (fill Filling.stubbed.word t) + t.count none := by
  have hcreate : Filling.created.word = 'c' :: "reate".toList := by decide
  induction t with
  | nil => rfl
  | cons item t ih =>
    cases item with
    | none =>
      have hstubbed : 'c' ∉ Filling.stubbed.word := by decide
      have hbegins : Text.startsWith (Filling.created.word ++ fill Filling.created.word t)
          Filling.created.word = true := List.isPrefixOf_iff_prefix.mpr (List.prefix_append _ _)
      have hfirst : Text.occurrences Filling.created.word
          (Filling.created.word ++ fill Filling.created.word t) =
            1 + Text.occurrences Filling.created.word (fill Filling.created.word t) := by
        rw [hcreate] at hbegins ⊢
        rw [List.cons_append, Text.occurrences, ← List.cons_append, hbegins, if_pos rfl,
          Text.occurrences_append rfl (by decide)]
      rw [fill_none, fill_none, hfirst, Text.occurrences_append hcreate hstubbed, ih,
        List.count_cons_self]
      omega
    | some c =>
      -- what follows the first letter of `create` is neither in a slot nor reaches into one
      obtain ⟨begins, hbegins⟩ := @exists_startsWith_fill "reate".toList (by decide) t
      have hstarts (f : Filling) :
          Text.startsWith (c :: fill f.word t) Filling.created.word = ('c' == c && begins) := by
        rw [← hbegins f, hcreate]
        rfl
      rw [fill_some, fill_some, Text.occurrences, Text.occurrences, hstarts, hstarts, ih,
        List.count_cons_of_ne (by simp)]
      omega

end Template

open Template

namespace Optimize

variable {σ : Type} {text : Text} {granularity : Option Text} {config : Config}

/-- What a run returns that changes the text: the candidate, with all its proposals committed. -/
structure IsRewrite (text : Text) (granularity : Option Text) (config : Config)
    (result : OptimizeResult) : Prop where
  proposals : (Analysis.ofText text granularity config).proposals ≠ []
  returned : result.text = (planOf text granularity config).candidate
  decisions : result.report.decisions =
    (Analysis.ofText text granularity config).decisions.map Decision.commit

/-- What a run returns is the text as it was or its rewrite. -/
theorem Returns.isKept_or_isRewrite {result : OptimizeResult}
    (h : Returns text granularity config result) :
    IsKept text result ∨ IsRewrite text granularity config result := by
  cases h with
  | untried => exact .inl (isKept_of_decisions rfl (by simp) rfl)
  | committed v hsome => exact .inr ⟨hsome, rfl, rfl⟩
  | takenBack v hnote => exact .inl (isKept_of_decisions rfl (by simp) rfl)
  | failed haccount => exact .inl (isKept_of_decisions rfl (by simp) rfl)

/-- A run that returns something returns the text as it was or its rewrite, and it returns something
unless its command is faulty. -/
theorem run_cases (bench : Bench σ) (text : Text) (granularity : Option Text) (config : Config)
    (file : String) (s : σ) :
    (∃ fault, bench.CanFail (.command fault) ∧
      (run bench text granularity config file s).1 = .error (.command fault)) ∨
    ∃ result, (run bench text granularity config file s).1 = .ok result ∧
      (IsKept text result ∨ IsRewrite text granularity config result) :=
  (run_returns bench text granularity config file s).imp_right fun ⟨result, hresult, hreturns⟩ =>
    ⟨result, hresult, hreturns.isKept_or_isRewrite⟩

/-- A text has one occurrence of `create` more than its candidate for each proposal. -/
theorem occurrences_candidate (text : Text) (granularity : Option Text) (config : Config) :
    Text.occurrences Filling.created.word (planOf text granularity config).candidate +
        (Analysis.ofText text granularity config).proposals.length =
      Text.occurrences Filling.created.word text := by
  have hslots : (Analysis.ofText text granularity config).proposals.length =
      (Analysis.template text granularity config).count none := by
    calc
      (Analysis.ofText text granularity config).proposals.length
        = (Analysis.proposedSpans text granularity config).length := by
          rw [Analysis.proposals_ofText, Analysis.proposedSpans, List.length_map, List.length_map]
      _ = (Analysis.template text granularity config).count none := by
          rw [← Analysis.slots_create_template, length_slots]
  have hfill := occurrences_fill (Analysis.template text granularity config)
  rw [Filling.word, Filling.variant, Analysis.fill_create_template] at hfill
  rw [hslots]
  exact hfill.symm

/-- A rewrite applies all proposals. -/
theorem IsRewrite.appliedCount_eq {result : OptimizeResult}
    (h : IsRewrite text granularity config result) :
    result.report.appliedCount = (Analysis.ofText text granularity config).proposals.length := by
  rw [Report.appliedCount, h.decisions, List.filter_map, List.length_map, Analysis.proposals]
  congr 1
  refine List.filter_congr fun d hd => ?_
  have happlied := Decision.applied_commit (Analysis.applied_of_mem_decisions hd)
  rw [Function.comp_apply, Bool.eq_iff_iff, happlied]
  simp [Decision.isProposal, Decision.isNoop, Decision.commit, apply_ite]

/-- A run takes as many occurrences of `create` away as it applies changes, and it applies at least
one if it optimizes the text. -/
theorem occurrences_run {bench : Bench σ} {file : String} {s : σ} {result : OptimizeResult}
    (h : (run bench text granularity config file s).1 = .ok result) :
    Text.occurrences Filling.created.word result.text + result.report.appliedCount =
        Text.occurrences Filling.created.word text ∧
      (result.report.outcome.status = .optimized → 0 < result.report.appliedCount) := by
  rcases run_cases bench text granularity config file s with ⟨fault, -, hfault⟩ | ⟨r, hr, hcases⟩
  · rw [hfault] at h
    cases h
  · obtain rfl : r = result := Except.ok.inj (hr.symm.trans h)
    rcases hcases with hkept | hrewrite
    · have hnone : r.report.appliedCount = 0 := by
        rw [Report.appliedCount, List.length_eq_zero_iff, List.filter_eq_nil_iff]
        exact fun d hd => by simp [hkept.applied d hd]
      rw [hkept.returned, hnone]
      exact ⟨rfl, fun hoptimized => absurd hoptimized hkept.status⟩
    · rw [hrewrite.appliedCount_eq, hrewrite.returned]
      exact ⟨occurrences_candidate text granularity config,
        fun _ => List.length_pos_iff.mpr hrewrite.proposals⟩

/-! ### Runs one after the other -/

/-- A run with settings and surroundings of its own. -/
structure Rerun where
  State : Type
  bench : Bench State
  state : State
  granularity : Option Text
  config : Config
  file : String

/-- What a run comes to on a text. -/
def Rerun.on (r : Rerun) (text : Text) : Except OptimizeFault OptimizeResult :=
  (run r.bench text r.granularity r.config r.file r.state).1

/-- The results of runs one after the other, each on the text that was returned last. -/
def series : List Rerun → Text → List OptimizeResult
  | [], _ => []
  | r :: runs, text =>
    match r.on text with
    | .ok result => result :: series runs result.text
    | .error _ => series runs text

/-- Beginning with a text, each result has lost an occurrence of `create` per change applied. -/
inductive IsDescent : Text → List OptimizeResult → Prop where
  | nil (text : Text) : IsDescent text []
  | cons {text : Text} {result : OptimizeResult} {rest : List OptimizeResult}
    (lost : Text.occurrences Filling.created.word result.text + result.report.appliedCount =
      Text.occurrences Filling.created.word text)
    (descent : IsDescent result.text rest) : IsDescent text (result :: rest)

/-- Runs take away an occurrence of `create` for each change that they apply, whatever their
settings and surroundings are, so no more of them change the text than it has occurrences. Each of
them returns something if no command is faulty. -/
theorem isDescent_series (runs : List Rerun) (text : Text) :
    IsDescent text (series runs text) ∧
    (series runs text).countP (fun r => r.report.outcome.status = .optimized) ≤
      Text.occurrences Filling.created.word text ∧
    ((∀ r ∈ runs, ∀ fault, ¬r.bench.CanFail (.command fault)) →
      (series runs text).length = runs.length) := by
  induction runs generalizing text with
  | nil => exact ⟨.nil text, Nat.zero_le _, fun _ => rfl⟩
  | cons r runs ih =>
    cases hon : r.on text with
    | error fault =>
      have hseries : series (r :: runs) text = series runs text := by rw [series, hon]
      obtain ⟨hdescent, hcount, -⟩ := ih text
      rw [hseries]
      refine ⟨hdescent, hcount, fun hnever => ?_⟩
      rcases run_cases r.bench text r.granularity r.config r.file r.state with
        ⟨fault, hfail, -⟩ | ⟨result, hresult, -⟩
      · exact absurd hfail (hnever r List.mem_cons_self fault)
      · rw [Rerun.on, hresult] at hon
        cases hon
    | ok result =>
      have hseries : series (r :: runs) text = result :: series runs result.text := by
        rw [series, hon]
      obtain ⟨hlost, hsome⟩ := occurrences_run hon
      obtain ⟨hdescent, hcount, hall⟩ := ih result.text
      rw [hseries]
      refine ⟨.cons hlost hdescent, ?_, fun hnever => ?_⟩
      · by_cases hoptimized : result.report.outcome.status = .optimized
        · have hpos := hsome hoptimized
          rw [List.countP_cons_of_pos (by simpa using hoptimized)]
          omega
        · rw [List.countP_cons_of_neg (by simpa using hoptimized)]
          omega
      · rw [List.length_cons, List.length_cons,
          hall fun r hr => hnever r (List.mem_cons_of_mem _ hr)]

/-- A run on the bench where every text passes. -/
def passingRerun (granularity : Option Text) : Rerun :=
  ⟨Unit, passingBench, (), granularity, .default, defaultFileName⟩

/-- An integration spec that is then taken for a unit spec is rewritten once at most. -/
theorem isDescent_series_passingRerun :
    let runs := [passingRerun (some "integration".toList), passingRerun (some "unit".toList)]
    let text := "user = create(:user)".toList
    IsDescent text (series runs text) ∧
    (series runs text).countP (fun r => r.report.outcome.status = .optimized) ≤
      Text.occurrences Filling.created.word text ∧
    (series runs text).length = 2 := by
  have hnever : ∀ r ∈ [passingRerun (some "integration".toList), passingRerun (some "unit".toList)],
      ∀ fault, ¬r.bench.CanFail (.command fault) := by
    rintro r hr fault ⟨dir, name, candidate, s, hfail⟩
    rcases List.mem_pair.mp hr with rfl | rfl <;> cases hfail
  obtain ⟨hdescent, hcount, hall⟩ := isDescent_series _ "user = create(:user)".toList
  exact ⟨hdescent, hcount, hall hnever⟩

end Optimize

end FactoryDowngrade
