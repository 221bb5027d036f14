import FactoryDowngrade.Proofs.Data.Accepted
import FactoryDowngrade.Proofs.PlanCandidate

/-!
# Accepted configurations drive the engine

Whatever data a configuration is read from, an accepted one names each detector at most once, in the
order of the data, and has a command that can be run, a time limit above zero and at least one line
of output to keep. With it every text has a plan. Each call that could be read has one record of
evidence from each configured detector, in that order and under its name; a call that could not be
read has one record that says so.
-/

namespace FactoryDowngrade

/-! ### Blank texts -/

/-- Nothing is left of a text without blanks around it just when it has nothing but blanks. -/
theorem Text.trim_eq_nil_iff {text : Text} :
    text.trim = [] ↔ ∀ x ∈ text, CharClass.isBlank x = true := by
  rw [trim, trimRight, List.reverse_eq_nil_iff, List.dropWhile_eq_nil_iff, trimLeft]
  simp only [List.mem_reverse]
  constructor
  · intro h x hx
    rw [← List.takeWhile_append_dropWhile (p := CharClass.isBlank) (l := text)] at hx
    rcases List.mem_append.mp hx with hx | hx
    · exact List.mem_takeWhile_imp hx
    · exact h x hx
  · exact fun h x hx => h x ((List.dropWhile_sublist _).subset hx)

/-! ### Detectors -/

namespace Detector

/-- A name belongs to at most one detector. -/
theorem ofName?_eq_some_iff {name : String} {d : Detector} :
    ofName? name = some d ↔ d.name = name := by
  constructor
  · intro h
    simpa using List.find?_some h
  · rintro rfl
    exact ofName?_name d

/-- Names of detectors are read one after the other. -/
theorem ofNames_name_cons (d : Detector) (names : List String) :
    ofNames (d.name :: names) = (ofNames names).map (d :: ·) := by
  rw [ofNames, List.mapM_cons, ofName?_name, ← ofNames]
  cases ofNames names <;> rfl

/-- A first name that no detector has is the one that is told of. -/
theorem ofNames_unknown_cons {name : String} (h : ofName? name = none) (names : List String) :
    ofNames (name :: names) = .error name := by
  rw [ofNames, List.mapM_cons, h]
  rfl

/-- Names stand for some detectors just when they are their names. -/
theorem ofNames_eq_ok_iff {names : List String} {detectors : List Detector} :
    ofNames names = .ok detectors ↔ names = detectors.map name := by
  induction names generalizing detectors with
  | nil => cases detectors <;> simp [ofNames, pure, Except.pure]
  | cons first names ih =>
    cases hfirst : ofName? first with
    | none =>
      rw [ofNames_unknown_cons hfirst]
      refine iff_of_false nofun fun hnames => ?_
      obtain ⟨d, rest, rfl, hd, -⟩ := List.map_eq_cons_iff.mp hnames.symm
      rw [← hd, ofName?_name] at hfirst
      cases hfirst
    | some d =>
      obtain rfl := ofName?_eq_some_iff.mp hfirst
      rw [ofNames_name_cons]
      constructor
      · intro h
        cases hrest : ofNames names with
        | error fault => simp [hrest, Except.map] at h
        | ok rest =>
          obtain rfl : d :: rest = detectors := by simpa [hrest, Except.map] using h
          rw [List.map_cons, ← ih.mp hrest]
      · intro hnames
        obtain ⟨d', rest, rfl, hd, hrest⟩ := List.map_eq_cons_iff.mp hnames.symm
        have hsame : some d' = some d := by rw [← ofName?_name d', hd, hfirst]
        rw [ih.mpr hrest.symm, Option.some.inj hsame]
        rfl

end Detector

/-! ### Settings -/

namespace Config

/-- Items are texts just when all of them are. -/
theorem texts?_eq_some_iff {items : List Data} {names : List String} :
    texts? items = some names ↔ items = names.map .text := by
  induction items generalizing names with
  | nil => cases names <;> simp [texts?]
  | cons item items ih =>
    cases item <;> cases names <;> simp [texts?, ih, and_comm]

/-- Items are found distinct just when no two are equal. -/
theorem isDistinct_iff {α : Type} [DecidableEq α] {xs : List α} :
    isDistinct xs = true ↔ xs.Nodup := by
  induction xs with
  | nil => simp [isDistinct]
  | cons x xs ih => simp [isDistinct, ih]

/-- Detectors are accepted when they are named in order and only once each; nothing at all stands
for all of them. -/
theorem checkDetectors_eq_accepted_iff {value : Data} {detectors : List Detector} :
    checkDetectors value = .accepted detectors ↔
      value = .null ∧ detectors = Detector.all ∨
        value = .list (detectors.map fun d => .text d.name) ∧ detectors.Nodup := by
  constructor
  · intro h
    unfold checkDetectors at h
    dsimp only at h
    split at h
    · cases h
      exact .inl ⟨rfl, rfl⟩
    · rename_i items
      cases htexts : texts? items with
      | none => simp [htexts, Checked.fault] at h
      | some names =>
        cases hnames : Detector.ofNames names with
        | error name => simp [htexts, hnames, Checked.fault] at h
        | ok named =>
          simp only [htexts, hnames] at h
          split at h
          · rename_i hdistinct
            cases h
            rw [texts?_eq_some_iff.mp htexts, Detector.ofNames_eq_ok_iff.mp hnames, List.map_map]
            exact .inr ⟨rfl, isDistinct_iff.mp hdistinct⟩
          · cases h
    · cases h
  · rintro (⟨rfl, rfl⟩ | ⟨rfl, hdistinct⟩)
    · rfl
    · have htexts : texts? (detectors.map fun d => .text d.name) =
          some (detectors.map Detector.name) := by
        rw [texts?_eq_some_iff, List.map_map]
        rfl
      have hnames : Detector.ofNames (detectors.map Detector.name) = .ok detectors :=
        Detector.ofNames_eq_ok_iff.mpr rfl
      simp only [checkDetectors, htexts, hnames]
      rw [if_pos (isDistinct_iff.mpr hdistinct)]

end Config

namespace OracleSettings

/-- A command can be run if it begins with a program whose name is not blank. -/
theorem isRunnable_iff {command : List String} :
    isRunnable command = true ↔ ∃ program arguments, command = program :: arguments ∧
      ∃ x ∈ program.toList, CharClass.isBlank x = false := by
  cases command with
  | nil => simp [isRunnable]
  | cons program arguments =>
    have hrunnable : isRunnable (program :: arguments) = true ↔ Text.trim program.toList ≠ [] := by
      simp [isRunnable]
    rw [hrunnable, ne_eq, Text.trim_eq_nil_iff]
    simp

/-- Settings of a verification command that can be used. -/
structure IsUsable (s : OracleSettings) : Prop where
  command : ∃ program arguments, s.command = program :: arguments ∧
    ∃ x ∈ program.toList, CharClass.isBlank x = false
  timeout : s.timeout.isPositive = true
  tailLines : 1 ≤ s.tailLines

/-- The default settings can be used. -/
theorem isUsable_default : IsUsable default :=
  ⟨isRunnable_iff.mp (by decide), by decide, by decide⟩

/-- Each of the settings is what the field with its name is accepted as. -/
structure IsReadFrom (fields : List (String × Data)) (s : OracleSettings) : Prop where
  command : Check.defaulting fields "command" default.command checkCommand = .accepted s.command
  timeout : Check.defaulting fields "timeout_seconds" default.timeout checkTimeout =
    .accepted s.timeout
  tailLines : Check.defaulting fields "tail_lines" default.tailLines checkTailLines =
    .accepted s.tailLines
  known : Check.onlyKnown fields fieldNames = .accepted ()

/-- Accepted settings of the oracle are read from the fields of a table. -/
theorem isReadFrom_of_check {value : Data} {s : OracleSettings} (h : check value = .accepted s) :
    ∃ fields, value = .table fields ∧ s.IsReadFrom fields := by
  obtain ⟨fields, hvalue, hfields⟩ := Check.record_eq_accepted_iff.mp h
  simp only [Checked.seq_eq_accepted_iff, Checked.functor_map_eq_accepted_iff] at hfields
  obtain ⟨_, _, ⟨_, lines, ⟨_, seconds, ⟨command, hcommand, rfl⟩, hseconds, rfl⟩, hlines, rfl⟩,
    hknown, rfl⟩ := hfields
  exact ⟨fields, hvalue, hcommand, hseconds, hlines, hknown⟩

/-- Accepted settings of a verification command can be used. -/
theorem isUsable_of_check {value : Data} {s : OracleSettings} (h : check value = .accepted s) :
    s.IsUsable := by
  obtain ⟨fields, -, hread⟩ := isReadFrom_of_check h
  constructor
  case command =>
    exact isRunnable_iff.mp (Check.holds_of_defaulting (isRunnable · = true) hread.command
      (by decide) fun _ _ h => Checked.holds_of_andThen_ite (isRunnable · = true) h)
  case timeout =>
    exact Check.holds_of_defaulting (·.isPositive = true) hread.timeout (by decide)
      fun _ _ h => Checked.holds_of_andThen_ite (Binary64.isPositive · = true) h
  case tailLines =>
    exact Check.holds_of_defaulting (1 ≤ ·) hread.tailLines (by decide)
      fun _ _ h => Checked.holds_of_andThen_ite (1 ≤ ·) h

end OracleSettings

namespace Config

/-- The detectors that some data names in a setting, in that order. Without the setting, or with
nothing in it, they are all of them. -/
def NamesDetectors (data : Data) (detectors : List Detector) : Prop :=
  ∃ fields, data = .table fields ∧
    match Data.field? fields "detectors" with
    | none | some .null => detectors = Detector.all
    | some value => value = .list (detectors.map fun d => .text d.name)

/-- Settings that a run can go by. -/
structure IsUsable (c : Config) : Prop where
  distinct : c.detectors.Nodup
  known : Detector.ofNames (c.detectors.map Detector.name) = .ok c.detectors
  oracle : c.oracle.IsUsable

/-- Accepted detectors are those that are named, each once, or the default ones. -/
theorem namesDetectors_of_defaulting {fields : List (String × Data)} {detectors : List Detector}
    (h : Check.defaulting fields "detectors" default.detectors checkDetectors =
      .accepted detectors) :
    NamesDetectors (.table fields) detectors ∧ detectors.Nodup := by
  rw [Check.defaulting_eq_accepted_iff] at h
  rcases h with ⟨hfield, rfl⟩ | ⟨value, hfield, hvalue⟩
  · refine ⟨⟨fields, rfl, ?_⟩, by decide⟩
    rw [hfield]
    rfl
  · rcases checkDetectors_eq_accepted_iff.mp hvalue with ⟨rfl, rfl⟩ | ⟨rfl, hdistinct⟩
    · refine ⟨⟨fields, rfl, ?_⟩, by decide⟩
      rw [hfield]
    · refine ⟨⟨fields, rfl, ?_⟩, hdistinct⟩
      rw [hfield]

/-- Each of the settings is what the field with its name is accepted as. -/
structure IsReadFrom (fields : List (String × Data)) (c : Config) : Prop where
  defaultGranularity : Check.defaulting fields "default_granularity" default.defaultGranularity
    (Check.named .enumeration Granularity.ofName?) = .accepted c.defaultGranularity
  detectors : Check.defaulting fields "detectors" default.detectors checkDetectors =
    .accepted c.detectors
  jobSuffixes : Check.defaulting fields "job_suffixes" default.jobSuffixes
    (Check.listOf Check.text) = .accepted c.jobSuffixes
  serviceSuffixes : Check.defaulting fields "service_suffixes" default.serviceSuffixes
    (Check.listOf Check.text) = .accepted c.serviceSuffixes
  verifyBaseline : Check.defaulting fields "verify_baseline" default.verifyBaseline Check.bool =
    .accepted c.verifyBaseline
  scratchDir : Check.defaulting fields "scratch_dir" default.scratchDir
    (Check.optional Check.text) = .accepted c.scratchDir
  oracle : Check.defaulting fields "oracle" default.oracle OracleSettings.check =
    .accepted c.oracle
  known : Check.onlyKnown fields fieldNames = .accepted ()

/-- Accepted settings are read from the fields of a table. -/
theorem isReadFrom_of_check {data : Data} {config : Config} (h : check data = .accepted config) :
    ∃ fields, data = .table fields ∧ config.IsReadFrom fields := by
  obtain ⟨fields, hdata, hfields⟩ := Check.record_eq_accepted_iff.mp h
  simp only [Checked.seq_eq_accepted_iff, Checked.functor_map_eq_accepted_iff] at hfields
  obtain ⟨_, _, ⟨_, oracle, ⟨_, scratch, ⟨_, baseline, ⟨_, services, ⟨_, jobs, ⟨_, detectors,
    ⟨granularity, hgranularity, rfl⟩, hdetectors, rfl⟩, hjobs, rfl⟩, hservices, rfl⟩, hbaseline,
    rfl⟩, hscratch, rfl⟩, horacle, rfl⟩, hknown, rfl⟩ := hfields
  exact ⟨fields, hdata, hgranularity, hdetectors, hjobs, hservices, hbaseline, hscratch, horacle,
    hknown⟩

/-- Accepted settings can be used, and their detectors are those that the data names. -/
theorem isUsable_of_check {data : Data} {config : Config} (h : check data = .accepted config) :
    config.IsUsable ∧ NamesDetectors data config.detectors := by
  obtain ⟨fields, rfl, hread⟩ := isReadFrom_of_check h
  obtain ⟨hnames, hdistinct⟩ := namesDetectors_of_defaulting hread.detectors
  have husable : config.oracle.IsUsable :=
    Check.holds_of_defaulting OracleSettings.IsUsable hread.oracle OracleSettings.isUsable_default
      fun _ _ => OracleSettings.isUsable_of_check
  exact ⟨⟨hdistinct, Detector.ofNames_eq_ok_iff.mpr rfl, husable⟩, hnames⟩

end Config

/-! ### Evidence -/

/-- Evidence bears the name of its detector. -/
theorem Detector.signalName_detect (d : Detector) (suffixes : Suffixes) (t : SpecText)
    (site : CallSite) : (d.detect suffixes t site).signalName = d.name := by
  unfold detect
  split <;> rfl

/-- A decision keeps its evidence. -/
theorem Decision.evidence_decide (g : Granularity) (site : CallSite) (evidence : List Evidence) :
    (Decision.decide g site evidence).evidence = evidence := by
  unfold Decision.decide
  split <;> rfl

/-- The evidence that is due about a site: one record under the name of each detector, in order,
or one unmatched record that says why the site could not be read. -/
def CallSite.IsExaminedBy (detectors : List Detector) (site : CallSite)
    (evidence : List Evidence) : Prop :=
  match site.fault with
  | none => evidence.map (·.signalName) = detectors.map Detector.name
  | some fault => evidence = [⟨Evidence.faultSignal, false, fault.message⟩]

/-- Every detector looks at the site, in order. -/
theorem CallSite.isExaminedBy_collect (detectors : List Detector) (suffixes : Suffixes)
    (t : SpecText) (site : CallSite) :
    site.IsExaminedBy detectors (Evidence.collect detectors suffixes t site) := by
  unfold IsExaminedBy Evidence.collect
  cases site.fault with
  | some fault => rfl
  | none =>
    rw [List.map_map]
    exact List.map_congr_left fun d _ => d.signalName_detect suffixes t site

/-- With accepted settings every text has a plan, and its decisions carry the evidence that is due
about each call, from the detectors that the settings were written with. -/
theorem Config.exists_plan_of_check {data : Data} {config : Config}
    (h : check data = .accepted config) :
    config.IsUsable ∧ NamesDetectors data config.detectors ∧
      ∀ text granularity, ∃ plan, Plan.ofText text granularity config = .ok plan ∧
        plan.analysis.sites = CallSite.extract text ∧
        List.Forall₂ (fun site d => d.siteId = site.id ∧
            site.IsExaminedBy config.detectors d.evidence)
          plan.analysis.sites plan.analysis.decisions := by
  obtain ⟨husable, hnames⟩ := isUsable_of_check h
  refine ⟨husable, hnames, fun text granularity =>
    ⟨_, Plan.ofText_eq text granularity config, rfl, ?_⟩⟩
  rw [Analysis.sites_ofText, Analysis.decisions_ofText, List.forall₂_map_right_iff,
    List.forall₂_same]
  intro site _
  rw [Analysis.decisionOn, Decision.siteId_decide, Decision.evidence_decide]
  exact ⟨rfl, site.isExaminedBy_collect _ _ _⟩

/-- Settings with two detectors out of their usual order, an ending with signs of its own meaning in
a pattern, a time limit given as a truth value and a number of lines given as a text. -/
def Config.sample : Data :=
  .table [("detectors", .list [.text "query_dependency", .text "persistence_accessor"]),
    ("service_suffixes", .list [.text "(.*"]), ("scratch_dir", .null),
    ("oracle", .table [("command", .list [.text "rspec"]), ("timeout_seconds", .bool true),
      ("tail_lines", .text " +07 ")])]

/-- Settings with two detectors, given in another order than the default. -/
theorem Config.exists_plan_of_check_sample :
    ∃ config, check sample = .accepted config ∧ config.IsUsable ∧
      NamesDetectors sample [.queryDependency, .persistenceAccessor] ∧
      ∃ plan, Plan.ofText "user = create(:user)".toList none config = .ok plan := by
  have hcheck : check sample = .accepted ⟨.integration, [.queryDependency, .persistenceAccessor],
      [], ["(.*"], false, none, ⟨["rspec"], .ofInt 1, 7⟩⟩ := rfl
  obtain ⟨husable, hnames, hplan⟩ := exists_plan_of_check hcheck
  obtain ⟨plan, hplan, -⟩ := hplan "user = create(:user)".toList none
  exact ⟨_, hcheck, husable, hnames, plan, hplan⟩

end FactoryDowngrade
