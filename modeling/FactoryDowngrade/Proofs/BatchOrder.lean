import FactoryDowngrade.CommandLine.Session
import FactoryDowngrade.Proofs.BatchStage

/-!
# Files of a batch do not get in each other's way

Each file of a batch comes to what it comes to alone, in whatever order the files have their turns,
as long as they are different files and the commands that judge them keep to their scratch
directories. So the lines about the files and the exit status do not depend on the order either: the
lines are told in the order of the arguments, and the status tells whether each file alone could be
dealt with.
-/

namespace FactoryDowngrade

open PathName

namespace CommandLine.Batch

variable {τ : Type}

/-- The files of a batch have nothing to do with each other. They are at different places, and which
of them can be read does not depend on whether the root of scratch directories is made. There are
names enough for scratch directories, and none of them is taken. And what the command makes of a
file depends on the scratch directory and on all files but the other ones of the batch, and touches
only the scratch directory. -/
structure AreSeparate (verify : PathName → Verifier τ) (behave : PathName → Behaviour)
    (root : Option PathName) (w : World) (files : List PathName) : Prop where
  places : (files.map (resolve w.cwd)).Nodup
  reads : ∀ p ∈ files, (Scratch.provideRoot root w).2.read p = w.read p
  names : w.scratch.length + files.length ≤ 16 ^ 8
  untaken : ∀ p ∈ files, ∀ count < w.scratch.length + files.length,
    (FileTree.find (Scratch.provideRoot root w).2.tree w.cwd
      ((root.getD Scratch.systemDirectory).child
        (Scratch.directoryName p.name count))).isOk = false
  confined : ∀ p ∈ files, (verify p).Behaves
    (World.KeepsBut ((files.erase p).map (resolve w.cwd)) w) (behave p)

/-! ### One file of a batch -/

section Run

variable {verify : PathName → Verifier τ} {behave : PathName → Behaviour}
  {weather : PathName → WriteBack.Weather} {root : Option PathName}
  {granularity : Option Text} {config : Config} {w : World} {files : List PathName}
  {touched : List (List String)} {p : PathName} {s : World × τ}

/-- What a file comes to that can be read has the same text, status and decisions at each stage. -/
theorem IsStage.exists_run_readable (hseparate : AreSeparate verify behave root w files)
    (hp : p ∈ files) (h : IsStage root w touched s.1) (hcount : touched.length < files.length)
    (hothers : touched ⊆ (files.erase p).map (resolve w.cwd)) (hread : s.1.read p = w.read p)
    {text : Text} (htext : OptimizeFile.readText w p = .ok text) :
    ∃ result after,
      OptimizeFile.run (verify p) (weather p) root p granularity config s = (.ok result, after) ∧
      result.plain = Optimize.settled text granularity config
        (OptimizeFile.statusIn (behave p) (weather p) root p granularity config text w) ∧
      after.1.read p = .ok (Utf8.encode result.text) ∧ s.1.IsAfterRun root p after.1 := by
  have hscratch := h.scratch
  have hnames := hseparate.names
  have htext' : OptimizeFile.readText s.1 p = .ok text := by
    rwa [OptimizeFile.readText, hread]
  rw [← h.statusIn (by omega) (by omega)]
  exact OptimizeFile.exists_run_readable htext' (hseparate.confined p hp)
    (fun base u dir entries htree hcwd hhosts => h.keepsBut_of_hosts hothers htree hcwd hhosts)
    (h.isUntaken (hseparate.untaken p hp _ (by omega))) _ _ _

/-- The places of files that had their turn are places of other files. -/
theorem subset_others (htouched : touched ⊆ files.map (resolve w.cwd))
    (hnew : resolve w.cwd p ∉ touched) : touched ⊆ (files.erase p).map (resolve w.cwd) := by
  intro place hplace
  obtain ⟨q, hq, rfl⟩ := List.mem_map.mp (htouched hplace)
  refine List.mem_map.mpr ⟨q, (List.mem_erase_of_ne ?_).mpr hq, rfl⟩
  rintro rfl
  exact hnew hplace

/-- A file comes to the same at each stage as alone, and can still be read if it could be. -/
theorem IsStage.run (hseparate : AreSeparate verify behave root w files) (hp : p ∈ files)
    (h : IsStage root w touched s.1) (hcount : touched.length < files.length)
    (htouched : touched ⊆ files.map (resolve w.cwd)) (hnew : resolve w.cwd p ∉ touched) (u : τ) :
    let ran := OptimizeFile.run (verify p) (weather p) root p granularity config s
    let alone := OptimizeFile.run (verify p) (weather p) root p granularity config (w, u)
    ran.1.map OptimizeResult.plain = alone.1.map OptimizeResult.plain ∧
      ran.2.1.read p = alone.2.1.read p ∧ s.1.IsAfterRun root p ran.2.1 ∧
      ∀ fault, ran.2.1.read p = .error fault → w.read p = .error fault := by
  have hread := h.read_eq (hseparate.reads p hp) hnew
  cases htext : OptimizeFile.readText w p with
  | error fault =>
    have htext' : OptimizeFile.readText s.1 p = .error fault := by
      rwa [OptimizeFile.readText, hread]
    simp only [OptimizeFile.run, htext, htext']
    exact ⟨trivial, hread, .refl root p s.1, fun _ herror => hread.symm.trans herror⟩
  | ok text =>
    obtain ⟨result, after, hrun, hplain, hcontent, hleft⟩ := h.exists_run_readable hseparate hp
      hcount (subset_others htouched hnew) hread htext
    obtain ⟨lone, afterLone, hrunLone, hplainLone, hcontentLone, -⟩ :=
      @IsStage.exists_run_readable _ _ _ weather _ granularity config _ _ [] p (w, u) hseparate hp
        (.refl root w) (Nat.zero_lt_of_lt hcount) (List.nil_subset _) rfl text htext
    rw [hrun, hrunLone]
    have hsame : result.plain = lone.plain := hplain.trans hplainLone.symm
    have htexts : result.plain.text = lone.plain.text := by rw [hsame]
    refine ⟨congrArg Except.ok hsame, ?_, hleft, fun fault herror => ?_⟩
    · rw [hcontent, hcontentLone]
      exact congrArg (fun text => Except.ok (Utf8.encode text)) htexts
    · rw [hcontent] at herror
      cases herror

end Run

/-! ### All files of a batch -/

section Batch

variable {verify : PathName → Verifier τ} {behave : PathName → Behaviour}
  {weather : PathName → WriteBack.Weather} {root : Option PathName}
  {granularity : Option Text} {config : Config} {w : World} {files order : List PathName}
  {touched : List (List String)} {s : World × τ}

/-- What a file comes to alone. -/
def alone (verify : PathName → Verifier τ) (weather : PathName → WriteBack.Weather)
    (root : Option PathName) (granularity : Option Text) (config : Config) (s : World × τ)
    (p : PathName) : Outcome × (World × τ) :=
  OptimizeFile.run (verify p) (weather p) root p granularity config s

/-- A file and what it came to, without what was said about its trial. -/
def plainly (told : PathName × Outcome) : PathName × Outcome :=
  (told.1, told.2.map OptimizeResult.plain)

/-- From a stage on, the files that have their turn each come to what they come to alone, and all
other files are left as they are. -/
theorem IsStage.runAll (hseparate : AreSeparate verify behave root w files)
    (h : IsStage root w touched s.1) (horder : order ⊆ files)
    (htouched : touched ⊆ files.map (resolve w.cwd))
    (hplaces : (order.map (resolve w.cwd) ++ touched).Nodup)
    (hcount : order.length + touched.length ≤ files.length) (u : τ) :
    let batch := Batch.runAll verify weather root granularity config order s
    batch.1.map plainly = order.map (fun p =>
        plainly (p, (alone verify weather root granularity config (w, u) p).1)) ∧
      (∀ p ∈ order, batch.2.1.read p =
        (alone verify weather root granularity config (w, u) p).2.1.read p) ∧
      (∀ q bytes, resolve w.cwd q ∉ order.map (resolve w.cwd) → s.1.read q = .ok bytes →
        batch.2.1.read q = .ok bytes) ∧
      ∃ touched, IsStage root w touched batch.2.1 := by
  induction order generalizing touched s with
  | nil => exact ⟨rfl, nofun, fun q bytes _ hread => hread, touched, h⟩
  | cons p order ih =>
    obtain ⟨hp, hrest⟩ := List.cons_subset.mp horder
    rw [List.map_cons, List.cons_append] at hplaces
    rw [List.length_cons] at hcount
    have hfirst := (List.nodup_cons.mp hplaces).1
    have hnew : resolve w.cwd p ∉ touched := fun hin => hfirst (List.mem_append_right _ hin)
    obtain ⟨hplain, hread, hleft, herror⟩ :=
      @IsStage.run _ _ _ weather _ granularity config _ _ _ _ _ hseparate hp h (by omega) htouched
        hnew u
    obtain ⟨hplainRest, hreadRest, hkept, hend⟩ :=
      ih (h.step hleft) hrest (List.cons_subset.mpr ⟨List.mem_map_of_mem hp, htouched⟩)
        (List.nodup_middle.mpr hplaces) (by rw [List.length_cons]; omega)
    unfold Batch.runAll
    refine ⟨?_, ?_, ?_, hend⟩
    · exact congrArg₂ List.cons (congrArg (Prod.mk p) hplain) hplainRest
    · intro q hq
      rcases List.mem_cons.mp hq with rfl | hq
      · -- the file keeps what its own run has left in it
        obtain ⟨end_, hstage⟩ := hend
        refine Eq.trans ?_ hread
        cases hown : (OptimizeFile.run (verify q) (weather q) root q granularity config
            s).2.1.read q with
        | ok bytes => exact hkept q bytes (fun hin => hfirst (List.mem_append_left _ hin)) hown
        | error fault => exact hstage.read_eq_error (hseparate.reads q hp) (herror fault hown)
      · exact hreadRest q hq
    · intro q bytes hq hbytes
      rw [List.map_cons, List.mem_cons, not_or] at hq
      rw [← h.cwd] at hq
      exact hkept q bytes (h.cwd ▸ hq.2) (hleft.kept hq.1 hbytes)

/-- What a file comes to alone: nothing if it cannot be read or decoded, and a result if it can. -/
theorem alone_cases (hseparate : AreSeparate verify behave root w files) {p : PathName}
    (hp : p ∈ files) (u : τ) :
    (∃ fault, OptimizeFile.readText w p = .error fault ∧
      (alone verify weather root granularity config (w, u) p).1 = .error fault) ∨
    ∃ text result, OptimizeFile.readText w p = .ok text ∧
      (alone verify weather root granularity config (w, u) p).1 = .ok result := by
  cases htext : OptimizeFile.readText w p with
  | error fault =>
    refine .inl ⟨fault, rfl, ?_⟩
    simp only [alone, OptimizeFile.run, htext]
  | ok text =>
    obtain ⟨result, after, hrun, -⟩ :=
      @IsStage.exists_run_readable _ _ _ weather _ granularity config _ _ [] p (w, u) hseparate hp
        (.refl root w) (List.length_pos_of_mem hp) (List.nil_subset _) rfl text htext
    exact .inr ⟨text, result, rfl, by rw [alone, hrun]⟩

end Batch

/-! ### What is told of a batch -/

/-- A line of the output says nothing about the trial. -/
theorem statusLine_plain (p : PathName) (outcome : Outcome) :
    statusLine p (outcome.map OptimizeResult.plain) = statusLine p outcome := by
  cases outcome with
  | error fault => rfl
  | ok result => rfl

/-- Nor does the verdict on a file depend on what was said about it. -/
theorem isFine_plain (outcome : Outcome) :
    isFine (outcome.map OptimizeResult.plain) = isFine outcome := by
  cases outcome with
  | error fault => rfl
  | ok result => rfl

/-- The outcomes of files in the order of the files. -/
def gather (files : List PathName) (outcomes : List (PathName × Outcome)) :
    List (PathName × Outcome) :=
  files.filterMap fun p => (outcomes.lookup p).map fun outcome => (p, outcome)

section Gather

variable {files order : List PathName} {outcomes : List (PathName × Outcome)}

/-- A file is gathered with its outcome, and nothing else is. -/
theorem mem_gather {told : PathName × Outcome} :
    told ∈ gather files outcomes ↔ told.1 ∈ files ∧ outcomes.lookup told.1 = some told.2 := by
  obtain ⟨p, outcome⟩ := told
  simp only [gather, List.mem_filterMap, Option.map_eq_some_iff]
  constructor
  · rintro ⟨q, hq, found, hfound, hsame⟩
    cases hsame
    exact ⟨hq, hfound⟩
  · rintro ⟨hp, hfound⟩
    exact ⟨p, hp, outcome, hfound, rfl⟩

/-- The files that have outcomes are gathered in their order. -/
theorem map_fst_gather (h : ∀ p ∈ files, ∃ outcome, outcomes.lookup p = some outcome) :
    (gather files outcomes).map (·.1) = files := by
  induction files with
  | nil => rfl
  | cons p files ih =>
    obtain ⟨outcome, houtcome⟩ := h p List.mem_cons_self
    have hrest := ih fun q hq => h q (List.mem_cons_of_mem p hq)
    rw [gather] at hrest ⊢
    rw [List.filterMap_cons, houtcome]
    exact congrArg (List.cons p) hrest

/-- Outcomes that are in order already stay in it. -/
theorem gather_self (h : (outcomes.map (·.1)).Nodup) :
    gather (outcomes.map (·.1)) outcomes = outcomes := by
  induction outcomes with
  | nil => rfl
  | cons told outcomes ih =>
    obtain ⟨p, outcome⟩ := told
    obtain ⟨hnew, hrest⟩ := List.nodup_cons.mp h
    have hlookup : ∀ q ∈ outcomes.map (·.1),
        ((p, outcome) :: outcomes).lookup q = outcomes.lookup q := by
      intro q hq
      have hne : q ≠ p := by
        rintro rfl
        exact hnew hq
      simp [List.lookup_cons, beq_eq_false_iff_ne.mpr hne]
    have htail : (outcomes.map (·.1)).filterMap (fun q =>
        (((p, outcome) :: outcomes).lookup q).map fun found => (q, found)) = outcomes := by
      refine Eq.trans (List.filterMap_congr fun q hq => ?_) (ih hrest)
      rw [hlookup q hq]
    rw [gather, List.map_cons, List.filterMap_cons, htail]
    simp

/-- Each file that had its turn has the outcome that it has alone. -/
theorem exists_lookup {lone : PathName → Outcome}
    (h : outcomes.map plainly = order.map fun p => plainly (p, lone p)) {p : PathName}
    (hp : p ∈ order) : ∃ outcome, outcomes.lookup p = some outcome ∧
      outcome.map OptimizeResult.plain = (lone p).map OptimizeResult.plain := by
  induction order generalizing outcomes with
  | nil => cases hp
  | cons q order ih =>
    cases outcomes with
    | nil => cases h
    | cons told outcomes =>
      obtain ⟨r, outcome⟩ := told
      obtain ⟨hfirst, hrest⟩ := List.cons.inj h
      obtain ⟨rfl, houtcome⟩ := Prod.mk.inj hfirst
      by_cases hsame : p = r
      · subst hsame
        exact ⟨outcome, by simp, houtcome⟩
      · obtain ⟨found, hfound, hplain⟩ := ih hrest ((List.mem_cons.mp hp).resolve_left hsame)
        refine ⟨found, ?_, hplain⟩
        simpa [List.lookup_cons, beq_eq_false_iff_ne.mpr hsame] using hfound

end Gather

/-- A file that cannot be read is no fault of its text. -/
theorem readText_ne_text (w : World) (p : PathName) (fault : OptimizeFault) :
    OptimizeFile.readText w p ≠ .error (.text fault) := by
  unfold OptimizeFile.readText
  cases w.read p with
  | error cause => simp
  | ok bytes =>
    dsimp only
    cases Utf8.decode bytes <;> simp [Except.mapError]

section Independence

variable {verify : PathName → Verifier τ} {behave : PathName → Behaviour}
  {weather : PathName → WriteBack.Weather} {root : Option PathName}
  {granularity : Option Text} {config : Config} {w : World} {files order : List PathName}

/-- A file that cannot be dealt with alone cannot be read or decoded, or its report is an error. -/
theorem isFine_alone_iff (hseparate : AreSeparate verify behave root w files) {p : PathName}
    (hp : p ∈ files) (u : τ) :
    isFine (alone verify weather root granularity config (w, u) p).1 = false ↔
      (∃ fault, OptimizeFile.readText w p = .error fault) ∨
      ∃ result, (alone verify weather root granularity config (w, u) p).1 = .ok result ∧
        result.report.outcome.status = .error := by
  rcases @alone_cases _ _ _ weather _ granularity config _ _ hseparate p hp u with
    ⟨fault, htext, hlone⟩ | ⟨text, result, htext, hlone⟩
  · rw [hlone, htext]
    simp [isFine]
  · rw [hlone, htext]
    simp [isFine]

/-- A file that comes to what it comes to alone does not end the program. -/
theorem ne_text_of_plain_eq (hseparate : AreSeparate verify behave root w files) {p : PathName}
    (hp : p ∈ files) (u : τ) {outcome : Outcome}
    (hsame : outcome.map OptimizeResult.plain =
      (alone verify weather root granularity config (w, u) p).1.map OptimizeResult.plain)
    (cause : OptimizeFault) : outcome ≠ .error (.text cause) := by
  rintro rfl
  rcases @alone_cases _ _ _ weather _ granularity config _ _ hseparate p hp u with
    ⟨fault, htext, hlone⟩ | ⟨text, result, -, hlone⟩
  · rw [hlone] at hsame
    cases hsame
    exact readText_ne_text w p cause htext
  · rw [hlone] at hsame
    cases hsame

/-- Nothing escapes from a batch in which no text is at fault. -/
theorem escape?_eq_none {told : List (PathName × Outcome)}
    (h : ∀ x ∈ told, ∀ cause, x.2 ≠ .error (.text cause)) : escape? told = none := by
  refine List.findSome?_eq_none_iff.mpr fun x hx => ?_
  have hx := h x hx
  obtain ⟨p, outcome⟩ := x
  cases outcome with
  | ok result => rfl
  | error fault =>
    cases fault with
    | unreadable cause => rfl
    | encoding cause => rfl
    | text cause => exact absurd rfl (hx cause)

/-- The exit status is two if some file did not come out fine, and zero otherwise. -/
theorem statusOf_cases (outcomes : List Outcome) :
    (statusOf outcomes = 0 ∨ statusOf outcomes = 2) ∧
      (statusOf outcomes = 2 ↔ ∃ outcome ∈ outcomes, isFine outcome = false) := by
  unfold statusOf
  split
  · rename_i hall
    exact ⟨.inl rfl, by simpa using hall⟩
  · rename_i hall
    exact ⟨.inr rfl, by simpa using hall⟩

/-- Nothing keeps the program from telling of files that came to what they come to alone, and its
exit status tells whether each of them could be dealt with. -/
theorem conclude_eq (hseparate : AreSeparate verify behave root w files) (u : τ)
    {told : List (PathName × Outcome)} (hnames : told.map (·.1) = files)
    (htold : ∀ x ∈ told, x.2.map OptimizeResult.plain =
      (alone verify weather root granularity config (w, u) x.1).1.map OptimizeResult.plain)
    (verbose : Bool) (project : List String) (v : World) :
    ∃ status, conclude verbose project none told v =
        (.ok ⟨status, "", logLines verbose v ++
          String.join (told.map fun x => statusLine x.1 x.2 ++ faultLines x.2)⟩, v) ∧
      (status = 0 ∨ status = 2) ∧
      (status = 2 ↔ ∃ p ∈ files,
        isFine (alone verify weather root granularity config (w, u) p).1 = false) := by
  have hescape : escape? told = none := escape?_eq_none fun x hx =>
    ne_text_of_plain_eq hseparate (hnames ▸ List.mem_map_of_mem hx) u (htold x hx)
  obtain ⟨hrange, hstatus⟩ := statusOf_cases (told.map (·.2))
  refine ⟨statusOf (told.map (·.2)), by rw [conclude, hescape]; rfl, hrange, hstatus.trans ?_⟩
  simp only [← hnames, List.mem_map, exists_exists_and_eq_and]
  refine exists_congr fun x => and_congr_right fun hx => ?_
  rw [← isFine_plain, htold x hx, isFine_plain]

/-- A batch has one outcome for each file, in the order of the files. -/
theorem map_fst_runAll (verify : PathName → Verifier τ) (weather : PathName → WriteBack.Weather)
    (root : Option PathName) (granularity : Option Text) (config : Config) (files : List PathName)
    (s : World × τ) :
    (runAll verify weather root granularity config files s).1.map (·.1) = files := by
  induction files generalizing s with
  | nil => rfl
  | cons p files ih => exact congrArg (List.cons p) (ih _)

/-- The program gives the files their turns in the order of the arguments. -/
theorem perform_eq_conclude {arguments : Arguments} {paths : List String}
    {timeout : Option Binary64} {jobs : Int} {command : Option (List String)}
    {project : List String} {scratchRoot : Option (List String)}
    (harguments : arguments.order = .optimize paths timeout jobs none command)
    (hsettings : settings timeout jobs command project w = .ok (config, scratchRoot))
    (hpaths : (paths.map PathName.ofString).Nodup) :
    let oracle := Oracle.ofConfig config project (command.getD []) (timeout.map .exact)
    let batch := runAll (fun _ => oracle.verify) (fun _ => WriteBack.fair)
      (scratchRoot.map .absolute) (arguments.granularity.map String.toList) config
      (paths.map .ofString) (w, ())
    perform arguments project w =
      conclude arguments.verbose project none (gather (paths.map .ofString) batch.1) batch.2.1 := by
  intro oracle batch
  have hnames : batch.1.map (·.1) = paths.map .ofString := map_fst_runAll _ _ _ _ _ _ _
  rw [← hnames, gather_self (hnames ▸ hpaths), perform, harguments]
  simp only [hsettings]
  rfl

/-- Settings that cannot be used end the program before any file is touched. -/
theorem perform_of_configFault {arguments : Arguments} {paths : List String}
    {timeout : Option Binary64} {jobs : Int} {reportDir : Option String}
    {command : Option (List String)} {project : List String} {fault : ConfigFault}
    (harguments : arguments.order = .optimize paths timeout jobs reportDir command)
    (hfault : checkOptions timeout jobs command = .error fault ∨
      checkOptions timeout jobs command = .ok () ∧
        (ConfigFile.load w project = .error (.config fault) ∨
          ∃ config, ConfigFile.load w project = .ok config ∧
            ConfigFile.scratchDirectory project config.scratchDir = .error fault)) :
    perform arguments project w = (.ok (refuse fault), w) := by
  have hsettings : settings timeout jobs command project w = .error (.config fault) := by
    rcases hfault with hoptions | ⟨hoptions, hload | ⟨config, hload, hscratch⟩⟩
    · rw [settings, hoptions]
    · rw [settings, hoptions]
      simp only [hload]
    · rw [settings, hoptions]
      simp only [hload, hscratch]
  rw [perform, harguments]
  simp only [hsettings, refuseFile]

/-- What holds of the files of a batch and of what is told of them, beside what they come to alone
from some state. -/
structure AreAsAlone (verify : PathName → Verifier τ) (weather : PathName → WriteBack.Weather)
    (root : Option PathName) (granularity : Option Text) (config : Config) (s : World × τ)
    (files : List PathName) (verbose : Bool) (project : List String)
    (batch : List (PathName × Outcome) × (World × τ)) : Prop where
  /-- Each file has the bytes that it has alone. -/
  bytes : ∀ p ∈ files, batch.2.1.read p =
    (alone verify weather root granularity config s p).2.1.read p
  /-- The files are told of in the order of the arguments. -/
  names : (gather files batch.1).map (·.1) = files
  /-- The line about each file is the one that it has alone. -/
  lines : ∀ x ∈ gather files batch.1,
    statusLine x.1 x.2 = statusLine x.1 (alone verify weather root granularity config s x.1).1
  /-- The lines are printed, each with what went wrong below it, and the exit status is 2 exactly if
  a file cannot be read or decoded or its report is an error. -/
  finish : ∃ status, conclude verbose project none (gather files batch.1) batch.2.1 =
      (.ok ⟨status, "", logLines verbose batch.2.1 ++
        String.join ((gather files batch.1).map fun x => statusLine x.1 x.2 ++ faultLines x.2)⟩,
        batch.2.1) ∧
    (status = 0 ∨ status = 2) ∧
    (status = 2 ↔ ∃ p ∈ files, (∃ fault, OptimizeFile.readText s.1 p = .error fault) ∨
      ∃ result, (alone verify weather root granularity config s p).1 = .ok result ∧
        result.report.outcome.status = .error)

/-- The files of a batch that have nothing to do with each other come to what they come to alone, in
whatever order they have their turns. The program gives them their turns in the order of its
arguments. Settings that cannot be used, as options or in the configuration file, end it with the
status 1 and leave everything as it is. -/
theorem runAll_areAsAlone (verify : PathName → Verifier τ) (behave : PathName → Behaviour)
    (weather : PathName → WriteBack.Weather) (root : Option PathName) (granularity : Option Text)
    (config : Config) (w : World) (u : τ) (files order : List PathName)
    (hseparate : AreSeparate verify behave root w files) (horder : order.Perm files)
    (verbose : Bool) (project : List String) :
    AreAsAlone verify weather root granularity config (w, u) files verbose project
      (runAll verify weather root granularity config order (w, u)) ∧
    (∀ (arguments : Arguments) paths timeout jobs command (project : List String) (w : World) config
        scratchRoot,
      arguments.order = .optimize paths timeout jobs none command →
      settings timeout jobs command project w = .ok (config, scratchRoot) →
      (paths.map PathName.ofString).Nodup →
      let oracle := Oracle.ofConfig config project (command.getD []) (timeout.map .exact)
      let batch := runAll (fun _ => oracle.verify) (fun _ => WriteBack.fair)
        (scratchRoot.map .absolute) (arguments.granularity.map String.toList) config
        (paths.map .ofString) (w, ())
      perform arguments project w = conclude arguments.verbose project none
        (gather (paths.map .ofString) batch.1) batch.2.1) ∧
    (∀ (arguments : Arguments) paths timeout jobs reportDir command (project : List String)
        (w : World) fault,
      arguments.order = .optimize paths timeout jobs reportDir command →
      (checkOptions timeout jobs command = .error fault ∨
        checkOptions timeout jobs command = .ok () ∧
          (ConfigFile.load w project = .error (.config fault) ∨
            ∃ config, ConfigFile.load w project = .ok config ∧
              ConfigFile.scratchDirectory project config.scratchDir = .error fault)) →
      perform arguments project w = (.ok ⟨1, "", s!"error: {fault.message}\n"⟩, w)) := by
  have hnodup : (order.map (resolve w.cwd)).Nodup :=
    (horder.map _).nodup_iff.mpr hseparate.places
  obtain ⟨hplain, hread, -⟩ := @IsStage.runAll _ _ _ weather _ granularity config _ _ order []
    (w, u) hseparate (.refl root w) horder.subset (List.nil_subset _) (by simpa using hnodup)
    (by simp [horder.length_eq]) u
  -- of the batch only its outcomes matter, and what can be read after it
  generalize runAll verify weather root granularity config order (w, u) = batch at hplain hread
  have hfound : ∀ p ∈ files, ∃ outcome, batch.1.lookup p = some outcome ∧
      outcome.map OptimizeResult.plain =
        (alone verify weather root granularity config (w, u) p).1.map OptimizeResult.plain :=
    fun p hp => exists_lookup hplain (horder.mem_iff.mpr hp)
  have htold : ∀ x ∈ gather files batch.1, x.2.map OptimizeResult.plain =
      (alone verify weather root granularity config (w, u) x.1).1.map OptimizeResult.plain := by
    intro x hx
    obtain ⟨hp, hlookup⟩ := mem_gather.mp hx
    obtain ⟨outcome, houtcome, hsame⟩ := hfound x.1 hp
    obtain rfl : outcome = x.2 := Option.some.inj (houtcome.symm.trans hlookup)
    exact hsame
  have hnames : (gather files batch.1).map (·.1) = files :=
    map_fst_gather fun p hp => (hfound p hp).imp fun _ h => h.1
  refine ⟨{
    bytes := fun p hp => hread p (horder.mem_iff.mpr hp)
    names := hnames
    lines := fun x hx => by rw [← statusLine_plain, htold x hx, statusLine_plain]
    finish := ?_ }, fun _ _ _ _ _ _ _ _ _ => perform_eq_conclude,
    fun _ _ _ _ _ _ _ _ _ => perform_of_configFault⟩
  obtain ⟨status, hconclude, hrange, hstatus⟩ :=
    conclude_eq hseparate u hnames htold verbose project batch.2.1
  refine ⟨status, hconclude, hrange, hstatus.trans ?_⟩
  exact exists_congr fun p => and_congr_right fun hp => isFine_alone_iff hseparate hp u

end Independence

/-! ### Two specs -/

/-- A project with two specs, seen from its own directory. -/
def twoSpecs : World :=
  .start (.dir [("proj", .dir [
    ("a_spec.rb", .file (Utf8.encode "create(:a)".toList) false),
    ("b_spec.rb", .file (Utf8.encode "create(:b)".toList) false)])]) ["proj"]

/-- Its scratch directories. -/
def projectScratch : PathName :=
  .absolute ["proj", "tmp"]

/-- A command under which every text passes leaves its directory as it is. -/
theorem behaves_approving (Around : World → Prop) :
    OptimizeFile.approving.Behaves Around fun _ entries => (some true, entries) where
  answer _ _ := rfl
  left {dir file entries s} _ here := by
    refine ⟨s.1.log, ?_⟩
    rw [Node.put_of_get (FileTree.find_eq_ok_iff.mp here).2]
    rfl
  sound _ _ _ := nofun

/-- Two specs in the other order. -/
theorem runAll_areAsAlone_twoSpecs :
    AreSeparate (fun _ => OptimizeFile.approving) (fun _ _ entries => (some true, entries))
      (some projectScratch) twoSpecs [⟨0, ["a_spec.rb"]⟩, ⟨0, ["b_spec.rb"]⟩] ∧
    [⟨0, ["b_spec.rb"]⟩, ⟨0, ["a_spec.rb"]⟩].Perm
      [(⟨0, ["a_spec.rb"]⟩ : PathName), ⟨0, ["b_spec.rb"]⟩] ∧
    AreAsAlone (fun _ => OptimizeFile.approving) (fun _ => WriteBack.fair) (some projectScratch)
      (some "unit".toList) .default (twoSpecs, ()) [⟨0, ["a_spec.rb"]⟩, ⟨0, ["b_spec.rb"]⟩] false
      ["proj"] (runAll (fun _ => OptimizeFile.approving) (fun _ => WriteBack.fair)
        (some projectScratch) (some "unit".toList) .default
        [⟨0, ["b_spec.rb"]⟩, ⟨0, ["a_spec.rb"]⟩] (twoSpecs, ())) ∧
    perform ⟨false, none, "proj", .optimize ["a_spec.rb"] none 0 none none⟩ ["proj"] twoSpecs =
      (.ok ⟨1, "", s!"error: {ConfigFault.tooFewJobs.message}\n"⟩, twoSpecs) := by
  have hseparate : AreSeparate (fun _ => OptimizeFile.approving)
      (fun _ _ entries => (some true, entries)) (some projectScratch) twoSpecs
      [⟨0, ["a_spec.rb"]⟩, ⟨0, ["b_spec.rb"]⟩] := {
    places := by decide
    reads := by decide
    names := by decide
    untaken := by decide
    confined := fun _ _ => behaves_approving _ }
  obtain ⟨halone, -, hconfig⟩ := runAll_areAsAlone (fun _ => OptimizeFile.approving) _
    (fun _ => WriteBack.fair) (some projectScratch) (some "unit".toList) .default twoSpecs () _ _
    hseparate (List.Perm.swap _ _ _) false ["proj"]
  exact ⟨hseparate, List.Perm.swap _ _ _, halone, hconfig _ _ _ _ _ _ _ _ _ rfl (.inl rfl)⟩

/-- A batch of files of the project. -/
def batchOf (verify : PathName → Verifier Unit) (files : List PathName) :
    List (PathName × Outcome) × (World × Unit) :=
  runAll verify (fun _ => WriteBack.fair) (some projectScratch) (some "unit".toList)
    OptimizeFile.undetecting files (twoSpecs, ())

/-- The lines about the files of a batch. -/
def linesOf (verify : PathName → Verifier Unit) (files : List PathName) : List String :=
  (batchOf verify files).1.map fun x => statusLine x.1 x.2

/-- A command under which a text passes as long as the second spec is as it was. -/
def prying : Verifier Unit := fun _ s =>
  (.ok ⟨if s.1.read ⟨0, ["b_spec.rb"]⟩ = twoSpecs.read ⟨0, ["b_spec.rb"]⟩ then .passed else .failed,
    some 0, .ofInt 0, [], []⟩, s)

/-- Different paths alone do not keep files apart. A path through the scratch directory can be read
once it is made for another file; two paths may lead to one file; a command may look at another
file; and one with settings that no machine can hold ends the program. -/
theorem linesOf_ne_alone :
    (linesOf (fun _ => OptimizeFile.approving)
        [⟨0, ["a_spec.rb"]⟩, ⟨0, ["tmp", "..", "b_spec.rb"]⟩] =
      ["a_spec.rb: optimized (1/1 applied, granularity=unit)\n",
        "tmp/../b_spec.rb: optimized (1/1 applied, granularity=unit)\n"] ∧
    linesOf (fun _ => OptimizeFile.approving) [⟨0, ["tmp", "..", "b_spec.rb"]⟩] =
      [faultLine ⟨0, ["tmp", "..", "b_spec.rb"]⟩
        (OsFault.on "tmp/../b_spec.rb" .noEntry).message]) ∧
    (linesOf (fun _ => OptimizeFile.approving)
        [⟨0, ["a_spec.rb"]⟩, ⟨0, ["..", "proj", "a_spec.rb"]⟩] =
      ["a_spec.rb: optimized (1/1 applied, granularity=unit)\n",
        "../proj/a_spec.rb: clean (0/0 applied, granularity=unit)\n"] ∧
    linesOf (fun _ => OptimizeFile.approving) [⟨0, ["..", "proj", "a_spec.rb"]⟩] =
      ["../proj/a_spec.rb: optimized (1/1 applied, granularity=unit)\n"]) ∧
    (linesOf (fun _ => prying) [⟨0, ["b_spec.rb"]⟩, ⟨0, ["a_spec.rb"]⟩] =
      ["b_spec.rb: optimized (1/1 applied, granularity=unit)\n",
        "warning: a_spec.rb: reverted (0/1 applied, granularity=unit)\n"] ∧
    linesOf (fun _ => prying) [⟨0, ["a_spec.rb"]⟩] =
      ["a_spec.rb: optimized (1/1 applied, granularity=unit)\n"]) ∧
    (conclude false ["proj"] none (batchOf (fun _ => OptimizeFile.faulty) [⟨0, ["a_spec.rb"]⟩]).1
      twoSpecs).1 = .error (.escaped (.text (.command .tooLarge))) := by
  exact ⟨⟨by decide +kernel, by decide +kernel⟩, ⟨by decide +kernel, by decide +kernel⟩,
    ⟨by decide +kernel, by decide +kernel⟩, by decide +kernel⟩

end CommandLine.Batch

end FactoryDowngrade
