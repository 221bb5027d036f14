import FactoryDowngrade.CommandLine.Session
import FactoryDowngrade.Proofs.Text.Utf8
import FactoryDowngrade.Proofs.Toml.LargeValues

/-!
# Settings that cannot be used

A file with settings is accepted, or it is refused with a word about it, or the program has no
answer to it at all. The last happens for three reasons: the file is not UTF-8, a number in it has
too many digits, or it opens too many values in each other. Whatever becomes of the file, every
order that cannot have its settings leaves all files as they are; and where the file gives no such
reason, the order ends with the status of refused settings.
-/

namespace FactoryDowngrade

namespace ConfigFile

open Toml

/-- What some bytes come to, and what it says of them. -/
inductive Reading (path : String) (bytes : Bytes) : Except ConfigFileFault Config → Prop
  | accepted (config : Config) : Reading path bytes (.ok config)
  | notToml : Reading path bytes (.error (.config (.notToml path)))
  | invalid (faults : List FactoryDowngrade.Fault) :
      Reading path bytes (.error (.config (.invalid path faults)))
  | encoding (fault : Utf8Fault) (hbytes : ∀ text, Utf8.encode text ≠ bytes) :
      Reading path bytes (.error (.encoding fault))
  | tooManyDigits {count : Nat} {text : Text} (hbytes : Utf8.encode text = bytes)
      (hcount : digitLimit < count) (hdigits : HasDigits count text) :
      Reading path bytes (.error (.tooManyDigits count))
  | tooDeep {text : Text} (hbytes : Utf8.encode text = bytes) (hdeep : nestingRoom < weight text) :
      Reading path bytes (.error .tooDeep)

/-- Bytes come to one of six ends. -/
theorem reading_parse (path : String) (bytes : Bytes) : Reading path bytes (parse path bytes) := by
  unfold parse
  cases hdecode : Utf8.decode bytes with
  | error fault =>
    refine .encoding fault fun text htext => ?_
    rw [Utf8.decode_eq_ok_iff.mpr htext] at hdecode
    cases hdecode
  | ok text =>
    have hbytes := Utf8.decode_eq_ok_iff.mp hdecode
    have htells := tells_parse text
    dsimp only
    cases hread : Toml.parse text with
    | error fault =>
      have hdue := htells fault hread
      cases fault with
      | malformed => exact .notToml
      | tooManyDigits count => exact .tooManyDigits hbytes hdue.1 hdue.2
      | tooDeep => exact .tooDeep hbytes hdue
    | ok data =>
      dsimp only
      cases Config.check data with
      | accepted config => exact .accepted config
      | refused faults => exact .invalid faults

/-- Some bytes can be judged: they are a text without numbers of too many digits and without values
that could be nested too deeply. -/
def CanBeJudged (bytes : Bytes) : Prop :=
  ∃ text, Utf8.encode text = bytes ∧ ¬HasDigits (digitLimit + 1) text ∧ weight text ≤ nestingRoom

/-- What can be judged is accepted or refused. -/
theorem parse_of_canBeJudged {bytes : Bytes} (h : CanBeJudged bytes) (path : String) :
    (∃ config, parse path bytes = .ok config) ∨
      ∃ fault, parse path bytes = .error (.config fault) := by
  obtain ⟨text, rfl, hdigits, hweight⟩ := h
  have hread := reading_parse path (Utf8.encode text)
  generalize parse path (Utf8.encode text) = answer at hread ⊢
  cases hread with
  | accepted config => exact .inl ⟨config, rfl⟩
  | notToml => exact .inr ⟨_, rfl⟩
  | invalid faults => exact .inr ⟨_, rfl⟩
  | encoding fault hbytes => exact absurd rfl (hbytes text)
  | tooManyDigits hbytes hcount hmany =>
    rw [Utf8.encode_injective hbytes] at hmany
    obtain ⟨number, hnumber, hnumeral, hlength⟩ := hmany
    exact absurd ⟨number, hnumber, hnumeral, by omega⟩ hdigits
  | tooDeep hbytes hdeep =>
    rw [Utf8.encode_injective hbytes] at hdeep
    omega

/-- Nothing but UTF-8 is read. -/
theorem exists_encoding_iff (path : String) (bytes : Bytes) :
    (∃ fault, parse path bytes = .error (.encoding fault)) ↔ ∀ text, Utf8.encode text ≠ bytes := by
  constructor
  · rintro ⟨fault, hfault⟩
    have hread := reading_parse path bytes
    rw [hfault] at hread
    cases hread with
    | encoding _ hbytes => exact hbytes
  · intro hbytes
    cases hdecode : Utf8.decode bytes with
    | error fault => exact ⟨fault, by rw [parse, hdecode]⟩
    | ok text => exact absurd (Utf8.encode_of_decode hdecode) (hbytes text)

/-- What a fault in the text of a file means for the file. -/
def faultOf (path : String) : Toml.Fault → ConfigFileFault
  | .malformed => .config (.notToml path)
  | .tooManyDigits count => .tooManyDigits count
  | .tooDeep => .tooDeep

/-- A file whose text is no data has the fault that its text has. -/
theorem parse_encode_of_fault {path : String} {text : Text} {fault : Toml.Fault}
    (h : Toml.parse text = .error fault) :
    parse path (Utf8.encode text) = .error (faultOf path fault) := by
  rw [parse, Utf8.decode_encode]
  dsimp only
  rw [h]
  cases fault <;> rfl

end ConfigFile

namespace CommandLine

open ConfigFile Toml

variable {root : List String} {w : World} {bytes : Bytes}

/-- The options of an order can be used. An analysis has none. -/
def Order.IsUsable : Order → Prop
  | .analyze _ => True
  | .optimize _ timeout jobs _ command => Batch.checkOptions timeout jobs command = .ok ()

/-- The place of the settings of a project. -/
def settingsPath (root : List String) : PathName :=
  (PathName.absolute root).child fileName

/-- A project has a file with settings. -/
def HasSettings (w : World) (root : List String) (bytes : Bytes) : Prop :=
  ∃ executable,
    FileTree.find w.tree w.cwd (settingsPath root) = .ok (.file bytes executable)

/-- The configuration is what the settings file says. -/
theorem HasSettings.load (h : HasSettings w root bytes) :
    ConfigFile.load w root = parse (settingsPath root).toText bytes := by
  obtain ⟨executable, hfind⟩ := h
  unfold ConfigFile.load
  dsimp only
  rw [← settingsPath, hfind]

/-- A fault of a file is told, or there is no answer to it. -/
theorem refuseFile_cases (fault : ConfigFileFault) :
    (∃ refused, fault = .config refused ∧ refuseFile fault = .ok (refuse refused)) ∨
      (∀ refused, fault ≠ .config refused) ∧
        ∃ escape, refuseFile fault = .error (.escaped escape) := by
  cases fault with
  | config refused => exact .inl ⟨refused, rfl, rfl⟩
  | unreachable fault => exact .inr ⟨nofun, _, rfl⟩
  | encoding fault => exact .inr ⟨nofun, _, rfl⟩
  | tooManyDigits count => exact .inr ⟨nofun, _, rfl⟩
  | tooDeep => exact .inr ⟨nofun, _, rfl⟩

/-- Settings that cannot be had end an order, unless its options have ended it before. -/
theorem perform_of_load (arguments : Arguments) {fault : ConfigFileFault}
    (hload : ConfigFile.load w root = .error fault) :
    (arguments.order.IsUsable → perform arguments root w = (refuseFile fault, w)) ∧
      (¬arguments.order.IsUsable →
        ∃ refused, perform arguments root w = (.ok (refuse refused), w)) := by
  cases horder : arguments.order with
  | analyze file =>
    have hperform : perform arguments root w = (refuseFile fault, w) := by
      rw [perform, horder]
      simp only [hload]
    exact ⟨fun _ => hperform, fun hnot => absurd trivial hnot⟩
  | optimize files timeout jobs reportDir command =>
    cases hoptions : Batch.checkOptions timeout jobs command with
    | ok =>
      have hsettings : Batch.settings timeout jobs command root w = .error fault := by
        rw [Batch.settings, hoptions]
        simp only [hload]
      have hperform : perform arguments root w = (refuseFile fault, w) := by
        rw [perform, horder]
        simp only [hsettings]
      exact ⟨fun _ => hperform, fun hnot => absurd hoptions hnot⟩
    | error refused =>
      have hsettings :
          Batch.settings timeout jobs command root w = .error (.config refused) := by
        rw [Batch.settings, hoptions]
      have hperform : perform arguments root w = (.ok (refuse refused), w) := by
        rw [perform, horder]
        simp only [hsettings, refuseFile]
      refine ⟨fun husable => ?_, fun _ => ⟨refused, hperform⟩⟩
      rw [Order.IsUsable, hoptions] at husable
      cases husable

/-- An order that cannot have its settings leaves all files as they are. It ends with the status of
refused settings, or what the file holds cannot be judged. -/
theorem perform_of_unaccepted (arguments : Arguments) (hsettings : HasSettings w root bytes)
    (hbytes : ∀ config, parse (settingsPath root).toText bytes ≠ .ok config) :
    ∃ answer, perform arguments root w = (answer, w) ∧
      ((∃ fault, answer = .ok (refuse fault)) ∨
        (∃ escape, answer = .error (.escaped escape)) ∧ ¬CanBeJudged bytes) := by
  have hload := hsettings.load
  cases hparse : parse (settingsPath root).toText bytes with
  | ok config => exact absurd hparse (hbytes config)
  | error fault =>
    obtain ⟨husable, hunusable⟩ := perform_of_load arguments (hload.trans hparse)
    by_cases hoptions : arguments.order.IsUsable
    · refine ⟨_, husable hoptions, ?_⟩
      obtain ⟨refused, -, hrefused⟩ | ⟨hnot, hescape⟩ := refuseFile_cases fault
      · exact .inl ⟨refused, hrefused⟩
      · refine .inr ⟨hescape, fun hjudged => ?_⟩
        obtain ⟨config, hconfig⟩ | ⟨refused, hrefused⟩ := parse_of_canBeJudged hjudged _
        · exact hbytes config hconfig
        · exact hnot refused (Except.error.inj (hparse.symm.trans hrefused))
    · obtain ⟨refused, hrefused⟩ := hunusable hoptions
      exact ⟨_, hrefused, .inl ⟨refused, rfl⟩⟩

/-- What a file with settings comes to, and an order with it. The file is read as its bytes are,
and where these can be judged they are accepted or refused. Without accepted settings the order
leaves all files as they are, and it ends with the status of refused settings if the bytes can be
judged. -/
structure IsAnswered (arguments : Arguments) (root : List String) (w : World) (bytes : Bytes) :
    Prop where
  reading : Reading (settingsPath root).toText bytes (ConfigFile.load w root)
  judged : CanBeJudged bytes → (∃ config, ConfigFile.load w root = .ok config) ∨
    ∃ fault, ConfigFile.load w root = .error (.config fault)
  unchanged : (∀ config, ConfigFile.load w root ≠ .ok config) →
    (perform arguments root w).2 = w
  refused : (∀ config, ConfigFile.load w root ≠ .ok config) → CanBeJudged bytes →
    ∃ fault, (perform arguments root w).1 = .ok (refuse fault)

/-- Every order is answered, whatever the file with settings holds. -/
theorem isAnswered_of_hasSettings (arguments : Arguments) (hsettings : HasSettings w root bytes) :
    IsAnswered arguments root w bytes := by
  have hload := hsettings.load
  refine ⟨hload ▸ reading_parse _ bytes, fun hjudged => hload ▸ parse_of_canBeJudged hjudged _,
    fun hnone => ?_, fun hnone hjudged => ?_⟩
  · rw [hload] at hnone
    obtain ⟨answer, hperform, -⟩ := perform_of_unaccepted arguments hsettings hnone
    rw [hperform]
  · rw [hload] at hnone
    obtain ⟨answer, hperform, ⟨fault, rfl⟩ | ⟨-, hnot⟩⟩ :=
      perform_of_unaccepted arguments hsettings hnone
    · exact ⟨fault, by rw [hperform]⟩
    · exact absurd hjudged hnot

/-- A project with settings and nothing else, seen from its own directory. -/
def configured (bytes : Bytes) : World :=
  .start (.dir [("proj", .dir [("factory-opt.toml", .file bytes false)])]) ["proj"]

/-- The world with a settings file has it at its root. -/
theorem hasSettings_configured (bytes : Bytes) : HasSettings (configured bytes) ["proj"] bytes :=
  ⟨false, rfl⟩

/-- An order to analyze a spec. -/
def analyzing : Arguments :=
  ⟨false, none, "proj", .analyze "a_spec.rb"⟩

/-- A setting without a value is refused. -/
theorem isAnswered_of_hasSettings_valueless :
    let bytes := Utf8.encode "tail_lines =\n".toList
    HasSettings (configured bytes) ["proj"] bytes ∧
    IsAnswered analyzing ["proj"] (configured bytes) bytes ∧
    ∃ fault, (perform analyzing ["proj"] (configured bytes)).1 = .ok (refuse fault) := by
  intro bytes
  have hsettings := hasSettings_configured bytes
  have hanswered := isAnswered_of_hasSettings analyzing hsettings
  have hjudged : CanBeJudged bytes := by
    refine ⟨_, rfl, fun ⟨number, hnumber, _, hcount⟩ => ?_, by decide⟩
    have hlength : number.length ≤ 13 := hnumber.length_le
    have hall : number.countP Char.isDigit ≤ number.length := List.countP_le_length
    have hlimit : Toml.digitLimit = 4300 := rfl
    omega
  have hnone : (ConfigFile.load (configured bytes) ["proj"]).toOption.isNone = true := by
    decide +kernel
  refine ⟨hsettings, hanswered, hanswered.refused (fun config hconfig => ?_) hjudged⟩
  rw [hconfig] at hnone
  cases hnone

/-! ### Files that there is no answer to -/

/-- Bytes that are no text end the program without an answer, whatever else is in the project. -/
theorem perform_of_encoding {arguments : Arguments} (hsettings : HasSettings w root bytes)
    (hoptions : arguments.order.IsUsable) (hbytes : ∀ text, Utf8.encode text ≠ bytes) :
    ∃ fault, perform arguments root w = (.error (.escaped (.encoding fault)), w) := by
  obtain ⟨fault, hfault⟩ := (exists_encoding_iff (settingsPath root).toText bytes).mpr hbytes
  exact ⟨fault, (perform_of_load arguments (hsettings.load.trans hfault)).1 hoptions⟩

/-- So does a setting of too many digits. -/
theorem perform_of_digits {arguments : Arguments} {name number behind : Text} (hname : name ≠ [])
    (hkey : ∀ c ∈ name, isKeyChar c = true) (hnumber : IsTooLong number)
    (hbehind : EndsNumber behind) (hplain : '\r' ∉ behind)
    (hsettings : HasSettings w root (Utf8.encode (name ++ '=' :: (number ++ behind))))
    (hoptions : arguments.order.IsUsable) :
    perform arguments root w = (.error (.escaped (.tooManyDigits number.length)), w) :=
  (perform_of_load arguments (hsettings.load.trans
    (parse_encode_of_fault (parse_digits hname hkey hnumber hbehind hplain)))).1 hoptions

/-- So does one that opens too many lists in each other. -/
theorem perform_of_brackets {arguments : Arguments} {name rest : Text} {n : Nat} (hname : name ≠ [])
    (hkey : ∀ c ∈ name, isKeyChar c = true) (hrest : '\r' ∉ rest)
    (hdeep : nestingRoom < listRoom * n)
    (hsettings : HasSettings w root
      (Utf8.encode (name ++ '=' :: (List.replicate n '[' ++ rest))))
    (hoptions : arguments.order.IsUsable) :
    perform arguments root w = (.error (.escaped .tooDeep), w) :=
  (perform_of_load arguments (hsettings.load.trans
    (parse_encode_of_fault (parse_brackets hname hkey hrest hdeep)))).1 hoptions

/-- A setting of so many digits. -/
def digitsSetting (count : Nat) : Bytes :=
  Utf8.encode ("tail_lines".toList ++ '=' :: (List.replicate count '1' ++ "\n".toList))

/-- A setting that begins with so many lists in each other. -/
def bracketsSetting (count : Nat) : Bytes :=
  Utf8.encode ("detectors".toList ++ '=' :: (List.replicate count '[' ++ "\n".toList))

/-- There is no answer to a byte that is no UTF-8, to a number of one digit too many, and to one
list too many. -/
theorem perform_unanswered :
    (∃ fault, perform analyzing ["proj"] (configured [255]) =
      (.error (.escaped (.encoding fault)), configured [255])) ∧
    perform analyzing ["proj"] (configured (digitsSetting 4301)) =
      (.error (.escaped (.tooManyDigits 4301)), configured (digitsSetting 4301)) ∧
    perform analyzing ["proj"] (configured (bracketsSetting 495)) =
      (.error (.escaped .tooDeep), configured (bracketsSetting 495)) := by
  have hkey : ∀ name ∈ ["tail_lines".toList, "detectors".toList],
      name ≠ [] ∧ name.all isKeyChar = true := by decide
  -- with the count as a variable nothing unfolds the long texts
  have hdigits (count : Nat) (hmany : Toml.digitLimit < count) :
      perform analyzing ["proj"] (configured (digitsSetting count)) =
        (.error (.escaped (.tooManyDigits count)), configured (digitsSetting count)) := by
    obtain ⟨hname, hletters⟩ := hkey "tail_lines".toList (by simp)
    have hnumber : IsTooLong (List.replicate count '1') :=
      { digits := fun c hc => by rw [List.eq_of_mem_replicate hc]; decide
        first := by cases count <;> simp [List.replicate_succ]
        many := by rwa [List.length_replicate] }
    have hbehind : EndsNumber "\n".toList := by
      rintro c ⟨⟩
      decide
    have hperform : perform analyzing ["proj"] (configured (digitsSetting count)) = _ :=
      perform_of_digits hname (List.all_eq_true.mp hletters) hnumber hbehind (by decide)
        (hasSettings_configured _) trivial
    rwa [List.length_replicate] at hperform
  have hbrackets (count : Nat) (hdeep : nestingRoom < listRoom * count) :
      perform analyzing ["proj"] (configured (bracketsSetting count)) =
        (.error (.escaped .tooDeep), configured (bracketsSetting count)) := by
    obtain ⟨hname, hletters⟩ := hkey "detectors".toList (by simp)
    exact perform_of_brackets hname (List.all_eq_true.mp hletters) (by decide) hdeep
      (hasSettings_configured _) trivial
  refine ⟨perform_of_encoding (hasSettings_configured _) trivial fun text htext => ?_,
    hdigits 4301 (by decide), hbrackets 495 (by decide)⟩
  have hdecode : (Utf8.decode [255]).toOption.isNone = true := by decide +kernel
  rw [Utf8.decode_eq_ok_iff.mpr htext] at hdecode
  cases hdecode

end CommandLine

end FactoryDowngrade
