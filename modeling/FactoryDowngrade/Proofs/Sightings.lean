import FactoryDowngrade.Evidence.Detector

/-!
# What detectors see

A detector leaves a match about a call just when the text around the call shows one of its signs.
The wording of the evidence does not matter to that.
-/

namespace FactoryDowngrade

namespace Evidence

/-- Some invocation with a fitting callee has the call in its arguments. -/
def IsContained (t : SpecText) (site : CallSite) (fits : Text → Bool) : Prop :=
  ∃ i ∈ t.invocations, i.holds site.sourceSpan.start site.sourceSpan.stop = true ∧
    fits i.callee = true

/-- Some invocation with a fitting callee refers to the name in its arguments. -/
def IsReceived (t : SpecText) (name : Text) (fits : Text → Bool) : Prop :=
  ∃ i ∈ t.invocations, i.argsStart ≠ i.argsStop ∧ fits i.callee = true ∧
    refersWithin t.masked name i.argsStart i.argsStop = true

/-- A pattern fits somewhere in the masked text. -/
def Shows (t : SpecText) (p : Pattern) : Prop :=
  p.occurs (Cursor.start t.masked) = true

variable {t : SpecText} {site : CallSite} {name : Text} {fits : Text → Bool}

/-- The search for arguments around a call finds some just when there are some. -/
theorem isSome_containing?_iff :
    (containing? t site fits).isSome = true ↔ IsContained t site fits := by
  rw [containing?, Option.isSome_map, List.find?_isSome, SpecText.around]
  simp only [List.mem_filter, and_assoc, IsContained]

/-- So does the search for arguments with a name. -/
theorem isSome_receiving?_iff :
    (receiving? t name fits).isSome = true ↔ IsReceived t name fits := by
  rw [receiving?, Option.isSome_map, List.find?_isSome]
  simp only [Bool.and_eq_true, bne_iff_ne, and_assoc, IsReceived]

/-- The search for patterns finds a match just when one of them fits somewhere. -/
theorem isSome_firstMatch?_iff {patterns : List Pattern} :
    (firstMatch? t patterns).isSome = true ↔ ∃ p ∈ patterns, Shows t p := by
  simp only [firstMatch?, List.findSome?_isSome_iff, Option.isSome_map, Shows, Pattern.occurs]

/-- A single pattern is found just when it fits somewhere. -/
theorem isSome_firstMatch?_singleton_iff {p : Pattern} :
    (firstMatch? t [p]).isSome = true ↔ Shows t p := by
  simp only [isSome_firstMatch?_iff, List.mem_singleton, exists_eq_left]

/-- Of two patterns one is found just when one of them fits somewhere. -/
theorem isSome_firstMatch?_pair_iff {p q : Pattern} :
    (firstMatch? t [p, q]).isSome = true ↔ Shows t p ∨ Shows t q := by
  simp only [isSome_firstMatch?_iff, List.mem_cons, List.not_mem_nil, or_false, exists_eq_or_imp,
    exists_eq_left]

end Evidence

namespace Detector

open Evidence

/-- The signs that a detector looks for about a call. -/
def Sees (d : Detector) (suffixes : Suffixes) (t : SpecText) (site : CallSite) : Prop :=
  match d with
  | persistenceAccessor => ∃ name, site.bindingName = some name ∧
      (Shows t (Usage.accessorCall name) ∨ Shows t (Usage.storedStateMatcher name))
  | associationMutation => ∃ name, site.bindingName = some name ∧
      (Shows t (Usage.associationCreation name) ∨ Shows t (Usage.associationAppend name))
  | queryDependency => IsContained t site Callee.isStorageLookup ∨
      ∃ name, site.bindingName = some name ∧
        (IsReceived t name Callee.isStorageLookup ∨ Shows t (Usage.associationQuery name))
  | externalConsumption => IsContained t site (Callee.isBoundary suffixes) ∨
      ∃ name, site.bindingName = some name ∧ IsReceived t name (Callee.isBoundary suffixes)
  | nestedConstruction => site.enclosingVariant.isSome = true

/-- A detector matches just when its finding is no reason against it. -/
theorem isMatch_detect (d : Detector) (suffixes : Suffixes) (t : SpecText) (site : CallSite) :
    (d.detect suffixes t site).isMatch = (d.finding suffixes t site).isOk := by
  unfold detect
  cases d.finding suffixes t site <;> rfl

/-- What is looked for by a name is found only if there is a name. -/
theorem isOk_named_iff {bound : Option Text} {reason : String}
    {look : Text → Except String String} :
    (match bound with
      | none => Except.error reason
      | some name => look name).isOk = true ↔
      ∃ name, bound = some name ∧ (look name).isOk = true := by
  cases bound with
  | none => simp [Except.isOk, Except.toBool]
  | some name => simp

/-- What is not found at first may be found otherwise. -/
theorem isOk_found_iff {found : Option String} {otherwise : Except String String} :
    (match found with
      | some detail => Except.ok detail
      | none => otherwise).isOk = true ↔ found.isSome = true ∨ otherwise.isOk = true := by
  cases found with
  | none => simp
  | some detail => simp [Except.isOk, Except.toBool]

/-- A finding with a reason for the other case is there just when it is found. -/
theorem isOk_orElse_iff {found : Option String} {reason : String} :
    (match found with
      | some detail => Except.ok detail
      | none => Except.error reason).isOk = true ↔ found.isSome = true :=
  isOk_found_iff.trans (by simp [Except.isOk, Except.toBool])

/-- A detector leaves a match just when it sees one of its signs. -/
theorem isMatch_detect_iff (d : Detector) (suffixes : Suffixes) (t : SpecText)
    (site : CallSite) :
    (d.detect suffixes t site).isMatch = true ↔ d.Sees suffixes t site := by
  rw [isMatch_detect]
  cases d with
  | persistenceAccessor =>
    exact isOk_named_iff.trans (exists_congr fun _ => and_congr_right fun _ =>
      isOk_orElse_iff.trans isSome_firstMatch?_pair_iff)
  | associationMutation =>
    exact isOk_named_iff.trans (exists_congr fun _ => and_congr_right fun _ =>
      isOk_orElse_iff.trans isSome_firstMatch?_pair_iff)
  | queryDependency =>
    refine isOk_found_iff.trans (or_congr isSome_containing?_iff
      (isOk_named_iff.trans (exists_congr fun name => and_congr_right fun _ =>
        isOk_orElse_iff.trans ?_)))
    rw [Option.isSome_or, Bool.or_eq_true, isSome_receiving?_iff, isSome_firstMatch?_singleton_iff]
  | externalConsumption =>
    exact isOk_found_iff.trans (or_congr isSome_containing?_iff
      (isOk_named_iff.trans (exists_congr fun _ => and_congr_right fun _ =>
        isOk_orElse_iff.trans isSome_receiving?_iff)))
  | nestedConstruction =>
    unfold finding Sees
    cases site.enclosingVariant <;> rfl

end Detector

end FactoryDowngrade
