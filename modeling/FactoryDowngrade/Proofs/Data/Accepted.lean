import FactoryDowngrade.Data.Check
import Mathlib.Tactic.Common

/-!
# What an accepted value tells

A check that is put together from others accepts just when all of them do, and what it accepts is
put together in the same way. So the parts of an accepted value are themselves accepted.
-/

namespace FactoryDowngrade

namespace Checked

variable {α β : Type} {b : β}

/-- An application is accepted just when both of its sides are. -/
theorem seq_eq_accepted_iff {f : Checked (α → β)} {x : Checked α} :
    f <*> x = .accepted b ↔ ∃ g a, f = .accepted g ∧ x = .accepted a ∧ g a = b := by
  change (f.zip x).map (fun p => p.1 p.2) = .accepted b ↔ _
  cases f <;> cases x <;> simp [zip, map]

/-- The image of a checked value is accepted just when the value is. -/
theorem functor_map_eq_accepted_iff {f : α → β} {x : Checked α} :
    f <$> x = .accepted b ↔ ∃ a, x = .accepted a ∧ f a = b := by
  change pure f <*> x = .accepted b ↔ _
  rw [seq_eq_accepted_iff]
  constructor
  · rintro ⟨g, a, hg, hx, rfl⟩
    cases hg
    exact ⟨a, hx, rfl⟩
  · rintro ⟨a, hx, rfl⟩
    exact ⟨f, a, rfl, hx, rfl⟩

/-- Two checks in a row accept just when each of them does. -/
theorem andThen_eq_accepted_iff {x : Checked α} {next : α → Checked β} :
    x.andThen next = .accepted b ↔ ∃ a, x = .accepted a ∧ next a = .accepted b := by
  cases x <;> simp [andThen]

/-- A check that goes on with a condition accepts only what meets it. -/
theorem holds_of_andThen_ite (holds : α → Prop) [DecidablePred holds] {x : Checked α}
    {kind : FaultKind} {a : α}
    (h : (x.andThen fun a => if holds a then .accepted a else .fault kind) = .accepted a) :
    holds a := by
  obtain ⟨b, -, hb⟩ := andThen_eq_accepted_iff.mp h
  split at hb
  · cases hb
    assumption
  · cases hb

/-- A check under a field accepts what it accepts elsewhere. -/
theorem under_eq_accepted_iff {step : String} {x : Checked β} :
    x.under step = .accepted b ↔ x = .accepted b := by
  cases x <;> simp [under]

end Checked

namespace Check

variable {α : Type} {a : α}

/-- Only a table is accepted as a record. -/
theorem record_eq_accepted_iff {check : List (String × Data) → Checked α} {value : Data} :
    record check value = .accepted a ↔ ∃ fields, value = .table fields ∧
      check fields = .accepted a := by
  cases value <;> simp [record, Checked.fault]

/-- A field with a default is accepted with that default or with a value that passes its check. -/
theorem defaulting_eq_accepted_iff {fields : List (String × Data)} {name : String} {default : α}
    {check : Of α} : defaulting fields name default check = .accepted a ↔
      Data.field? fields name = none ∧ default = a ∨
        ∃ value, Data.field? fields name = some value ∧ check value = .accepted a := by
  rw [defaulting]
  cases Data.field? fields name with
  | none => simp
  | some value => simp [Checked.under_eq_accepted_iff]

/-- What holds of the default and of whatever the check accepts holds of the field. -/
theorem holds_of_defaulting (holds : α → Prop) {fields : List (String × Data)} {name : String}
    {default : α} {check : Of α} (h : defaulting fields name default check = .accepted a)
    (hdefault : holds default) (hcheck : ∀ value a, check value = .accepted a → holds a) :
    holds a := by
  rcases defaulting_eq_accepted_iff.mp h with ⟨-, rfl⟩ | ⟨value, -, hvalue⟩
  · exact hdefault
  · exact hcheck value a hvalue

end Check

end FactoryDowngrade
