import FactoryDowngrade.Ruby.Statement

/-!
# Extents end inside the text

The walk to the bracket that closes another one has a case for each role of a character, so that
what holds of it is proved along the walk. The closing bracket stands behind the other one and
before the end of the text. An argument list without parentheses is the front of a text and ends on
a character that is no blank.
-/

namespace FactoryDowngrade

namespace Bracket

variable {role : Char → BracketRole} {openKinds : List BracketKind} {distance : Nat}

/-- A walk over a text goes a distance, up to the bracket that closes the last open group. The
groups are given nearest first. -/
inductive ClosesAfter (role : Char → BracketRole) : List BracketKind → Text → Nat → Prop
  | opens {kinds : List BracketKind} {c : Char} {kind : BracketKind} {rest : Text} {distance : Nat}
      (hc : role c = .opens kind) (h : ClosesAfter role (kind :: kinds) rest distance) :
      ClosesAfter role kinds (c :: rest) (distance + 1)
  | plain {kinds : List BracketKind} {c : Char} {rest : Text} {distance : Nat}
      (hc : role c = .plain) (h : ClosesAfter role kinds rest distance) :
      ClosesAfter role kinds (c :: rest) (distance + 1)
  | closes {next : BracketKind} {outer : List BracketKind} {c : Char} {kind : BracketKind}
      {rest : Text} {distance : Nat}
      (hc : role c = .closes kind) (h : ClosesAfter role (next :: outer) rest distance) :
      ClosesAfter role (kind :: next :: outer) (c :: rest) (distance + 1)
  | last {c : Char} {kind : BracketKind} {rest : Text} (hc : role c = .closes kind) :
      ClosesAfter role [kind] (c :: rest) 0

/-- The distance is found just when there is a walk of that distance. -/
theorem closesAfter_iff {text : Text} :
    ClosesAfter role openKinds text distance ↔
      closeDistance role openKinds text = some distance := by
  constructor
  · intro h
    induction h with
    | opens hc _ ih => simp only [closeDistance, hc, ih, Option.map_some]
    | plain hc _ ih => simp only [closeDistance, hc, ih, Option.map_some]
    | closes hc _ ih => simp only [closeDistance, hc, ih, Option.map_some, if_true]
    | last hc => simp only [closeDistance, hc, if_true]
  · intro h
    induction text generalizing openKinds distance with
    | nil => cases h
    | cons c rest ih =>
      rw [closeDistance] at h
      cases hc : role c with
      | opens kind =>
        rw [hc] at h
        obtain ⟨more, hmore, rfl⟩ := Option.map_eq_some_iff.mp h
        exact .opens hc (ih hmore)
      | plain =>
        rw [hc] at h
        obtain ⟨more, hmore, rfl⟩ := Option.map_eq_some_iff.mp h
        exact .plain hc (ih hmore)
      | closes kind =>
        rw [hc] at h
        obtain _ | ⟨first, _ | ⟨next, outer⟩⟩ := openKinds
        · cases h
        · dsimp only at h
          obtain ⟨rfl, hzero⟩ := Option.ite_none_right_eq_some.mp h
          obtain rfl := Option.some.inj hzero
          exact .last hc
        · dsimp only at h
          obtain ⟨rfl, hnext⟩ := Option.ite_none_right_eq_some.mp h
          obtain ⟨more, hmore, rfl⟩ := Option.map_eq_some_iff.mp hnext
          exact .closes hc (ih hmore)

/-- The walk ends at a closing bracket. -/
theorem closes_of_closeDistance {text : Text}
    (h : closeDistance role openKinds text = some distance) :
    ∃ c kind, text[distance]? = some c ∧ role c = .closes kind := by
  rw [← closesAfter_iff] at h
  induction h with
  | opens _ _ ih => exact ih
  | plain _ _ ih => exact ih
  | closes _ _ ih => exact ih
  | last hc => exact ⟨_, _, rfl, hc⟩

/-- The closing bracket is a character of the text that is walked over. -/
theorem closeDistance_lt {text : Text}
    (h : closeDistance role openKinds text = some distance) : distance < text.length := by
  obtain ⟨c, -, hchar, -⟩ := closes_of_closeDistance h
  exact (List.getElem?_eq_some_iff.mp hchar).1

/-- What opens a bracket does not close it. -/
theorem closeDistance_pos {c : Char} {rest : Text} {kind : BracketKind}
    (hopens : role c = .opens kind)
    (h : closeDistance role openKinds (c :: rest) = some distance) : 0 < distance := by
  rw [closeDistance, hopens] at h
  obtain ⟨more, -, rfl⟩ := Option.map_eq_some_iff.mp h
  exact Nat.succ_pos more

end Bracket

namespace Statement

/-- What is gathered is the front of the text. -/
theorem exists_gather_eq (passed : Text) (depth : Nat) (text : Text) :
    ∃ taken, taken <+: text ∧ gather passed depth text = taken.reverse ++ passed := by
  induction text generalizing passed depth with
  | nil => exact ⟨[], List.nil_prefix, rfl⟩
  | cons c rest ih =>
    have hstop : ∃ taken, taken <+: c :: rest ∧ passed = taken.reverse ++ passed :=
      ⟨[], List.nil_prefix, rfl⟩
    have hnext (depth : Nat) : ∃ taken, taken <+: c :: rest ∧
        gather (c :: passed) depth rest = taken.reverse ++ passed := by
      obtain ⟨taken, hfront, hrest⟩ := ih (c :: passed) depth
      exact ⟨c :: taken, List.cons_prefix_cons.mpr ⟨rfl, hfront⟩, by simpa using hrest⟩
    rw [gather.eq_def]
    dsimp only
    split
    · exact hnext _
    · split
      · exact hstop
      · exact hnext _
    · split
      · exact hstop
      · exact hnext _

/-- An argument list is the front of the text up to a character that is no blank of a line. -/
theorem exists_argumentLength_eq (text : Text) :
    argumentLength text = 0 ∨ ∃ taken c, taken ++ [c] <+: text ∧ isTrailing c = false ∧
      argumentLength text = taken.length + 1 := by
  obtain ⟨gathered, hfront, hgather⟩ := exists_gather_eq [] 0 text
  rw [List.append_nil] at hgather
  have hhead := List.head?_dropWhile_not isTrailing gathered.reverse
  rw [argumentLength, hgather]
  cases hkept : gathered.reverse.dropWhile isTrailing with
  | nil => exact .inl rfl
  | cons c kept =>
    rw [hkept] at hhead
    have hsuffix : c :: kept <:+ gathered.reverse := hkept ▸ List.dropWhile_suffix _
    refine .inr ⟨kept.reverse, c, ?_, by simpa using hhead, by simp⟩
    rw [← List.reverse_cons]
    exact (List.reverse_suffix.mp (by rwa [List.reverse_reverse])).trans hfront

/-- An argument list is no longer than the text that it stands in front of. -/
theorem argumentLength_le (text : Text) : argumentLength text ≤ text.length := by
  rcases exists_argumentLength_eq text with hnone | ⟨taken, c, hfront, -, hlength⟩
  · omega
  · have hle := hfront.length_le
    rw [List.length_append, List.length_singleton] at hle
    omega

end Statement

end FactoryDowngrade
