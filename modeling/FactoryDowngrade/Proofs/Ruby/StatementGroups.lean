import FactoryDowngrade.Proofs.Ruby.ArgumentLists
import FactoryDowngrade.Proofs.Ruby.BracketPairs

/-!
# Statements and groups

An argument list without parentheses ends inside the text. It does not cut a group in two: one that
begins behind the start of the list is left out or kept to its closing bracket. And it does not
leave a group that it begins in.

The scan of the list counts open brackets and does not tell their kinds, and the search for a
closing bracket does; where that search succeeds, the two agree.
-/

namespace FactoryDowngrade

namespace Statement

open FactoryDowngrade.Bracket BracketRole

/-- A range of a text that cuts none of its groups. -/
structure KeepsGroups (text : Text) (start stop : Nat) : Prop where
  start_le : start ≤ stop
  stop_le : stop ≤ text.length
  whole : ∀ first last, start ≤ first → OpensAt text first → closing? text first = some last →
    stop ≤ first ∨ last < stop
  inside : ∀ first last, first < start → OpensAt text first → closing? text first = some last →
    start ≤ last → stop ≤ last

section Groups

variable {text : Text} {start first last : Nat}

/-- A group as the walk from its opening bracket sees it. -/
theorem exists_closeDistance_of_closing? (hopens : OpensAt text first)
    (hclosing : closing? text first = some last) :
    ∃ c rest kind distance, text.drop first = c :: rest ∧ ofChar c = .opens kind ∧
      closeDistance ofChar [] (c :: rest) = some distance ∧ last = first + distance := by
  obtain ⟨c, kind, hc, hkind⟩ := hopens
  obtain ⟨hfirst, hget⟩ := List.getElem?_eq_some_iff.mp hc
  have hdrop : text.drop first = c :: text.drop (first + 1) :=
    hget ▸ List.drop_eq_getElem_cons hfirst
  rw [closing?, hdrop, Option.map_eq_some_iff] at hclosing
  obtain ⟨distance, hclose, rfl⟩ := hclosing
  exact ⟨c, _, kind, distance, hdrop, hkind, hclose, rfl⟩

/-- A closing bracket is no blank at the end of a list. -/
theorem isTrailing_of_closes {c : Char} {kind : BracketKind} (hc : ofChar c = .closes kind) :
    isTrailing c = false := by
  refine isTrailing_eq_false (Bool.eq_false_iff.mpr fun hblank => ?_)
  rw [ofChar_of_isBlank hblank] at hc
  cases hc

/-- A list that keeps the opening bracket of a group keeps the closing one. -/
theorem lt_stop_of_group (hstart : start ≤ first) (hopens : OpensAt text first)
    (hclosing : closing? text first = some last) (hstop : first < stop text start) :
    last < stop text start := by
  obtain ⟨c, rest, kind, distance, hdrop, hkind, hclose, rfl⟩ :=
    exists_closeDistance_of_closing? hopens hclosing
  obtain ⟨before, rfl⟩ := Nat.exists_eq_add_of_le hstart
  rw [stop] at hstop ⊢
  have hlist : text.drop start = (text.drop start).take before ++ c :: rest := by
    rw [← hdrop, ← List.drop_drop, List.take_append_drop]
  have hlength : ((text.drop start).take before).length = before := by
    refine List.length_take_of_le ?_
    have hle := argumentLength_le (text.drop start)
    omega
  generalize (text.drop start).take before = front at hlist hlength
  rw [hlist] at hstop ⊢
  -- the list comes to the group, goes over all of it and keeps its last bracket
  have hreach := argumentLength_le_reach (front ++ c :: rest)
  have hcomes : front.length ≤ reach [] 0 (front ++ c :: rest) := by omega
  obtain ⟨depth, hgoes⟩ := exists_reach_append hcomes
  have hover : distance < reach (front.reverse ++ []) depth (c :: rest) :=
    lt_reach_group hkind hclose
  obtain ⟨d, kind', hd, hcloses⟩ := closes_of_closeDistance hclose
  have hchar : (front ++ c :: rest)[before + distance]? = some d := by
    rw [List.getElem?_append_right (by omega), hlength, Nat.add_sub_cancel_left]
    exact hd
  have hkept := lt_argumentLength (by omega) hchar (isTrailing_of_closes hcloses)
  omega

/-- A list that begins in a group ends before its closing bracket, or at it. -/
theorem stop_le_of_group (hstart : first < start) (hopens : OpensAt text first)
    (hclosing : closing? text first = some last) (hlast : start ≤ last) :
    stop text start ≤ last := by
  obtain ⟨c, rest, kind, distance, hdrop, hkind, hclose, rfl⟩ :=
    exists_closeDistance_of_closing? hopens hclosing
  obtain ⟨before, rfl⟩ := Nat.exists_eq_add_of_lt hstart
  rw [closeDistance, hkind] at hclose
  obtain ⟨more, hmore, rfl⟩ := Option.map_eq_some_iff.mp hclose
  have hbehind : text.drop (first + before + 1) = rest.drop before := by
    rw [Nat.add_right_comm, ← List.drop_drop, ← List.drop_drop, hdrop]
    rfl
  have hlength : (rest.take before).length = before := by
    have hlt := closeDistance_lt hmore
    exact List.length_take_of_le (by omega)
  -- where the list begins, the walk is inside some groups, this one among them
  rw [← List.take_append_drop before rest] at hmore
  obtain ⟨inner, hinner, hend⟩ :=
    exists_closeDistance_append (List.cons_ne_nil _ _) hmore (by omega)
  rw [hlength] at hend
  have hreach : reach [] 0 (rest.drop before) ≤ more - before :=
    reach_le_of_closeDistance hend (List.length_pos_iff.mpr hinner)
  have hle := argumentLength_le_reach (rest.drop before)
  rw [stop, hbehind]
  omega

end Groups

/-- The range of an argument list cuts no group. -/
theorem keepsGroups_stop {text : Text} {start : Nat} (h : start ≤ text.length) :
    KeepsGroups text start (stop text start) where
  start_le := Nat.le_add_right _ _
  stop_le := by
    have hle := argumentLength_le (text.drop start)
    rw [List.length_drop] at hle
    rw [stop]
    omega
  whole _ _ hstart hopens hclosing := by
    rw [← Nat.not_lt, ← imp_iff_not_or]
    exact lt_stop_of_group hstart hopens hclosing
  inside _ _ hstart hopens hclosing hlast := stop_le_of_group hstart hopens hclosing hlast

/-- A list in parentheses, with a group before it, two groups in it and one behind it. -/
theorem keepsGroups_stop_nested :
    15 ≤ "go([a], create :b, [c, (d)], e\n)[f]".toList.length ∧
      closing? "go([a], create :b, [c, (d)], e\n)[f]".toList 2 = some 31 ∧
      closing? "go([a], create :b, [c, (d)], e\n)[f]".toList 19 = some 26 ∧
      stop "go([a], create :b, [c, (d)], e\n)[f]".toList 15 = 30 ∧
      KeepsGroups "go([a], create :b, [c, (d)], e\n)[f]".toList 15
        (stop "go([a], create :b, [c, (d)], e\n)[f]".toList 15) :=
  ⟨by decide, by decide, by decide, by decide, keepsGroups_stop (by decide)⟩

end Statement

end FactoryDowngrade
