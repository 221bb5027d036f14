import FactoryDowngrade.Patch
import Mathlib.Data.List.Sort

/-!
# Patches at once and one by one

One pass over the sorted patches only compares each with the end of the one before. That is enough:
sorted patches within a text overlap nowhere just when each starts where the one before has ended or
later. Then the pass gives what the patches give one by one from the last to the first, since each
of them leaves the text in front of it as it was. The order of patches is total, so sorting forgets
in which order they came.
-/

namespace FactoryDowngrade

/-! ### The order of texts -/

namespace Text

/-- Of two texts one is at most the other. -/
theorem le_total (s t : Text) : (le s t || le t s) = true := by
  induction s generalizing t with
  | nil => rfl
  | cons a s ih =>
    cases t with
    | nil => rfl
    | cons b t =>
      rcases Nat.lt_trichotomy a.toNat b.toNat with hlt | heq | hgt
      · simp [le, hlt]
      · obtain rfl : a = b := Char.toNat_inj.mp heq
        simpa [le] using ih t
      · simp [le, hgt]

/-- The order of texts is transitive. -/
theorem le_trans {s t u : Text} (hst : le s t = true) (htu : le t u = true) : le s u = true := by
  induction s generalizing t u with
  | nil => rfl
  | cons a s ih =>
    obtain _ | ⟨b, t⟩ := t
    · cases hst
    obtain _ | ⟨c, u⟩ := u
    · cases htu
    simp only [le, Bool.or_eq_true, decide_eq_true_eq, Bool.and_eq_true, beq_iff_eq] at hst htu ⊢
    rcases hst with hab | ⟨rfl, hst⟩ <;> rcases htu with hbc | ⟨rfl, htu⟩
    · exact .inl (Nat.lt_trans hab hbc)
    · exact .inl hab
    · exact .inl hbc
    · exact .inr ⟨rfl, ih hst htu⟩

/-- Texts that are at most each other are equal. -/
theorem le_antisymm {s t : Text} (hst : le s t = true) (hts : le t s = true) : s = t := by
  induction s generalizing t with
  | nil =>
    cases t with
    | nil => rfl
    | cons b t => cases hts
  | cons a s ih =>
    cases t with
    | nil => cases hst
    | cons b t =>
      simp only [le, Bool.or_eq_true, decide_eq_true_eq, Bool.and_eq_true, beq_iff_eq] at hst hts
      rcases hst with hab | ⟨rfl, hst⟩ <;> rcases hts with hba | ⟨heq, hts⟩
      · omega
      · rw [heq] at hab
        omega
      · omega
      · rw [ih hst hts]

end Text

namespace Patch

/-! ### The order of patches -/

variable {p q r : Patch}

/-- Patches are ordered by their starts, then by their stops, then by their texts. -/
theorem le_iff : le p q = true ↔ p.start < q.start ∨ p.start = q.start ∧
    (p.stop < q.stop ∨ p.stop = q.stop ∧ Text.le p.replacement q.replacement = true) := by
  simp only [le, Bool.or_eq_true, decide_eq_true_eq, Bool.and_eq_true, beq_iff_eq]

/-- Of two patches one is at most the other. -/
theorem le_total (p q : Patch) : (le p q || le q p) = true := by
  have htexts := Text.le_total p.replacement q.replacement
  rw [Bool.or_eq_true] at htexts ⊢
  rw [le_iff, le_iff]
  rcases Int.lt_trichotomy p.start q.start with hstart | hstart | hstart
  · exact .inl (.inl hstart)
  · rcases Int.lt_trichotomy p.stop q.stop with hstop | hstop | hstop
    · exact .inl (.inr ⟨hstart, .inl hstop⟩)
    · exact htexts.imp (fun h => .inr ⟨hstart, .inr ⟨hstop, h⟩⟩)
        fun h => .inr ⟨hstart.symm, .inr ⟨hstop.symm, h⟩⟩
    · exact .inr (.inr ⟨hstart.symm, .inl hstop⟩)
  · exact .inr (.inl hstart)

/-- The order of patches is transitive. -/
theorem le_trans (hpq : le p q = true) (hqr : le q r = true) : le p r = true := by
  rw [le_iff] at hpq hqr ⊢
  rcases hpq with hpq | ⟨hstart, hpq | ⟨hstop, hpq⟩⟩ <;>
    rcases hqr with hqr | ⟨hstart', hqr | ⟨hstop', hqr⟩⟩
  case inr.inr.inr.inr =>
    exact .inr ⟨hstart.trans hstart', .inr ⟨hstop.trans hstop', Text.le_trans hpq hqr⟩⟩
  all_goals omega

/-- Patches that are at most each other are equal. -/
theorem le_antisymm (hpq : le p q = true) (hqp : le q p = true) : p = q := by
  obtain ⟨start, stop, replacement⟩ := p
  obtain ⟨start', stop', replacement'⟩ := q
  rw [le_iff] at hpq hqp
  dsimp only at hpq hqp
  rcases hpq with hpq | ⟨rfl, hpq | ⟨rfl, hpq⟩⟩ <;>
    rcases hqp with hqp | ⟨hstart, hqp | ⟨hstop, hqp⟩⟩
  case inr.inr.inr.inr => rw [Text.le_antisymm hpq hqp]
  all_goals omega

/-- The patches in ascending order. -/
theorem pairwise_mergeSort (patches : List Patch) :
    (patches.mergeSort le).Pairwise fun p q => le p q = true := by
  refine List.pairwise_mergeSort ?_ le_total patches
  exact fun _ _ _ hpq hqr => le_trans hpq hqr

/-- Lists of the same patches are sorted alike. -/
theorem mergeSort_eq_of_perm {patches patches' : List Patch} (h : patches.Perm patches') :
    patches.mergeSort le = patches'.mergeSort le :=
  List.Perm.eq_of_pairwise (fun _ _ _ _ => le_antisymm) (pairwise_mergeSort patches)
    (pairwise_mergeSort patches')
    (((List.mergeSort_perm _ _).trans h).trans (List.mergeSort_perm _ _).symm)

/-! ### Conflicts -/

/-- The range of a patch is a range of the text. -/
def IsWithin (text : Text) (p : Patch) : Prop :=
  0 ≤ p.start ∧ p.start ≤ p.stop ∧ p.stop ≤ text.length

/-- Each of two patches starts before the other ends. -/
def Overlaps (p q : Patch) : Prop :=
  p.start < q.stop ∧ q.start < p.stop

/-- A patch lies outside the text, or two patches at different places of the list overlap. -/
def AreInConflict (text : Text) (patches : List Patch) : Prop :=
  (∃ p ∈ patches, ¬p.IsWithin text) ∨
    ∃ i j : Fin patches.length, i ≠ j ∧ (patches.get i).Overlaps (patches.get j)

/-- The patches from some offset on, each behind the end of the one before. -/
def AreInLine (text : Text) (offset : Int) : List Patch → Prop
  | [] => True
  | p :: rest => p.IsWithin text ∧ offset ≤ p.start ∧ AreInLine text p.stop rest

/-- What a patch overlaps overlaps the patch. -/
theorem Overlaps.symm (h : p.Overlaps q) : q.Overlaps p :=
  ⟨h.2, h.1⟩

/-- Patches are free of conflicts if each is within the text and no two of them overlap. -/
theorem not_areInConflict_iff {text : Text} {patches : List Patch} :
    ¬AreInConflict text patches ↔
      (∀ p ∈ patches, p.IsWithin text) ∧ patches.Pairwise fun p q => ¬p.Overlaps q := by
  rw [AreInConflict, not_or, List.pairwise_iff_get]
  refine and_congr (by push Not; rfl) ⟨fun h i j hij hover => ?_, ?_⟩
  · exact h ⟨i, j, Fin.ne_of_lt hij, hover⟩
  · rintro h ⟨i, j, hne, hover⟩
    rcases lt_or_gt_of_ne hne with hij | hij
    · exact h i j hij hover
    · exact h j i hij hover.symm

/-- The order of the list does not matter to conflicts. -/
theorem areInConflict_congr {text : Text} {patches patches' : List Patch}
    (h : patches.Perm patches') : AreInConflict text patches ↔ AreInConflict text patches' := by
  have hpairs : (patches.Pairwise fun p q => ¬p.Overlaps q) ↔
      patches'.Pairwise fun p q => ¬p.Overlaps q :=
    h.pairwise_iff fun hover hover' => hover hover'.symm
  rw [← not_iff_not, not_areInConflict_iff, not_areInConflict_iff, hpairs]
  simp only [h.mem_iff]

/-- Of two patches in order that do not overlap the first ends before the second starts. -/
theorem stop_le_start (hle : le p q = true) (hq : q.start ≤ q.stop) (h : ¬p.Overlaps q) :
    p.stop ≤ q.start := by
  rw [le_iff] at hle
  unfold Overlaps at h
  omega

/-- Sorted patches are in line if they lie within the text and no two of them overlap. -/
theorem areInLine_iff {text : Text} {offset : Int} {patches : List Patch}
    (hsorted : patches.Pairwise fun p q => le p q = true) :
    AreInLine text offset patches ↔ (∀ p ∈ patches, p.IsWithin text ∧ offset ≤ p.start) ∧
      patches.Pairwise fun p q => ¬p.Overlaps q := by
  induction patches generalizing offset with
  | nil => simp [AreInLine]
  | cons p rest ih =>
    obtain ⟨hfirst, hrest⟩ := List.pairwise_cons.mp hsorted
    rw [AreInLine, ih hrest, List.forall_mem_cons, List.pairwise_cons]
    constructor
    · rintro ⟨hwithin, hstart, hbehind, hapart⟩
      refine ⟨⟨⟨hwithin, hstart⟩, fun q hq => ?_⟩, fun q hq hover => ?_, hapart⟩
      · exact ⟨(hbehind q hq).1, hstart.trans (hwithin.2.1.trans (hbehind q hq).2)⟩
      · exact absurd hover.2 (Int.not_lt.mpr (hbehind q hq).2)
    · rintro ⟨⟨⟨hwithin, hstart⟩, hbehind⟩, hover, hapart⟩
      refine ⟨hwithin, hstart, fun q hq => ?_, hapart⟩
      have hinside := (hbehind q hq).1
      exact ⟨hinside, stop_le_start (hfirst q hq) hinside.2.1 (hover q hq)⟩

/-! ### The pass over the text -/

/-- The text with the range of a patch replaced. -/
def replaceIn (text : Text) (p : Patch) : Text :=
  text.take p.start.toNat ++ p.replacement ++ text.drop p.stop.toNat

/-- Patches out of line stop the pass. -/
theorem exists_splice_error {text : Text} {cursor : Nat} {patches : List Patch}
    (h : ¬AreInLine text cursor patches) :
    ∃ conflict, splice text cursor patches = .error conflict := by
  induction patches generalizing cursor with
  | nil => exact absurd trivial h
  | cons p rest ih =>
    rw [splice]
    split
    · exact ⟨_, rfl⟩
    · rename_i hwithin
      rw [Decidable.not_not] at hwithin
      split
      · exact ⟨_, rfl⟩
      · rename_i hstart
        have hstop : (p.stop.toNat : Int) = p.stop :=
          Int.toNat_of_nonneg (hwithin.1.trans hwithin.2.1)
        have hbehind : ¬AreInLine text (p.stop.toNat : Nat) rest := fun hline =>
          h ⟨hwithin, Int.not_lt.mp hstart, hstop ▸ hline⟩
        obtain ⟨conflict, hrest⟩ := ih hbehind
        rw [hrest]
        exact ⟨conflict, rfl⟩

/-- Patches in line leave the text in front of them as it was. -/
theorem take_foldr_replaceIn {text : Text} {cursor : Nat} {patches : List Patch}
    (h : AreInLine text cursor patches) (hcursor : cursor ≤ text.length) :
    (patches.foldr (fun p text => replaceIn text p) text).take cursor = text.take cursor := by
  induction patches generalizing cursor with
  | nil => rfl
  | cons p rest ih =>
    obtain ⟨⟨hleft, hle, hright⟩, hstart, hrest⟩ := h
    have hstop : (p.stop.toNat : Int) = p.stop := Int.toNat_of_nonneg (hleft.trans hle)
    rw [← hstop] at hrest
    have hfront := congrArg (List.take p.start.toNat) (ih hrest (by omega))
    rw [List.take_take, List.take_take, Nat.min_eq_left (by omega)] at hfront
    rw [List.foldr_cons, replaceIn, hfront, List.append_assoc, List.take_append_of_le_length
      (by rw [List.length_take]; omega), List.take_take, Nat.min_eq_left (by omega)]

/-- On patches in line the pass gives what they give one by one, from the last to the first. -/
theorem splice_eq {text : Text} {cursor : Nat} {patches : List Patch}
    (h : AreInLine text cursor patches) :
    splice text cursor patches =
      .ok ((patches.foldr (fun p text => replaceIn text p) text).drop cursor) := by
  induction patches generalizing cursor with
  | nil => rfl
  | cons p rest ih =>
    obtain ⟨hwithin, hstart, hrest⟩ := h
    obtain ⟨hleft, hle, hright⟩ := id hwithin
    have hstop : (p.stop.toNat : Int) = p.stop := Int.toNat_of_nonneg (hleft.trans hle)
    rw [← hstop] at hrest
    -- the later patches have left alone what the first one keeps in front of it
    have hfront := congrArg (List.take p.start.toNat) (take_foldr_replaceIn hrest (by omega))
    rw [List.take_take, List.take_take, Nat.min_eq_left (by omega)] at hfront
    have hrange : ¬¬(0 ≤ p.start ∧ p.start ≤ p.stop ∧ p.stop ≤ text.length) := not_not.mpr hwithin
    rw [splice, if_neg hrange, if_neg (Int.not_lt.mpr hstart), ih hrest,
      List.foldr_cons, replaceIn, hfront, List.append_assoc, List.drop_append_of_le_length
      (by rw [List.length_take]; omega), ← List.append_assoc]
    rfl

/-! ### All patches together -/

/-- The text after the patches have been applied one by one, from the last one to the first. -/
def applyInTurn (text : Text) (patches : List Patch) : Text :=
  (patches.mergeSort fun p q => le q p).foldl replaceIn text

/-- Applying the patches from the last one to the first goes through the sorted list backwards. -/
theorem applyInTurn_eq (text : Text) (patches : List Patch) : applyInTurn text patches =
    (patches.mergeSort le).foldr (fun p text => replaceIn text p) text := by
  have hreverse : (patches.mergeSort fun p q => le q p) = (patches.mergeSort le).reverse := by
    have hdescending : (patches.mergeSort fun p q => le q p).Pairwise fun p q => le q p = true := by
      refine List.pairwise_mergeSort ?_ (fun p q => le_total q p) patches
      exact fun _ _ _ hqp hrq => le_trans hrq hqp
    refine List.Perm.eq_of_pairwise (fun _ _ _ _ hqp hpq => le_antisymm hpq hqp) hdescending
      (List.pairwise_reverse.mpr (pairwise_mergeSort patches)) ?_
    exact ((List.mergeSort_perm _ _).trans (List.mergeSort_perm _ _).symm).trans
      (List.reverse_perm _).symm
  rw [applyInTurn, hreverse, List.foldl_reverse]

/-- Patches are free of conflicts just when they are in line once they are sorted. -/
theorem areInLine_mergeSort_iff {text : Text} {patches : List Patch} :
    AreInLine text (0 : Nat) (patches.mergeSort le) ↔ ¬AreInConflict text patches := by
  rw [← areInConflict_congr (List.mergeSort_perm patches le), not_areInConflict_iff,
    areInLine_iff (pairwise_mergeSort patches)]
  exact and_congr_left fun _ => forall₂_congr fun p _ => and_iff_left_of_imp And.left

/-- What it means that patches are applied to a text at once. -/
structure IsSimultaneous (text : Text) (patches : List Patch) : Prop where
  fails : AreInConflict text patches ↔ ∃ conflict, applyAll text patches = .error conflict
  spliced : ¬AreInConflict text patches → applyAll text patches = .ok (applyInTurn text patches)
  orderFree : ∀ patches' : List Patch, patches'.Perm patches →
    applyAll text patches' = applyAll text patches

/-- Patches are applied at once, whatever their ranges are: they fail together just when two of them
overlap or one lies outside, and otherwise give what they give one by one from the last to the
first. -/
theorem isSimultaneous_applyAll (text : Text) (patches : List Patch) :
    IsSimultaneous text patches := by
  have hspliced (hfree : ¬AreInConflict text patches) :
      applyAll text patches = .ok (applyInTurn text patches) := by
    rw [applyInTurn_eq]
    exact splice_eq (areInLine_mergeSort_iff.mpr hfree)
  refine ⟨⟨fun hconflict => ?_, ?_⟩, hspliced, fun patches' hperm => ?_⟩
  · exact exists_splice_error fun hline => areInLine_mergeSort_iff.mp hline hconflict
  · rintro ⟨conflict, herror⟩
    by_contra hfree
    rw [hspliced hfree] at herror
    cases herror
  · rw [applyAll, applyAll, mergeSort_eq_of_perm hperm]

/-- Insertions stand in front of what starts at their place, in the order of their texts. -/
example : applyAll "abcd".toList
    [⟨1, 3, "X".toList⟩, ⟨3, 3, "z".toList⟩, ⟨1, 1, "2".toList⟩, ⟨1, 1, "1".toList⟩] =
      .ok "a12Xzd".toList := by
  cbv

end Patch

end FactoryDowngrade
