import FactoryDowngrade.Granularity
import FactoryDowngrade.Proofs.Ruby.LineStarts
import FactoryDowngrade.Proofs.Text.AddedLines

/-!
# More code never narrows the scope

Complete lines of code that are added before or behind the code of a spec are masked apart from it,
and every cue that the code showed is still there. So the scope that is inferred for the whole is
at least as wide as the scope of either part. It may be wider than both, since a cue may go over a
line break.
-/

namespace FactoryDowngrade

/-! ### The last line of a mask -/

/-- A mask ends with a line break where the text does. -/
theorem getLast?_mask_of_lineBreak {text : Text} (h : text.getLast? = some '\n') :
    (mask text).getLast? = some '\n' := by
  rw [List.getLast?_eq_getElem?] at h
  obtain ⟨m, hm, himage⟩ := exists_getElem?_mask h
  rw [List.getLast?_eq_getElem?, length_mask, hm]
  rcases himage with rfl | ⟨-, hne⟩
  · rfl
  · exact absurd rfl hne

namespace Granularity

/-- How wide a scope is; code without a cue comes before every scope. -/
def breadth : Option Granularity → Nat
  | none => 0
  | some unit => 1
  | some integration => 2
  | some request => 3
  | some endToEnd => 4

/-! ### Cues -/

/-- Every cue stays when whole lines are added. -/
theorem isLineBound_of_mem_cues :
    (cues.all fun (_, patterns) => patterns.all Pattern.isLineBound) = true := by
  decide

/-- The widest scopes come first. -/
theorem pairwise_breadth_cues :
    cues.Pairwise fun x y => breadth (some y.1) ≤ breadth (some x.1) := by
  decide

/-- A weaker test finds a member at the same place or before, which is at least as wide. -/
theorem breadth_find?_le {α : Type} {p q : Granularity × α → Bool}
    {members : List (Granularity × α)}
    (hsorted : members.Pairwise fun x y => breadth (some y.1) ≤ breadth (some x.1))
    (h : ∀ x ∈ members, p x = true → q x = true) :
    breadth ((members.find? p).map (·.1)) ≤ breadth ((members.find? q).map (·.1)) := by
  induction members with
  | nil => exact Nat.le_refl _
  | cons x members ih =>
    obtain ⟨hfirst, hrest⟩ := List.pairwise_cons.mp hsorted
    by_cases hq : q x = true
    · rw [List.find?_cons_of_pos hq]
      cases hfound : (x :: members).find? p with
      | none => exact Nat.zero_le _
      | some y =>
        rcases List.mem_cons.mp (List.mem_of_find?_eq_some hfound) with rfl | hy
        · exact Nat.le_refl _
        · exact hfirst y hy
    · have hp : ¬p x = true := fun hp => hq (h x List.mem_cons_self hp)
      rw [List.find?_cons_of_neg hp, List.find?_cons_of_neg hq]
      exact ih hrest fun y hy => h y (List.mem_cons_of_mem _ hy)

/-- A masked text with whole lines added shows a scope that is at least as wide. -/
theorem breadth_ofMasked?_le {front text back : Text} (h : AddsLines front text back) :
    breadth (ofMasked? text) ≤ breadth (ofMasked? (front ++ text ++ back)) := by
  refine breadth_find?_le pairwise_breadth_cues fun x hx hany => ?_
  obtain ⟨p, hp, hoccurs⟩ := List.any_eq_true.mp hany
  have hbound := List.all_eq_true.mp (List.all_eq_true.mp isLineBound_of_mem_cues x hx) p hp
  exact List.any_eq_true.mpr ⟨p, hp, Pattern.occurs_amid hbound h hoccurs⟩

/-! ### Code around code -/

/-- The scope that is inferred for a text is at least as wide as the one for the lines before a
place in it and the one for the lines behind, where the place is the start of a line in top-level
code with no heredoc pending. -/
theorem breadth_infer?_le {front back : Text} (hline : front = [] ∨ front.getLast? = some '\n')
    (h : IsClearAt (front ++ back) front.length) :
    breadth (infer? front) ≤ breadth (infer? (front ++ back)) ∧
      breadth (infer? back) ≤ breadth (infer? (front ++ back)) := by
  rcases hline with rfl | hbreak
  · exact ⟨Nat.zero_le _, Nat.le_refl _⟩
  · have hmask : mask (front ++ back) = mask front ++ mask back := by
      have hreach := exists_reaches_clear (by simp [hbreak]) h
      simpa using mask_eq_append_of_reaches hreach (by simpa using hbreak)
    have hmasked := getLast?_mask_of_lineBreak hbreak
    have hbehind : AddsLines [] (mask front) (mask back) := ⟨.inl rfl, .inr hmasked⟩
    have hbefore : AddsLines (mask front) (mask back) [] := ⟨.inr hmasked, .inl rfl⟩
    have hfirst := breadth_ofMasked?_le hbehind
    have hsecond := breadth_ofMasked?_le hbefore
    rw [List.nil_append] at hfirst
    rw [List.append_nil] at hsecond
    rw [infer?, infer?, infer?, hmask]
    exact ⟨hfirst, hsecond⟩

/-- The head of a model spec, with a heredoc that names a browser step. -/
def modelHead : Text := "type: :model do\n  x = <<~A\n    visit x\n  A\n".toList

/-- A request whose path stands on a line of its own. -/
def requestLines : Text := "  get\n    '/'\n".toList

/-- A request behind a model spec. -/
theorem breadth_infer?_le_requestLines :
    (modelHead = [] ∨ modelHead.getLast? = some '\n') ∧
    IsClearAt (modelHead ++ requestLines) modelHead.length ∧
    breadth (infer? modelHead) ≤ breadth (infer? (modelHead ++ requestLines)) ∧
    breadth (infer? requestLines) ≤ breadth (infer? (modelHead ++ requestLines)) := by
  have hline : modelHead = [] ∨ modelHead.getLast? = some '\n' := by decide
  have hclear : IsClearAt (modelHead ++ requestLines) modelHead.length :=
    ⟨Scan.steps 24 (Scan.start _), ⟨24, rfl⟩, by decide +kernel, by decide +kernel,
      by decide⟩
  exact ⟨hline, hclear, breadth_infer?_le hline hclear⟩

end Granularity

end FactoryDowngrade
