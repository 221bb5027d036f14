import FactoryDowngrade.CallSite
import FactoryDowngrade.Proofs.Text.CharClasses
import Mathlib.Data.List.Nodup
import Mathlib.Data.List.TakeWhile
import Mathlib.Data.Prod.Lex
import Mathlib.Order.Monotone.Basic

/-!
# Places name call sites

A later offset of a text has a later line, or a later column on the same one, so two offsets never
share line and column. The name of a call site spells both out, and two sites of one text that start
at different offsets have different names, whatever their strategies and factories are.
-/

namespace FactoryDowngrade

/-- Among things with different names each is found by its name. -/
theorem find?_name_of_mem {α : Type} {name : α → String} {things : List α}
    (hnames : things.Pairwise fun a b => name a ≠ name b) {x : α} (hmem : x ∈ things) :
    things.find? (fun y => name y = name x) = some x := by
  have hnodup : (things.map name).Nodup := List.pairwise_map.mpr hnames
  cases hfind : things.find? fun y => name y = name x with
  | none =>
    have hmiss := List.find?_eq_none.mp hfind x hmem
    simp at hmiss
  | some found =>
    have hname : name found = name x := by simpa using List.find?_some hfind
    rw [List.inj_on_of_nodup_map hnodup (List.mem_of_find?_eq_some hfind) hmem hname]

namespace LineIndex

/-- A later offset has a later position, by lines first and then by columns. -/
theorem position_strictMono (index : LineIndex) : StrictMono fun offset =>
    toLex ((index.position offset).line, (index.position offset).column) := by
  intro a b hab
  have hprefix : index.starts.takeWhile (· ≤ a) <+: index.starts.takeWhile (· ≤ b) := by
    have hboth : index.starts.takeWhile (· ≤ a) =
        (index.starts.takeWhile (· ≤ b)).takeWhile (· ≤ a) := by
      rw [List.takeWhile_takeWhile]
      congr 1
      funext start
      simp only [decide_eq_true_eq, decide_eq_decide]
      omega
    rw [hboth]
    exact List.takeWhile_prefix _
  rw [Prod.Lex.toLex_lt_toLex]
  rcases Nat.lt_or_eq_of_le hprefix.length_le with hline | hline
  · exact .inl hline
  · refine .inr ⟨hline, ?_⟩
    -- the last line start is at or before both offsets, so the columns tell them apart
    have hlast : (index.starts.takeWhile (· ≤ a)).getLast?.getD 0 ≤ a := by
      cases hget : (index.starts.takeWhile (· ≤ a)).getLast? with
      | none => simp
      | some start => simpa using List.mem_takeWhile_imp (List.mem_of_getLast? hget)
    simp only [position, ← hprefix.eq_of_length hline]
    omega

/-- Offsets with the same line and column are the same. -/
theorem position_injective (index : LineIndex) : Function.Injective index.position := by
  intro a b h
  exact index.position_strictMono.injective (by simp only [h])

end LineIndex

namespace CallSite

/-- A number is told from what follows it by the first character that is no digit. -/
theorem toDigits_append_cons_inj {m n : Nat} {c : Char} (hc : c.isDigit = false) {s t : Text}
    (h : Nat.toDigits 10 m ++ c :: s = Nat.toDigits 10 n ++ c :: t) : m = n ∧ s = t := by
  have hdigits (k : Nat) : ∀ d ∈ Nat.toDigits 10 k, d.isDigit = true := fun d hd =>
    Nat.isDigit_of_mem_toDigits (by omega) (by omega) hd
  have hstop (rest : Text) : (c :: rest).head?.any Char.isDigit = false := hc
  obtain ⟨heq, hrest⟩ := append_inj_of_all (hdigits m) (hdigits n) (hstop s) (hstop t) h
  refine ⟨?_, (List.cons.inj hrest).2⟩
  rw [← Nat.ofDigitChars_ten_toDigits (n := m), heq, Nat.ofDigitChars_ten_toDigits]

/-- The characters of a site's name. -/
theorem toList_idOf (position : Position) (variant : String) (schema : Option String) :
    ∃ rest, (idOf position variant schema).toList = "site:L".toList ++
      (Nat.toDigits 10 position.line ++ ':' :: 'C' ::
        (Nat.toDigits 10 position.column ++ ':' :: rest)) := by
  unfold idOf
  simp [String.toList_append, toString]

/-- Sites with the same name stand at the same line and column. -/
theorem position_eq_of_idOf_eq {p q : Position} {variant variant' : String}
    {schema schema' : Option String} (h : idOf p variant schema = idOf q variant' schema') :
    p = q := by
  obtain ⟨rest, hp⟩ := toList_idOf p variant schema
  obtain ⟨rest', hq⟩ := toList_idOf q variant' schema'
  rw [h, hq] at hp
  obtain ⟨hline, htail⟩ :=
    toDigits_append_cons_inj (by decide) (List.append_cancel_left hp)
  obtain ⟨hcolumn, -⟩ := toDigits_append_cons_inj (by decide) (List.cons.inj htail).2
  cases p
  cases q
  simp_all

end CallSite

end FactoryDowngrade
