import FactoryDowngrade.Proofs.Template.Names

/-!
# Searches on templates

A search tries one place of a text after the other. If it finds nothing inside words and the same
at the spots of every filling, it finds the same in every filling as a whole.
-/

namespace FactoryDowngrade

open Template

namespace Cursor

variable {α : Type}

/-- A reader or test that finds nothing inside a word. -/
def SkipsWords (test : Cursor → Option α) : Prop :=
  ∀ c : Cursor, c.follows CharClass.isWord = true → c.precedes CharClass.isWord = true →
    test c = none

/-- A test that fails at every place of a stretch goes on behind it. -/
theorem findSome?_append_of_none {test : Cursor → Option α} {u before after : Text}
    (hnone : ∀ p q, u = p ++ q → q ≠ [] → test ⟨p.reverse ++ before, q ++ after⟩ = none) :
    findSome? test before (u ++ after) = findSome? test (u.reverse ++ before) after := by
  induction u generalizing before with
  | nil => rfl
  | cons c u ih =>
    have hfirst : test ⟨before, c :: (u ++ after)⟩ = none := hnone [] (c :: u) rfl (by simp)
    rw [List.cons_append, findSome?, hfirst]
    dsimp only
    rw [ih fun p q hu hq => by
      have hrest := hnone (c :: p) q (by rw [hu]; rfl) hq
      rwa [List.reverse_cons, List.append_assoc] at hrest, List.reverse_cons, List.append_assoc]
    rfl

/-- Readings that fail at every place of a stretch go on behind it. -/
theorem readAll_append_of_none {read : Cursor → Option (α × Cursor)} {u before after : Text}
    (hnone : ∀ p q, u = p ++ q → q ≠ [] → read ⟨p.reverse ++ before, q ++ after⟩ = none) :
    readAll read ⟨before, u ++ after⟩ = readAll read ⟨u.reverse ++ before, after⟩ := by
  induction u generalizing before with
  | nil => rfl
  | cons c u ih =>
    have hfirst : read ⟨before, c :: (u ++ after)⟩ = none := hnone [] (c :: u) rfl (by simp)
    rw [List.cons_append, readAll_cons_of_none hfirst,
      ih fun p q hu hq => by
        have hrest := hnone (c :: p) q (by rw [hu]; rfl) hq
        rwa [List.reverse_cons, List.append_assoc] at hrest, List.reverse_cons,
      List.append_assoc]
    rfl

end Cursor

namespace Template

variable {α V : Type}

/-- A reader or test that finds nothing inside a slot's word. -/
def SkipsSlots (test : Cursor → Option α) (t : Template) : Prop :=
  ∀ (s : Spot) (rest : Template), s.whole = t → s.after = none :: rest →
    ∀ (f : Filling) (p q : Text), f.word = p ++ q → p ≠ [] → q ≠ [] →
      test ⟨p.reverse ++ fill f.word.reverse s.before, q ++ fill f.word rest⟩ = none

/-- What finds nothing inside words finds nothing inside those of slots. -/
theorem skipsSlots_of_skipsWords {test : Cursor → Option α} (h : Cursor.SkipsWords test)
    (t : Template) : SkipsSlots test t := by
  intro s rest _ _ f p q hword hp hq
  have hinside : Cursor.InWord ⟨p.reverse ++ fill f.word.reverse s.before,
      q ++ fill f.word rest⟩ := inWord_of_split hword hp hq
  exact h _ hinside.1 hinside.2

/-- A test that fails at a slot and inside it fails all along the slot's word. -/
theorem SkipsSlots.append {test : Cursor → Option α} {t : Template} (h : SkipsSlots test t)
    {before rest : Template} (hs : (Spot.mk before (none :: rest)).whole = t) {f : Filling}
    (hnone : test ((Spot.mk before (none :: rest)).cursor f) = none) (p q : Text)
    (hword : f.word = p ++ q) (hq : q ≠ []) :
    test ⟨p.reverse ++ fill f.word.reverse before, q ++ fill f.word rest⟩ = none := by
  cases p with
  | nil =>
    rw [List.nil_append] at hword
    rw [← hword]
    exact hnone
  | cons c p => exact h _ rest hs rfl f (c :: p) q hword (by simp) hq

/-- What a test finds first is the same in every filling. -/
theorem exists_first?_cursor (test : Cursor → Option α) {t : Template}
    (hskips : SkipsSlots test t) (render : V → Filling → α) (good : V → Prop)
    (htest : ∀ s : Spot, s.whole = t → ∃ found : Option V, (∀ v ∈ found, good v) ∧
      ∀ f : Filling, test (s.cursor f) = found.map (render · f)) (s : Spot) (hs : s.whole = t) :
    ∃ found : Option V, (∀ v ∈ found, good v) ∧
      ∀ f : Filling, Cursor.first? test (s.cursor f) = found.map (render · f) := by
  obtain ⟨before, after⟩ := s
  induction after generalizing before with
  | nil => exact htest _ hs
  | cons item after ih =>
    obtain ⟨found, hgood, hfound⟩ := htest _ hs
    cases found with
    | some v =>
      refine ⟨some v, hgood, fun f => ?_⟩
      have hv : test ⟨fill f.word.reverse before, fill f.word (item :: after)⟩ =
          some (render v f) := hfound f
      rw [Cursor.first?, Spot.cursor]
      cases hafter : fill f.word (item :: after) with
      | nil =>
        rw [hafter] at hv
        rw [Cursor.findSome?, hv]
        rfl
      | cons c rest =>
        rw [hafter] at hv
        rw [Cursor.findSome?, hv]
        rfl
    | none =>
      obtain ⟨rest, hrestGood, hrest⟩ := ih (item :: before) (by
        rw [← hs]
        simp [Spot.whole])
      refine ⟨rest, hrestGood, fun f => ?_⟩
      rw [← hrest f]
      have hnone : test ⟨fill f.word.reverse before, fill f.word (item :: after)⟩ = none :=
        hfound f
      cases item with
      | some c =>
        rw [fill_some] at hnone
        rw [Cursor.first?, Spot.cursor, fill_some, Cursor.findSome?, hnone]
        rfl
      | none =>
        exact Cursor.findSome?_append_of_none (hskips.append hs hnone)

/-- Successive readings are the same in every filling. -/
theorem exists_readAll_cursor (read : Cursor → Option (α × Cursor)) {t : Template}
    (hprogress : Cursor.IsProgressive read) (hskips : SkipsSlots read t)
    (render : V → Filling → α) (good : V → Prop)
    (hread : ∀ s : Spot, s.whole = t → ∃ found : Option (V × Nat),
      (∀ v ∈ found, good v.1) ∧ ∀ f : Filling, read (s.cursor f) =
        found.map fun v => (render v.1 f, (s.move v.2).cursor f)) (s : Spot) (hs : s.whole = t) :
    ∃ found : List V, (∀ v ∈ found, good v) ∧
      ∀ f : Filling, Cursor.readAll read (s.cursor f) = found.map (render · f) := by
  induction hlength : s.after.length using Nat.strongRecOn generalizing s with
  | ind n ih =>
    obtain ⟨found, hgood, hfound⟩ := hread s hs
    cases found with
    | some v =>
      obtain ⟨v, count⟩ := v
      have hshorter : (s.move count).after.length < n := by
        obtain ⟨stretch, hstretch, hpass⟩ := hprogress _ _ _ (hfound .created)
        have hchars : (s.cursor .created).after.length =
            stretch.length + ((s.move count).cursor .created).after.length := hpass.length_after
        have hpos := List.length_pos_iff.mpr hstretch
        exact hlength ▸ Spot.length_after_move_lt (f := .created) (by omega)
      obtain ⟨rest, hrestGood, hrest⟩ :=
        ih _ hshorter (s.move count) (by rwa [Spot.whole_move]) rfl
      refine ⟨v :: rest, fun x hx => ?_, fun f => ?_⟩
      · rcases List.mem_cons.mp hx with rfl | hx
        · exact hgood _ rfl
        · exact hrestGood x hx
      · rw [Cursor.readAll_of_some hprogress (hfound f), hrest f]
        rfl
    | none =>
      obtain ⟨before, after⟩ := s
      cases after with
      | nil =>
        refine ⟨[], by simp, fun f => ?_⟩
        exact Cursor.readAll_nil_of_none (hfound f)
      | cons item after =>
        obtain ⟨rest, hrestGood, hrest⟩ := ih after.length (by
          simp only [List.length_cons] at hlength
          omega) ⟨item :: before, after⟩ (by rw [← hs]; simp [Spot.whole]) rfl
        refine ⟨rest, hrestGood, fun f => ?_⟩
        rw [← hrest f]
        have hnone : read ⟨fill f.word.reverse before, fill f.word (item :: after)⟩ = none :=
          hfound f
        cases item with
        | some c =>
          rw [fill_some] at hnone
          rw [Spot.cursor, fill_some, Cursor.readAll_cons_of_none hnone]
          rfl
        | none =>
          exact Cursor.readAll_append_of_none (hskips.append hs hnone)

end Template

namespace Pattern

variable {p : Pattern} {pre post : Spot → Prop}

/-- What fits nowhere inside words has no match inside those of slots. -/
theorem SkipsWords.skipsSlots (h : SkipsWords p) (t : Template) : SkipsSlots p.match? t :=
  skipsSlots_of_skipsWords (fun c hfollows hprecedes => by
    rw [match?, h c hfollows hprecedes]
    rfl) t

/-- Whether a pattern occurs is the same in every filling. -/
theorem Tracks.exists_occurs (h : Tracks pre p post) {s : Spot} (hs : IsOrderly s.whole)
    (hpre : ∀ e : Spot, e.whole = s.whole → pre e) (hskips : SkipsSlots p.match? s.whole) :
    ∃ b, ∀ f : Filling, p.occurs (s.cursor f) = b := by
  obtain ⟨found, -, hfound⟩ := exists_first?_cursor
    (fun place => (p.match? place).map fun stop => (place, stop))
    (fun e rest he hafter f front back hword hfront hback =>
      congrArg (Option.map _) (hskips e rest he hafter f front back hword hfront hback))
    (fun (v : Spot × Spot) f => (v.1.cursor f, v.2.cursor f)) (fun _ => True) (fun e he => by
      obtain ⟨stops, -, hends⟩ := h e (he ▸ hs) (hpre e he)
      refine ⟨stops.head?.map fun stop => (e, stop), by simp, fun f => ?_⟩
      rw [match?, hends f, List.head?_map, Option.map_map, Option.map_map]
      rfl) s rfl
  refine ⟨found.isSome, fun f => ?_⟩
  rw [occurs, search?, hfound f, Option.isSome_map]

/-- Successive matches are the same in every filling if the first one at each spot is. -/
theorem exists_allMatches_of_match? {t : Template} (hmatch : ∀ s : Spot, s.whole = t →
      ∃ count : Option Nat, ∀ f : Filling, p.match? (s.cursor f) =
        count.map fun n => (s.move n).cursor f)
    (hwords : SkipsWords p) (htakes : TakesSome p) :
    ∃ found : List (Spot × Spot), (∀ v ∈ found, v.1.whole = t ∧ ∃ count, v.2 = v.1.move count) ∧
      ∀ f : Filling, p.allMatches (fill f.word t) =
        found.map fun v => (v.1.cursor f, v.2.cursor f) := by
  have hskips : Cursor.SkipsWords p.reading := by
    intro c hfollows hprecedes
    rw [reading, match?, hwords c hfollows hprecedes]
    rfl
  obtain ⟨found, hgood, hfound⟩ := exists_readAll_cursor p.reading (isProgressive_reading htakes)
    (skipsSlots_of_skipsWords hskips t)
    (fun (v : Spot × Spot) f => (v.1.cursor f, v.2.cursor f))
    (fun v => v.1.whole = t ∧ ∃ count, v.2 = v.1.move count) (fun s hs => by
      obtain ⟨count, hcount⟩ := hmatch s hs
      refine ⟨count.map fun n => ((s, s.move n), n), fun v hv => ?_, fun f => ?_⟩
      · obtain ⟨n, -, rfl⟩ := Option.map_eq_some_iff.mp hv
        exact ⟨hs, n, rfl⟩
      · rw [reading, hcount f, Option.map_map, Option.map_map]
        rfl) (Spot.start t) rfl
  refine ⟨found, hgood, fun f => ?_⟩
  rw [allMatches, matchesFrom_eq_readAll htakes, ← Spot.cursor_start, hfound f]

/-- Successive matches are the same in every filling. -/
theorem Tracks.exists_allMatches (h : Tracks anywhere p post) (hwords : SkipsWords p)
    (htakes : TakesSome p) {t : Template} (ht : IsOrderly t) :
    ∃ found : List (Spot × Spot), (∀ v ∈ found, v.1.whole = t ∧ ∃ count, v.2 = v.1.move count) ∧
      ∀ f : Filling, p.allMatches (fill f.word t) =
        found.map fun v => (v.1.cursor f, v.2.cursor f) := by
  refine exists_allMatches_of_match? (fun s hs => ?_) hwords htakes
  obtain ⟨stops, hstops, hends⟩ := h s (hs ▸ ht) trivial
  cases stops with
  | nil => exact ⟨none, fun f => by rw [match?, hends f]; rfl⟩
  | cons stop stops =>
    obtain ⟨⟨count, rfl⟩, -⟩ := hstops stop List.mem_cons_self
    exact ⟨some count, fun f => by rw [match?, hends f]; rfl⟩

end Pattern

end FactoryDowngrade
