import FactoryDowngrade.Proofs.Ruby.MaskGeometry
import FactoryDowngrade.Proofs.SiteIdentity
import FactoryDowngrade.Proofs.Text.PatternEnds
import Mathlib.Data.List.Nodup

/-!
# Where call sites stand

The head of a call begins where the search stands, may pass a receiver, and then passes the method
name. Heads are found one behind the other, so the method names of a text's calls never overlap,
and the text spells each of them out: what the masked text shows is what stands in the text.
Different sites start at different places, which is why their names differ.
-/

namespace FactoryDowngrade

namespace CallSite

open Cursor

/-- What a search result says about a head: the places of its parts, and what stands around it. -/
structure Head.StandsAt (h : Head) (c stop : Cursor) : Prop where
  first : h.first = c
  last : h.last = stop
  unspoiled : c.follows spoilsBefore = false
  receiver : h.callee ∈ (Pattern.maybe receiver).ends c
  callee : h.callee.Passes h.variant.method.toList stop
  notKey : stop ∈ Reference.notKey.ends stop

/-- No word goes on into a head. -/
theorem Head.StandsAt.follows_isWord {h : Head} {c stop : Cursor} (hstands : h.StandsAt c stop) :
    c.follows CharClass.isWord = false :=
  any_eq_false_of_imp (fun _ hword => Bool.or_eq_true_iff.mpr (.inl hword)) hstands.unspoiled

/-- A condition on what follows ends where it is asked. -/
theorem eq_of_mem_ends_notKey {c d : Cursor} (h : d ∈ Reference.notKey.ends c) : d = c :=
  (Pattern.eq_of_mem_condition h).2

/-- Every head that is found stands where it says. -/
theorem standsAt_of_headAt? {c stop : Cursor} {h : Head} (hhead : headAt? c = some (h, stop)) :
    h.StandsAt c stop := by
  unfold headAt? at hhead
  split at hhead
  · simp at hhead
  · rename_i hspoiled
    obtain ⟨callee, hcallee, hvariants⟩ := List.exists_of_findSome?_eq_some hhead
    obtain ⟨variant, -, hmatch⟩ := List.exists_of_findSome?_eq_some hvariants
    obtain ⟨last, hlast, hpair⟩ := Option.map_eq_some_iff.mp hmatch
    obtain ⟨rfl, rfl⟩ := Prod.mk.inj hpair
    have hends := List.mem_of_head? hlast
    obtain ⟨behind, hword, hkey⟩ := Pattern.mem_ends_seq.mp hends
    obtain rfl := eq_of_mem_ends_notKey hkey
    exact ⟨rfl, rfl, by simpa using hspoiled, hcallee, Pattern.mem_ends_literal.mp hword, hkey⟩

/-- A method name is not empty. -/
theorem method_ne_nil (v : Variant) : v.method.toList ≠ [] := by
  cases v <;> decide

namespace Head.StandsAt

variable {h : Head} {c stop : Cursor}

/-- Something, or nothing, is passed before the method name. -/
theorem exists_passes_callee (hstands : h.StandsAt c stop) :
    ∃ lead, c.Passes lead h.callee :=
  Pattern.passes_of_mem_ends hstands.receiver

/-- A head passes its receiver and its method name. -/
theorem exists_passes (hstands : h.StandsAt c stop) :
    ∃ stretch, stretch ≠ [] ∧ c.Passes stretch stop := by
  obtain ⟨lead, hlead⟩ := hstands.exists_passes_callee
  exact ⟨_, List.append_ne_nil_of_right_ne_nil _ (method_ne_nil _), hlead.trans hstands.callee⟩

end Head.StandsAt

/-- Every head passes something. -/
theorem isProgressive_headAt? : IsProgressive headAt? := fun _ _ _ h =>
  (standsAt_of_headAt? h).exists_passes

/-- The heads of a masked text, in order. -/
def heads (masked : Text) : List Head :=
  Cursor.readAll headAt? (Cursor.start masked)

/-- The heads of a text stand one behind the other. -/
theorem pairwise_heads (masked : Text) :
    (heads masked).Pairwise fun a b => a.last.offset ≤ b.first.offset :=
  Cursor.pairwise_readAll isProgressive_headAt?
    (fun _ _ _ h => ⟨(standsAt_of_headAt? h).first, (standsAt_of_headAt? h).last⟩) _

/-- Every head of a text stands in it. -/
theorem standsAt_of_mem_heads {masked : Text} {h : Head} (hmem : h ∈ heads masked) :
    h.StandsAt h.first h.last ∧ h.first.text = masked := by
  obtain ⟨stretch, d, stop, hreach, hread⟩ :=
    exists_read_of_mem_readAll isProgressive_headAt? hmem
  have hstands := standsAt_of_headAt? hread
  rw [hstands.first, hstands.last]
  exact ⟨hstands, by rw [hreach.text, text_start]⟩

/-! ### How a head begins a call -/

/-- The calls that a head may begin: one whose parenthesis is never closed, one with its arguments
between parentheses, and one where blanks lead to a factory name. -/
inductive Head.Begins (h : Head) (text : Text) : Call → Prop where
  | unbalanced (hround : h.last.after.head? = some '(')
      (hclose : Bracket.closeDistance BracketRole.ofChar [] h.last.after = none) :
      h.Begins text h.unbalanced
  | parenthesized {distance : Nat} (hround : h.last.after.head? = some '(')
      (hclose : Bracket.closeDistance BracketRole.ofChar [] h.last.after = some distance) :
      h.Begins text (h.call text (h.last.offset + 1) (h.last.offset + distance)
        (h.last.offset + distance + 1))
  | bare {gap rest : Text} (hafter : h.last.after = gap ++ rest) (hgap : gap ≠ [])
      (hblank : ∀ c ∈ gap, CharClass.isSpaceOrTab c = true)
      (hrest : rest.head?.any CharClass.isSpaceOrTab = false)
      (hname : beginsName (text.drop (h.last.offset + gap.length)) = true) :
      h.Begins text (h.call text (h.last.offset + gap.length)
        (h.last.offset + gap.length + Statement.argumentLength rest)
        (h.last.offset + gap.length + Statement.argumentLength rest))

/-- A head begins a call in one of these ways, unless a method of its name is defined there. -/
theorem Head.call?_eq_some_iff {h : Head} {text : Text} {call : Call} :
    h.call? text = some call ↔ h.isDefinition = false ∧ h.Begins text call := by
  constructor
  · intro hcall
    unfold Head.call? at hcall
    split at hcall
    · cases hcall
    rename_i hdefinition
    refine ⟨Bool.eq_false_iff.mpr hdefinition, ?_⟩
    dsimp only at hcall
    split at hcall
    · rename_i hround
      split at hcall
      · rename_i hclose
        obtain rfl := Option.some.inj hcall
        exact .unbalanced hround hclose
      · rename_i distance hclose
        obtain rfl := Option.some.inj hcall
        exact .parenthesized hround hclose
    · split at hcall
      · rename_i hbegins
        obtain rfl := Option.some.inj hcall
        rw [Bool.and_eq_true, Bool.not_eq_true', List.isEmpty_eq_false_iff] at hbegins
        obtain ⟨hgap, hname⟩ := hbegins
        have hsplit := List.takeWhile_append_dropWhile (p := CharClass.isSpaceOrTab)
          (l := h.last.after)
        rw [drop_length_takeWhile]
        exact .bare hsplit.symm hgap (fun c hc => List.mem_takeWhile_imp hc)
          (any_head?_dropWhile _ _) hname
      · cases hcall
  · rintro ⟨hdefinition, hbegins⟩
    unfold Head.call?
    rw [hdefinition, if_neg (by decide)]
    dsimp only
    cases hbegins with
    | unbalanced hround hclose => rw [if_pos hround, hclose]
    | parenthesized hround hclose => rw [if_pos hround, hclose]
    | @bare gap rest hafter hgap hblank hrest hname =>
      have hspaces : h.last.after.takeWhile CharClass.isSpaceOrTab = gap := by
        rw [hafter, (takeWhile_append_stop hblank hrest).1]
      have hround : h.last.after.head? ≠ some '(' := by
        rw [hafter, List.head?_append_of_ne_nil _ hgap]
        intro hhead
        exact absurd (hblank _ (List.mem_of_head? hhead)) (by decide)
      rw [if_neg hround, hspaces, if_pos (by simp [hgap, hname]), hafter, List.drop_left]

/-- What a call takes over from its head. -/
structure Call.HasHead (call : Call) (h : Head) : Prop where
  variant : call.variant = h.variant
  start : call.start = h.first.offset
  calleeStart : call.calleeStart = h.callee.offset
  calleeStop : call.calleeStop = h.last.offset

/-- A call stands where its head does. -/
theorem hasHead_of_call? {h : Head} {text : Text} {call : Call} (hcall : h.call? text = some call) :
    call.HasHead h := by
  obtain ⟨-, hbegins⟩ := Head.call?_eq_some_iff.mp hcall
  cases hbegins <;> exact ⟨rfl, rfl, rfl, rfl⟩

/-- Every call has its head in the masked text. -/
theorem exists_head_of_mem_calls {text masked : Text} {call : Call}
    (h : call ∈ calls text masked) : ∃ head ∈ heads masked, call.HasHead head := by
  obtain ⟨head, hmem, hcall⟩ := List.mem_filterMap.mp h
  exact ⟨head, hmem, hasHead_of_call? hcall⟩

/-- The places of a call: its head starts it, and its method name is spelled out in the text. -/
structure Call.IsSpelled (call : Call) (text : Text) : Prop where
  start_le : call.start ≤ call.calleeStart
  stop_eq : call.calleeStop = call.calleeStart + call.variant.method.toList.length
  stop_le : call.calleeStop ≤ text.length
  slice : text.slice call.calleeStart call.calleeStop = call.variant.method.toList

/-- A method name has no blank. -/
theorem ne_blank_of_mem_method {v : Variant} {c : Char} (h : c ∈ v.method.toList) : c ≠ ' ' := by
  rintro rfl
  revert h
  cases v <;> decide

/-- Every call of a text is spelled out in it. -/
theorem isSpelled_of_mem_calls {text : Text} {call : Call} (h : call ∈ calls text (mask text)) :
    call.IsSpelled text := by
  obtain ⟨head, hmem, hhead⟩ := exists_head_of_mem_calls h
  obtain ⟨hstands, htext⟩ := standsAt_of_mem_heads hmem
  obtain ⟨lead, hlead⟩ := hstands.exists_passes_callee
  have hslice := hstands.callee.slice
  have htextCallee := hlead.text.trans htext
  have hstop := hstands.callee.offset
  constructor
  · rw [hhead.start, hhead.calleeStart, hlead.offset]
    omega
  · rw [hhead.calleeStop, hhead.calleeStart, hhead.variant, hstop]
  · rw [hhead.calleeStop, ← length_mask text, ← htextCallee, ← hstands.callee.text, Cursor.text,
      Cursor.offset, List.length_append, List.length_reverse]
    omega
  · rw [hhead.calleeStart, hhead.calleeStop, hhead.variant]
    refine slice_eq_of_slice_mask (htextCallee ▸ hslice) fun c hc => ne_blank_of_mem_method hc

/-- The method name of a call stands before the start of every later call. -/
theorem pairwise_calls (text masked : Text) :
    (calls text masked).Pairwise fun a b => a.calleeStop ≤ b.start := by
  refine List.Pairwise.filterMap _ (fun a b hab c hc d hd => ?_) (pairwise_heads masked)
  rw [(hasHead_of_call? hc).calleeStop, (hasHead_of_call? hd).start]
  exact hab

/-- Calls start at ascending offsets. -/
theorem pairwise_start_calls (text : Text) :
    (calls text (mask text)).Pairwise fun a b => a.start < b.start := by
  refine (pairwise_calls text (mask text)).imp_of_mem fun {a b} ha _ hab => ?_
  have hspelled := isSpelled_of_mem_calls ha
  have hmethod := List.length_pos_iff.mpr (method_ne_nil a.variant)
  have hstart := hspelled.start_le
  have hstop := hspelled.stop_eq
  omega

/-- Calls that start at the same offset are the same. -/
theorem eq_of_start_eq {text : Text} {a b : Call} (ha : a ∈ calls text (mask text))
    (hb : b ∈ calls text (mask text)) (h : a.start = b.start) : a = b := by
  have hnodup : ((calls text (mask text)).map (·.start)).Nodup :=
    List.pairwise_map.mpr ((pairwise_start_calls text).imp Nat.ne_of_lt)
  exact List.inj_on_of_nodup_map hnodup ha hb h

/-- Calls whose method names start at the same offset are the same. -/
theorem eq_of_calleeStart_eq {text : Text} {a b : Call} (ha : a ∈ calls text (mask text))
    (hb : b ∈ calls text (mask text)) (h : a.calleeStart = b.calleeStart) : a = b := by
  have hcallees : (calls text (mask text)).Pairwise fun a b => a.calleeStart < b.calleeStart := by
    refine (pairwise_calls text (mask text)).imp_of_mem fun {a b} ha hb hab => ?_
    have hmethod := List.length_pos_iff.mpr (method_ne_nil a.variant)
    have hstop := (isSpelled_of_mem_calls ha).stop_eq
    have hstart := (isSpelled_of_mem_calls hb).start_le
    omega
  have hnodup : ((calls text (mask text)).map (·.calleeStart)).Nodup :=
    List.pairwise_map.mpr (hcallees.imp Nat.ne_of_lt)
  exact List.inj_on_of_nodup_map hnodup ha hb h

/-- The site of a call in its text. -/
def siteOf (text : Text) (call : Call) : CallSite :=
  ofCall text (mask text) (LineIndex.ofText text) (LazyBinding.all (mask text))
    (calls text (mask text)) call

/-- The sites of a text are those of its calls. -/
theorem extract_eq_map (text : Text) :
    extract text = (calls text (mask text)).map (siteOf text) := rfl

/-- Sites that start at different offsets have different names. -/
theorem id_siteOf_ne {text : Text} {a b : Call} (h : a.start ≠ b.start) :
    (siteOf text a).id ≠ (siteOf text b).id := fun hid =>
  h (LineIndex.position_injective _ (position_eq_of_idOf_eq hid))

/-- No two sites of a text share a name. -/
theorem pairwise_id_extract (text : Text) :
    (extract text).Pairwise fun a b => a.id ≠ b.id := by
  rw [extract_eq_map, List.pairwise_map]
  exact (pairwise_start_calls text).imp fun hab => id_siteOf_ne (Nat.ne_of_lt hab)

end CallSite

end FactoryDowngrade
