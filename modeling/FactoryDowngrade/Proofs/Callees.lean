import FactoryDowngrade.Evidence.Detector
import FactoryDowngrade.Proofs.CallInvocations
import FactoryDowngrade.Proofs.Ruby.MaskGeometry
import FactoryDowngrade.Proofs.Ruby.ReceiverChains
import FactoryDowngrade.Proofs.Template.Invocations

/-!
# Callees of invocations

The callee of an invocation is the receiver chain that ends with its name. It holds the name and
stands where the description of the invocation begins.

Lookups and boundaries are told by patterns that are anchored at the ends of a chain. What they read
is the callee without its groups: names and the marks that join them, and no part of any argument.
-/

namespace FactoryDowngrade

open Receiver

/-- The characters of a name belong to chains and join nothing. -/
theorem Reference.isChainChar_of_extendsName {c : Char} (h : extendsName c = true) :
    isChainChar c = true ∧ isJoint c = false := by
  have hmarks : ∀ mark ∈ ['?', '!'], isChainChar mark = true ∧ isJoint mark = false := by decide
  rw [extendsName, Bool.or_assoc, Bool.or_eq_true] at h
  rcases h with hword | hmark
  · have hjoints : ∀ joint ∈ ['.', '&', ':'], CharClass.isWord joint = false := by decide
    refine ⟨isChainChar_iff.mpr (.inl hword), ?_⟩
    by_contra hjoint
    rw [Bool.not_eq_false] at hjoint
    rw [hjoints c (by simpa [isJoint, or_assoc] using hjoint)] at hword
    cases hword
  · exact hmarks c (by simpa using hmark)

/-- A name that ends a text ends the callee there. -/
theorem Receiver.IsCallee.suffix_of_name {passed callee name : Text} (h : IsCallee passed callee)
    (hname : name <:+ passed) (hchars : ∀ c ∈ name, Reference.extendsName c = true) :
    name <:+ callee := by
  obtain ⟨joints, hjoints, -, hlongest⟩ := h.longest
  have hchain : IsChain name := isChain_of_forall fun c hc =>
    (Reference.isChainChar_of_extendsName (hchars c hc)).1
  have hend := hlongest.suffix_of name hchain hname
  rcases List.suffix_or_suffix_of_suffix hend (List.suffix_append joints callee) with hin | hover
  · exact hin
  · -- what a longer name had in front of the callee would join it to something
    obtain ⟨front, rfl⟩ := hover
    rw [List.suffix_append_self_iff] at hend
    cases front with
    | nil => exact List.suffix_rfl
    | cons c front =>
      have hjoint := hjoints c (hend.subset List.mem_cons_self)
      have hnone := (Reference.isChainChar_of_extendsName (hchars c List.mem_cons_self)).2
      rw [hnone] at hjoint
      cases hjoint

namespace Invocation

open Pattern

section Names

variable {masked : Text} {i : Invocation} {first last : Cursor}

/-- The callee of an invocation is the chain that ends with its name. -/
theorem ofName_names (first last : Cursor) :
    (ofName first last).callee = chainEnding last.before ∧
      (ofName first last).nameStart = first.offset ∧
      (ofName first last).nameStop = last.offset := by
  unfold ofName
  split
  · exact ⟨rfl, rfl, rfl⟩
  · dsimp only
    split <;> exact ⟨rfl, rfl, rfl⟩

/-- Every invocation is that of a name in the text. -/
theorem exists_ofName_of_mem_all (h : i ∈ all masked) : ∃ first last name,
    first.text = masked ∧ first.Passes name last ∧
      (∀ c ∈ name, Reference.extendsName c = true) ∧ i = ofName first last := by
  obtain ⟨⟨first, last⟩, hmatch, rfl⟩ := List.mem_map.mp h
  have hprogress := isProgressive_reading takesSome_anyName
  rw [allMatches, matchesFrom_eq_readAll takesSome_anyName] at hmatch
  obtain ⟨stretch, place, stop, hreach, hread⟩ :=
    Cursor.exists_read_of_mem_readAll hprogress hmatch
  obtain ⟨d, hd, hpair⟩ := Option.map_eq_some_iff.mp hread
  obtain ⟨hplace, -⟩ := Prod.mk.inj hpair
  obtain ⟨rfl, rfl⟩ := Prod.mk.inj hplace
  obtain ⟨name, hname, hpass⟩ := passesOnly_anyName place d (List.mem_of_head? hd)
  exact ⟨place, d, name, hreach.text, hpass, hname, rfl⟩

end Names

/-- What the invocations of a text tell of their callees. The callee is the one that ends with the
name; it stands in the masked text, and so in the text, where the description of the invocation
begins; and lookups and boundaries are told by its names alone. -/
structure IsTraced (text : Text) (i : Invocation) : Prop where
  callee : IsCallee ((mask text).take i.nameStop) i.callee
  named : (mask text).slice i.nameStart i.nameStop <:+ i.callee
  begins : ∃ start, start + i.callee.length = i.nameStop ∧
    (mask text).slice start i.nameStop = i.callee ∧
    List.Forall₂ IsMaskOf i.callee (text.slice start i.nameStop) ∧
    Evidence.describeInvocation text i =
      Evidence.describe text start (i.argsStop + if i.parenthesized then 1 else 0)
  judged : ∃ names, Reduces i.callee names ∧ HoldsNames names ∧
    Callee.isStorageLookup i.callee = Callee.storageLookup.occursAt (Cursor.start names) ∧
    ∀ suffixes, Callee.isBoundary suffixes i.callee =
      [Callee.jobBoundary suffixes, Callee.serviceBoundary suffixes, Callee.mailerBoundary,
        Callee.enqueueMatcher].any (·.occurs (Cursor.start names))

/-- A stretch that ends what stands before a place is the slice of its length there. -/
theorem exists_slice_of_suffix {text stretch : Text} {stop : Nat} (hstop : stop ≤ text.length)
    (h : stretch <:+ text.take stop) :
    ∃ start, start + stretch.length = stop ∧ text.slice start stop = stretch := by
  obtain ⟨before, hbefore⟩ := h
  have hlength := congrArg List.length hbefore
  rw [List.length_append, List.length_take_of_le hstop] at hlength
  refine ⟨before.length, hlength, ?_⟩
  rw [Text.slice, ← hbefore, List.drop_left]

/-- Every invocation in a text is traced by its callee. -/
theorem isTraced_of_mem {text : Text} {i : Invocation} (h : i ∈ all (mask text)) :
    i.IsTraced text := by
  obtain ⟨first, last, name, htext, hpass, hname, rfl⟩ := exists_ofName_of_mem_all h
  obtain ⟨hcallee, hstart, hstop⟩ := ofName_names first last
  have hlast : last.text = mask text := hpass.text.trans htext
  have hbefore : (mask text).take last.offset = last.before.reverse := by
    rw [← hlast, Cursor.text, Cursor.offset, ← List.length_reverse, List.take_left]
  have hisCallee : IsCallee ((mask text).take last.offset) (ofName first last).callee := by
    rw [hcallee, hbefore]
    simpa using isCallee_chainEnding last.before.reverse
  have hle : last.offset ≤ (mask text).length := by
    rw [← hlast, Cursor.text, Cursor.offset, List.length_append, List.length_reverse]
    exact Nat.le_add_right _ _
  have hslice : (mask text).slice first.offset last.offset = name := htext ▸ hpass.slice
  constructor
  case callee => rwa [hstop]
  case named =>
    rw [hstart, hstop, hslice]
    refine hisCallee.suffix_of_name ?_ hname
    rw [hbefore, hpass.before, List.reverse_append, List.reverse_reverse]
    exact List.suffix_append _ _
  case begins =>
    obtain ⟨start, hlength, hcalleeSlice⟩ := exists_slice_of_suffix hle hisCallee.suffix
    rw [hstop]
    refine ⟨start, hlength, hcalleeSlice, ?_, ?_⟩
    · rw [← hcalleeSlice]
      exact List.forall₂_drop _ (List.forall₂_take _ (mask_forall₂ text))
    · rw [Evidence.describeInvocation, hstop, ← hlength, Nat.add_sub_cancel]
  case judged =>
    exact ⟨_, hisCallee.reduces, hisCallee.names, rfl, fun _ => rfl⟩

end Invocation

/-- At every place of a text the chain that is read backwards is the callee there, and every
invocation in the text is traced by its callee. -/
theorem Callee.isCallee_and_isTraced (text : Text) :
    (∀ stop ≤ text.length, IsCallee (text.take stop) (chainAt text stop) ∧
      ∃ start, start + (chainAt text stop).length = stop ∧
        text.slice start stop = chainAt text stop) ∧
    ∀ i ∈ (SpecText.ofText text).invocations, i.IsTraced text := by
  refine ⟨fun stop hstop => ?_, fun i hi => Invocation.isTraced_of_mem hi⟩
  have hcallee : IsCallee (text.take stop) (chainAt text stop) := isCallee_chainEnding _
  exact ⟨hcallee, Invocation.exists_slice_of_suffix hstop hcallee.suffix⟩

/-- A job that is dispatched through a chain with nested groups. -/
def Callee.delayedDispatch : Text :=
  "AJob.set(f(1)).perform(x)\n".toList

/-- Its invocation is traced. -/
theorem Callee.isCallee_and_isTraced_delayed :
    22 ≤ delayedDispatch.length ∧
    (IsCallee (delayedDispatch.take 22) (chainAt delayedDispatch 22) ∧
      ∃ start, start + (chainAt delayedDispatch 22).length = 22 ∧
        delayedDispatch.slice start 22 = chainAt delayedDispatch 22) ∧
    ∃ i ∈ (SpecText.ofText delayedDispatch).invocations,
      i.callee = "AJob.set(f(1)).perform".toList ∧ i.nameStop = 22 ∧
      i.IsTraced delayedDispatch := by
  have hlength : 22 ≤ delayedDispatch.length := by decide
  let name : Cursor := (Cursor.start delayedDispatch).skip 15
  let arguments : Cursor := name.skip 7
  have hshown : mask delayedDispatch = name.text := by decide
  have hname : Invocation.anyName.match? name = some arguments := by
    rw [Invocation.match?_anyName]
    decide
  have hinvoked :
      Invocation.ofName name arguments ∈ (SpecText.ofText delayedDispatch).invocations :=
    List.mem_map.mpr ⟨_, hshown ▸ Invocation.mem_allMatches_anyName (by decide) hname, rfl⟩
  obtain ⟨hchains, htraced⟩ := isCallee_and_isTraced delayedDispatch
  exact ⟨hlength, hchains 22 hlength, _, hinvoked, by decide, by decide, htraced _ hinvoked⟩

end FactoryDowngrade
