import FactoryDowngrade.Proofs.Ruby.Extents
import FactoryDowngrade.Proofs.Ruby.ReceiverChains
import FactoryDowngrade.Proofs.Template.Spot
import FactoryDowngrade.Proofs.Template.Scans

/-!
# Receiver chains on templates

A receiver chain consists of names and their marks and of groups in round brackets. It has the same
items in every filling, and so has its outline, which drops the groups.
-/

namespace FactoryDowngrade

namespace Template

variable {w : Text}

/-! ### Outlines -/

/-- The items that are left when the groups and the blanks of a template are removed. -/
def outlineItems : Nat → Template → Template
  | _, [] => []
  | depth, some c :: t =>
    if c = '(' then outlineItems (depth + 1) t
    else if c = ')' then outlineItems (depth - 1) t
    else if depth = 0 && !CharClass.isBlank c then some c :: outlineItems 0 t
    else outlineItems depth t
  | 0, none :: t => none :: outlineItems 0 t
  | depth + 1, none :: t => outlineItems (depth + 1) t

/-- Letters are kept outside groups and dropped inside. -/
theorem dropGroups_append {u : Text} (hu : ∀ c ∈ u, c ∈ letters) (depth : Nat) (text : Text) :
    Receiver.dropGroups depth (u ++ text) =
      if depth = 0 then u ++ Receiver.dropGroups 0 text else Receiver.dropGroups depth text := by
  have hletter : ∀ c ∈ letters, c ≠ '(' ∧ c ≠ ')' ∧ CharClass.isBlank c = false := by decide
  induction u with
  | nil => cases depth <;> simp
  | cons c u ih =>
    obtain ⟨hopen, hclose, hblank⟩ := hletter c (hu c List.mem_cons_self)
    have hrest := ih fun d hd => hu d (List.mem_cons_of_mem _ hd)
    rw [List.cons_append, Receiver.dropGroups, if_neg hopen, if_neg hclose, hblank]
    cases depth with
    | zero => simpa using hrest
    | succ depth => simpa using hrest

/-- The outline of a filled template is the filled outline. -/
theorem dropGroups_fill (hw : IsSlotWord w) (depth : Nat) (t : Template) :
    Receiver.dropGroups depth (fill w t) = fill w (outlineItems depth t) := by
  induction t generalizing depth with
  | nil => cases depth <;> rfl
  | cons item t ih =>
    cases item with
    | none =>
      rw [fill_none, dropGroups_append hw.letters]
      cases depth with
      | zero => rw [if_pos rfl, ih, outlineItems, fill_none]
      | succ depth => rw [if_neg (by omega), ih, outlineItems]
    | some c =>
      rw [fill_some, Receiver.dropGroups, outlineItems]
      split
      · exact ih _
      · split
        · exact ih _
        · split
          · rw [fill_some, ih]
          · exact ih _

/-- Inside a group only brackets make a difference. -/
theorem outlineItems_succ_cons (depth : Nat) {item : Option Char} (hopen : item ≠ some '(')
    (hclose : item ≠ some ')') (t : Template) :
    outlineItems (depth + 1) (item :: t) = outlineItems (depth + 1) t := by
  cases item with
  | none => rw [outlineItems]
  | some c =>
    rw [outlineItems, if_neg fun hc : c = '(' => hopen (by rw [hc]),
      if_neg fun hc : c = ')' => hclose (by rw [hc])]
    exact if_neg (by simp)

/-- Where the outermost of the open brackets is a round one, items other than round brackets make no
difference. -/
theorem outlineItems_count_cons {kinds : List BracketKind} (hround : kinds.getLast? = some .round)
    {item : Option Char} (hopen : item ≠ some '(') (hclose : item ≠ some ')') (depth : Nat)
    (t : Template) : outlineItems (depth + kinds.count .round) (item :: t) =
      outlineItems (depth + kinds.count .round) t := by
  obtain ⟨n, hn⟩ : ∃ n, kinds.count .round = n + 1 :=
    Nat.exists_eq_succ_of_ne_zero (Nat.pos_iff_ne_zero.mp
      (List.count_pos_iff.mpr (List.mem_of_getLast? hround)))
  rw [hn, ← Nat.add_assoc, outlineItems_succ_cons _ hopen hclose]

/-- In front of a closing bracket one bracket less is open. -/
theorem outlineItems_count_closes {c : Char} {kind : BracketKind}
    (hc : BracketRole.ofChar c = .closes kind) {kinds : List BracketKind}
    (hround : kinds.getLast? = some .round) (depth : Nat) (t : Template) :
    outlineItems (depth + (kind :: kinds).count .round) (some c :: t) =
      outlineItems (depth + kinds.count .round) t := by
  by_cases hkind : kind = .round
  · subst hkind
    obtain rfl := BracketRole.ofChar_eq_closes_round_iff.mp hc
    rw [List.count_cons_self, outlineItems, if_neg (by decide), if_pos rfl,
      Nat.add_sub_assoc (Nat.le_add_left _ _), Nat.add_sub_cancel]
  · rw [List.count_cons_of_ne hkind, outlineItems_count_cons hround]
    · rintro ⟨⟩
      cases hc
    · rintro ⟨⟩
      cases hc
      exact hkind rfl

/-- In front of an opening bracket one bracket more is open. -/
theorem outlineItems_count_opens {c : Char} {kind : BracketKind}
    (hc : BracketRole.ofChar c = .opens kind) {kinds : List BracketKind}
    (hround : kinds.getLast? = some .round) (depth : Nat) (t : Template) :
    outlineItems (depth + kinds.count .round) (some c :: t) =
      outlineItems (depth + (kind :: kinds).count .round) t := by
  by_cases hkind : kind = .round
  · subst hkind
    obtain rfl := BracketRole.ofChar_eq_opens_round_iff.mp hc
    rw [outlineItems, if_pos rfl, List.count_cons_self]
    rfl
  · rw [List.count_cons_of_ne hkind, outlineItems_count_cons hround]
    · rintro ⟨⟩
      cases hc
      exact hkind rfl
    · rintro ⟨⟩
      cases hc

/-- The search for the bracket that a group begins with takes one character: the group begins with
it, or the search goes on in front of it with the brackets that are open there. -/
theorem closeDistance_cons_flip {kinds : List BracketKind} (hround : kinds.getLast? = some .round)
    {c : Char} {text : Text} {distance : Nat}
    (hdistance : Bracket.closeDistance (fun c => (BracketRole.ofChar c).flip) kinds (c :: text) =
      some distance) :
    (c = '(' ∧ kinds = [.round] ∧ distance = 0) ∨
      ∃ kinds' before, distance = before + 1 ∧ kinds'.getLast? = some .round ∧
        Bracket.closeDistance (fun c => (BracketRole.ofChar c).flip) kinds' text = some before ∧
        ∀ depth u, outlineItems (depth + kinds'.count .round) (some c :: u) =
          outlineItems (depth + kinds.count .round) u := by
  cases Bracket.closesAfter_iff.mpr hdistance with
  | @plain _ _ _ before hflip hbefore =>
    have hc : BracketRole.ofChar c = .plain := BracketRole.eq_flip_of_flip_eq hflip
    have hopen : some c ≠ some '(' := by
      rintro ⟨⟩
      cases hc
    have hclose : some c ≠ some ')' := by
      rintro ⟨⟩
      cases hc
    exact .inr ⟨kinds, before, rfl, hround, Bracket.closesAfter_iff.mp hbefore, fun depth u =>
      outlineItems_count_cons hround hopen hclose depth u⟩
  | @opens _ _ kind _ before hflip hbefore =>
    have hc : BracketRole.ofChar c = .closes kind := BracketRole.eq_flip_of_flip_eq hflip
    have hround' : (kind :: kinds).getLast? = some .round := by
      cases kinds with
      | nil => cases hround
      | cons last outer => exact hround
    exact .inr ⟨kind :: kinds, before, rfl, hround', Bracket.closesAfter_iff.mp hbefore,
      fun depth u => outlineItems_count_closes hc hround depth u⟩
  | @closes next outer _ kind _ before hflip hbefore =>
    have hc : BracketRole.ofChar c = .opens kind := BracketRole.eq_flip_of_flip_eq hflip
    have hround' : (next :: outer).getLast? = some .round := hround
    exact .inr ⟨next :: outer, before, rfl, hround', Bracket.closesAfter_iff.mp hbefore,
      fun depth u => outlineItems_count_opens hc hround' depth u⟩
  | @last _ kind _ hflip =>
    have hc : BracketRole.ofChar c = .opens kind := BracketRole.eq_flip_of_flip_eq hflip
    obtain rfl : kind = .round := by simpa using hround
    exact .inl ⟨BracketRole.ofChar_eq_opens_round_iff.mp hc, rfl, rfl⟩

/-- The items back to the opening bracket of a group are dropped: the depth in front of them is that
behind them, less the round brackets still open there. -/
theorem outlineItems_append_group (hw : IsSlotWord w) {t : Template} {kinds : List BracketKind}
    {index : Nat} (hindex : index < t.length) (hround : kinds.getLast? = some .round)
    (hdistance : Bracket.closeDistance (fun c => (BracketRole.ofChar c).flip) kinds (fill w t) =
      some (offsetOf w t index)) (depth : Nat) (u : Template) :
    outlineItems depth ((t.take (index + 1)).reverse ++ u) =
      outlineItems (depth + kinds.count .round) u := by
  have hrole : ∀ c ∈ letters, (BracketRole.ofChar c).flip = .plain := by decide
  induction t generalizing kinds index u with
  | nil => simp at hindex
  | cons item t ih =>
    have hsplit (index : Nat) : ((item :: t).take (index + 1 + 1)).reverse ++ u =
        (t.take (index + 1)).reverse ++ (item :: u) := by
      rw [List.take_succ_cons, List.reverse_cons, List.append_assoc, List.singleton_append]
    cases item with
    | none =>
      rw [fill_none, closeDistance_append fun c hc => hrole c (hw.letters c hc)] at hdistance
      obtain ⟨before, hbefore, hsum⟩ := Option.map_eq_some_iff.mp hdistance
      cases index with
      | zero =>
        have := List.length_pos_iff.mpr hw.nonempty
        rw [offsetOf_zero] at hsum
        omega
      | succ index =>
        rw [offsetOf_none_succ] at hsum
        rw [hsplit, ih (Nat.lt_of_succ_lt_succ hindex) hround (hbefore.trans (by congr 1; omega)),
          outlineItems_count_cons hround (by simp) (by simp)]
    | some c =>
      rw [fill_some] at hdistance
      obtain ⟨rfl, rfl, hzero⟩ | ⟨kinds', before, hsum, hround', hbefore, hstep⟩ :=
        closeDistance_cons_flip hround hdistance
      · -- the last bracket to open is the round one that the group ends with
        cases index with
        | zero => rfl
        | succ index => simp [offsetOf_some_succ] at hzero
      · cases index with
        | zero => simp [offsetOf_zero] at hsum
        | succ index =>
          rw [offsetOf_some_succ] at hsum
          rw [hsplit, ih (Nat.lt_of_succ_lt_succ hindex) hround'
            (hbefore.trans (by congr 1; omega)), hstep]

/-! ### Receiver chains -/

/-- Chain characters are counted. -/
theorem chainLength_append {u : Text} (hu : ∀ c ∈ u, Receiver.isChainChar c = true) (limit : Nat)
    (text : Text) : Receiver.chainLength (u.length + limit) (u ++ text) =
      u.length + Receiver.chainLength limit text := by
  induction u with
  | nil => simp
  | cons c u ih =>
    have hrest := ih fun d hd => hu d (List.mem_cons_of_mem _ hd)
    rw [List.length_cons, List.cons_append, Nat.add_right_comm, Receiver.chainLength,
      if_pos (hu c List.mem_cons_self), hrest]
    omega

/-- The items of a group, read backwards from behind its closing bracket. -/
def IsGroup (g : Template) : Prop :=
  ∀ depth u, outlineItems depth ((some ')' :: g).reverse ++ u) = outlineItems depth u

/-- A group that ends here has the same length in items in every filling. -/
theorem exists_groupLength?_fill (t : Template) :
    ∃ taken : Option Nat, (∀ n ∈ taken, IsGroup (t.take n)) ∧ ∀ w, IsSlotWord w →
      Receiver.groupLength? (fill w (some ')' :: t)) =
        taken.map fun n => offsetOf w (some ')' :: t) (n + 1) := by
  have hrole : ∀ c ∈ letters, (BracketRole.ofChar c).flip = .plain := by decide
  have hchain : Ignores Receiver.isChainChar true := by decide
  obtain ⟨place, hvisible, hplace⟩ := findsPlace_closeDistance hrole [.round] t
  have hopen (w : Text) (hw : IsSlotWord w) :
      Bracket.openDistance (fill w (some ')' :: t)) =
        (place.map (offsetOf w t)).map (· + 1) := by
    rw [← hplace w hw]
    rfl
  cases place with
  | none => exact ⟨none, by simp, fun w hw => by rw [Receiver.groupLength?, hopen w hw]; rfl⟩
  | some index =>
    obtain ⟨c, hc⟩ := hvisible index rfl
    have hindex : index < t.length := (List.getElem?_eq_some_iff.mp hc).1
    have hgroup (w : Text) (hw : IsSlotWord w) : Receiver.groupLength? (fill w (some ')' :: t)) =
        if (t.drop (index + 1)).head?.any (onItem true Receiver.isChainChar) then
          some (offsetOf w (some ')' :: t) (index + 2)) else none := by
      have hlength : offsetOf w t index + 1 + 1 = offsetOf w (some ')' :: t) (index + 2) := by
        rw [offsetOf_some_succ, offsetOf_succ_of_visible w hc]
      rw [Receiver.groupLength?, hopen w hw, Option.map_some, Option.map_some]
      dsimp only
      rw [hlength, drop_offsetOf, any_head?_fill hchain hw, List.drop_succ_cons]
    by_cases hnamed : (t.drop (index + 1)).head?.any (onItem true Receiver.isChainChar) = true
    · refine ⟨some (index + 1), fun n hn => ?_, fun w hw => ?_⟩
      · obtain rfl := Option.mem_some_iff.mp hn
        intro depth u
        have hw := Filling.created.isSlotWord_word
        rw [List.reverse_cons, List.append_assoc, List.singleton_append,
          outlineItems_append_group hw hindex rfl (hplace _ hw)]
        rfl
      · rw [hgroup w hw, if_pos hnamed]
        rfl
    · refine ⟨none, by simp, fun w hw => ?_⟩
      rw [hgroup w hw, if_neg hnamed]
      rfl

/-- A chain read backwards: characters of names and what joins them, and groups. -/
inductive IsChain : Template → Prop where
  | nil : IsChain []
  | item {item : Option Char} {rest : Template}
      (hitem : onItem true Receiver.isChainChar item = true) (hrest : IsChain rest) :
      IsChain (item :: rest)
  | group {g rest : Template} (hgroup : IsGroup g) (hrest : IsChain rest) :
      IsChain (some ')' :: (g ++ rest))

/-- The chain that a template starts with, read backwards, ends in front of the item with this
index, whichever word fills the slots. -/
structure ChainEndsAt (t : Template) (count : Nat) : Prop where
  items : IsChain (t.take count)
  length : ∀ w, IsSlotWord w → ∀ limit, (fill w t).length ≤ limit →
    Receiver.chainLength limit (fill w t) = offsetOf w t count

namespace ChainEndsAt

variable {t : Template} {count taken : Nat} {c : Char}

/-- A chain that is empty in every filling ends at the first item. -/
theorem here (h : ∀ w, IsSlotWord w → ∀ limit, Receiver.chainLength limit (fill w t) = 0) :
    ChainEndsAt t 0 :=
  ⟨.nil, fun w hw limit _ => by rw [h w hw, offsetOf_zero]⟩

/-- A slot is passed, since the letters of the words are chain characters. -/
theorem cons_none (h : ChainEndsAt t count) : ChainEndsAt (none :: t) (count + 1) := by
  have hchain : ∀ c ∈ letters, Receiver.isChainChar c = true := by decide
  refine ⟨.item rfl h.items, fun w hw limit hlimit => ?_⟩
  rw [fill_none, List.length_append] at hlimit
  obtain ⟨more, rfl⟩ := Nat.exists_eq_add_of_le (Nat.le_trans (Nat.le_add_right _ _) hlimit)
  rw [fill_none, chainLength_append (fun c hc => hchain c (hw.letters c hc)),
    h.length w hw more (by omega), offsetOf_none_succ]

/-- A character of chains is passed. -/
theorem cons_some (hc : Receiver.isChainChar c = true) (h : ChainEndsAt t count) :
    ChainEndsAt (some c :: t) (count + 1) := by
  refine ⟨.item hc h.items, fun w hw limit hlimit => ?_⟩
  rw [fill_some, List.length_cons] at hlimit
  obtain ⟨more, rfl⟩ := Nat.exists_eq_add_of_le' (Nat.one_le_of_lt hlimit)
  rw [fill_some, Receiver.chainLength, if_pos hc, h.length w hw more (by omega),
    offsetOf_some_succ]

/-- A group is passed as a whole, and the chain goes on behind it. -/
theorem cons_group (hgroup : IsGroup (t.take taken))
    (htaken : ∀ w, IsSlotWord w → Receiver.groupLength? (fill w (some ')' :: t)) =
      some (offsetOf w (some ')' :: t) (taken + 1)))
    (h : ChainEndsAt (t.drop taken) count) : ChainEndsAt (some ')' :: t) (taken + count + 1) := by
  refine ⟨?_, fun w hw limit hlimit => ?_⟩
  · rw [List.take_succ_cons, List.take_add]
    exact .group hgroup h.items
  · have hdrop : (fill w (some ')' :: t)).drop (offsetOf w (some ')' :: t) (taken + 1)) =
        fill w (t.drop taken) := drop_offsetOf w (some ')' :: t) (taken + 1)
    have hshorter : (fill w (t.drop taken)).length < (fill w (some ')' :: t)).length := by
      rw [← hdrop, List.length_drop, offsetOf_some_succ, fill_some, List.length_cons]
      omega
    obtain ⟨more, rfl⟩ := Nat.exists_eq_add_of_le' (Nat.one_le_of_lt (hshorter.trans_le hlimit))
    have hlength := htaken w hw
    rw [fill_some] at hlength hdrop
    rw [fill_some, Receiver.chainLength, if_neg (by decide), if_pos rfl, hlength]
    dsimp only
    rw [hdrop, h.length w hw more (by omega), Nat.add_right_comm, offsetOf_add w _ (taken + 1)]
    rfl

end ChainEndsAt

/-- A chain does not reach into what is neither a chain character nor a group. -/
theorem chainLength_eq_zero {c : Char} {text : Text} (hc : Receiver.isChainChar c = false)
    (hgroup : c = ')' → Receiver.groupLength? (c :: text) = none) (limit : Nat) :
    Receiver.chainLength limit (c :: text) = 0 := by
  cases limit with
  | zero => rfl
  | succ limit =>
    rw [Receiver.chainLength, if_neg (by simp [hc])]
    by_cases hclose : c = ')'
    · rw [if_pos hclose, hgroup hclose]
    · rw [if_neg hclose]

/-- A receiver chain ends at the same item in every filling. -/
theorem exists_chainEndsAt (t : Template) : ∃ count, ChainEndsAt t count := by
  induction hn : t.length using Nat.strongRecOn generalizing t with
  | ind n ih =>
    subst hn
    obtain _ | ⟨_ | c, t⟩ := t
    · exact ⟨0, .here fun w _ limit => by cases limit <;> rfl⟩
    · obtain ⟨count, hrest⟩ := ih t.length (Nat.lt_succ_self _) t rfl
      exact ⟨count + 1, hrest.cons_none⟩
    · cases hc : Receiver.isChainChar c with
      | true =>
        obtain ⟨count, hrest⟩ := ih t.length (Nat.lt_succ_self _) t rfl
        exact ⟨count + 1, hrest.cons_some hc⟩
      | false =>
        by_cases hclose : c = ')'
        · subst hclose
          obtain ⟨_ | taken, hgroups, htaken⟩ := exists_groupLength?_fill t
          · exact ⟨0, .here fun w hw => chainLength_eq_zero hc fun _ => htaken w hw⟩
          · have hshorter : (t.drop taken).length < (some ')' :: t).length := by
              rw [List.length_drop, List.length_cons]
              omega
            obtain ⟨count, hrest⟩ := ih _ hshorter (t.drop taken) rfl
            exact ⟨taken + count + 1, .cons_group (hgroups taken rfl) htaken hrest⟩
        · exact ⟨0, .here fun w _ => chainLength_eq_zero hc fun h => absurd h hclose⟩

/-! ### Outlines of chains -/

/-- Every slot begins the template or stands behind a dot or an ampersand. -/
def IsLinked (t : Template) : Prop :=
  ∀ before item after, t = before ++ item :: none :: after → item = some '.' ∨ item = some '&'

/-- No slot stands behind a closing bracket. -/
def IsUnglued (t : Template) : Prop :=
  ∀ before after, t ≠ before ++ some ')' :: none :: after

/-- The back of a linked template is linked. -/
theorem IsLinked.of_suffix {s t : Template} (ht : IsLinked t) (h : s <:+ t) : IsLinked s := by
  obtain ⟨front, rfl⟩ := h
  intro before item after hs
  exact ht (front ++ before) item after (by simp [hs])

/-- A part of an unglued template is unglued. -/
theorem IsUnglued.of_isInfix {s t : Template} (ht : IsUnglued t) (h : s <:+: t) : IsUnglued s := by
  obtain ⟨front, back, rfl⟩ := h
  intro before after hs
  exact ht (front ++ before) (after ++ back) (by simp [hs])

/-- Outside groups the items of a chain are kept. -/
theorem outlineItems_cons_of_isChainChar {item : Option Char}
    (hitem : onItem true Receiver.isChainChar item = true) (u : Template) :
    outlineItems 0 (item :: u) = item :: outlineItems 0 u := by
  cases item with
  | none => rw [outlineItems]
  | some c =>
    have hc : Receiver.isChainChar c = true := hitem
    obtain ⟨hopen, hclose⟩ := Receiver.ne_of_isChainChar hc
    rw [outlineItems, if_neg hopen, if_neg hclose, Receiver.isBlank_eq_false_of_isChainChar hc]
    rfl

/-- What may stand before a slot in a chain. -/
theorem eq_dot_or_ampersand {c : Char} (hc : Receiver.isChainChar c = true)
    (hclean : stains c = false) : c = '.' ∨ c = '&' := by
  simp only [stains, Bool.or_eq_false_iff, List.contains_eq_mem, decide_eq_false_iff_not,
    List.mem_cons, List.not_mem_nil, or_false, not_or] at hclean
  obtain ⟨hword, hquestion, hbang, hcolon, hat, -⟩ := hclean
  rcases Receiver.isChainChar_iff.mp hc with hc | rfl | rfl | rfl | rfl | rfl | rfl
  · exact absurd hc (by simp [hword])
  · exact absurd rfl hcolon
  · exact .inl rfl
  · exact absurd rfl hbang
  · exact absurd rfl hquestion
  · exact absurd rfl hat
  · exact .inr rfl

/-- One more item keeps a template linked, unless it is a slot behind neither a dot nor an
ampersand. -/
theorem IsLinked.concat {o : Template} {item : Option Char} (ho : IsLinked o)
    (hitem : item = none → ∀ last ∈ o.getLast?, last = some '.' ∨ last = some '&') :
    IsLinked (o ++ [item]) := by
  intro before x after hsplit
  rcases List.eq_nil_or_concat after with rfl | ⟨more, last, rfl⟩
  · have hends : o ++ [item] = (before ++ [x]) ++ [none] := by simpa using hsplit
    obtain ⟨rfl, hslot⟩ := List.append_inj' hends rfl
    exact hitem (by simpa using hslot) x (by simp)
  · have hends : (before ++ x :: none :: more) ++ [last] = o ++ [item] := by
      simpa using hsplit.symm
    exact ho before x more (List.append_inj' hends rfl).1.symm

/-- In an orderly template a chain goes on from a slot with a dot or an ampersand. -/
theorem IsChain.eq_of_mem_head? {b : Template} (h : IsChain b)
    (horderly : IsOrderly (b.reverse ++ [none])) (hunglued : IsUnglued (b.reverse ++ [none])) :
    ∀ x ∈ b.head?, x = some '.' ∨ x = some '&' := by
  cases h with
  | nil => simp
  | @item x rest hx hrest =>
    intro y hy
    obtain rfl := Option.mem_some_iff.mp hy
    cases x with
    | none =>
      have harguments := horderly.arguments rest.reverse [none] (by simp)
      cases harguments
    | some c =>
      have hclean := horderly.unstained rest.reverse c [] (by simp)
      exact (eq_dot_or_ampersand hx hclean).imp (congrArg some) (congrArg some)
  | @group g rest hgroup hrest =>
    exact absurd (by simp) (hunglued (rest.reverse ++ g.reverse) [])

/-- The outline of a chain, as far as it tells on the slots in it. -/
theorem IsChain.exists_outline {b : Template} (h : IsChain b) (horderly : IsOrderly b.reverse)
    (hunglued : IsUnglued b.reverse) :
    ∃ o, (∀ u, outlineItems 0 (b.reverse ++ u) = o ++ outlineItems 0 u) ∧ IsLinked o ∧
      (b = [] → o = []) ∧ ∀ item ∈ b.head?, item ≠ some ')' → o.getLast? = some item := by
  induction h with
  | nil => exact ⟨[], fun u => rfl, by simp [IsLinked], fun _ => rfl, by simp⟩
  | @item item rest hitem hrest ih =>
    rw [List.reverse_cons] at horderly hunglued
    have hprefix : rest.reverse <:+: rest.reverse ++ [item] := (List.prefix_append _ _).isInfix
    obtain ⟨o, houtline, hlinked, hnil, hlast⟩ :=
      ih (horderly.of_isInfix hprefix) (hunglued.of_isInfix hprefix)
    refine ⟨o ++ [item], fun u => ?_, hlinked.concat ?_, by simp, by simp⟩
    · rw [List.reverse_cons, List.append_assoc, List.singleton_append, houtline,
        outlineItems_cons_of_isChainChar hitem, List.append_assoc, List.singleton_append]
    · rintro rfl last hmem
      have hjoined := hrest.eq_of_mem_head? horderly hunglued
      cases hhead : rest.head? with
      | none => simp [hnil (List.head?_eq_none_iff.mp hhead)] at hmem
      | some x =>
        have hx := hjoined x hhead
        have hends : o.getLast? = some x := hlast x hhead (by rcases hx with rfl | rfl <;> decide)
        obtain rfl := Option.mem_some_iff.mp (hends ▸ hmem)
        exact hx
  | @group g rest hgroup hrest ih =>
    have hprefix : rest.reverse <:+: (some ')' :: (g ++ rest)).reverse :=
      ⟨[], (some ')' :: g).reverse, by simp⟩
    obtain ⟨o, houtline, hlinked, hnil, -⟩ :=
      ih (horderly.of_isInfix hprefix) (hunglued.of_isInfix hprefix)
    refine ⟨o, fun u => ?_, hlinked, by simp, fun item hitem hne => ?_⟩
    · rw [show (some ')' :: (g ++ rest)).reverse ++ u =
        rest.reverse ++ ((some ')' :: g).reverse ++ u) by simp, houtline, hgroup]
    · exact absurd (Option.mem_some_iff.mp hitem).symm hne

/-- Dropping the joints in front of a chain drops them from its outline. -/
theorem outlineItems_dropWhile_suffix (t : Template) :
    outlineItems 0 (t.dropWhile (onItem false Receiver.isJoint)) <:+ outlineItems 0 t := by
  induction t with
  | nil => exact List.suffix_rfl
  | cons item t ih =>
    by_cases hitem : onItem false Receiver.isJoint item = true
    · have hchain : onItem true Receiver.isChainChar item = true := by
        cases item with
        | none => cases hitem
        | some c =>
          have hjoint : Receiver.isJoint c = true := hitem
          simp only [Receiver.isJoint, Bool.or_eq_true, beq_iff_eq] at hjoint
          rcases hjoint with (rfl | rfl) | rfl <;> decide
      rw [List.dropWhile_cons_of_pos hitem, outlineItems_cons_of_isChainChar hchain]
      exact ih.trans (List.suffix_cons _ _)
    · rw [List.dropWhile_cons_of_neg hitem]

/-- The callee that ends here is the same items in every filling, and its outline is linked. -/
theorem exists_chainEnding_fill {t : Template} (horderly : IsOrderly t.reverse)
    (hunglued : IsUnglued t.reverse) :
    ∃ callee, IsLinked (outlineItems 0 callee) ∧
      ∀ f : Filling, Receiver.chainEnding (fill f.word.reverse t) = fill f.word callee := by
  have hjoint : Ignores Receiver.isJoint false := by decide
  obtain ⟨count, hitems, hcount⟩ := exists_chainEndsAt t
  have hpart : (t.take count).reverse <:+: t.reverse :=
    (List.reverse_suffix.mpr (List.take_prefix count t)).isInfix
  obtain ⟨o, houtline, hlinked, -, -⟩ :=
    hitems.exists_outline (horderly.of_isInfix hpart) (hunglued.of_isInfix hpart)
  refine ⟨(t.take count).reverse.dropWhile (onItem false Receiver.isJoint), ?_, fun f => ?_⟩
  · refine hlinked.of_suffix ?_
    have hwhole := houtline []
    rw [List.append_nil, outlineItems, List.append_nil] at hwhole
    rw [← hwhole]
    exact outlineItems_dropWhile_suffix _
  · rw [Receiver.chainEnding, hcount _ f.isSlotWord_reverse _ (Nat.le_refl _), take_offsetOf,
      fill_reverse, List.reverse_reverse, dropWhile_fill hjoint f.isSlotWord_word]

end Template

end FactoryDowngrade
