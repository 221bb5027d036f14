import FactoryDowngrade.Proofs.Ruby.BracketPairs
import FactoryDowngrade.Proofs.Text.CharClasses
import FactoryDowngrade.Ruby.Statement
import Mathlib.Data.List.Induction
import Mathlib.Data.List.TakeWhile

/-!
# Receiver chains

A receiver chain is made of the characters of names, with the marks that join them, and of groups
in parentheses, each right behind such a character. Its outline is what is left without the groups.

The chain that is read backwards from a place is the longest one that ends there, less the joints
in front of it. The reading goes over whole groups, for which brackets of all kinds must be properly
nested, and the outline only counts parentheses. Both see the same groups, because the count at any
place in a group is the number of parentheses that are open there.
-/

namespace FactoryDowngrade

namespace Receiver

open FactoryDowngrade.Bracket BracketRole

/-! ### Characters and groups -/

/-- The characters of names in a chain, with the signs that join them. -/
theorem isChainChar_iff {c : Char} : isChainChar c = true ↔
    CharClass.isWord c = true ∨ c = ':' ∨ c = '.' ∨ c = '!' ∨ c = '?' ∨ c = '@' ∨ c = '&' := by
  simp only [isChainChar, Bool.or_eq_true, List.contains_eq_mem, decide_eq_true_eq, List.mem_cons,
    List.not_mem_nil, or_false]

/-- Characters of chains are no parentheses. -/
theorem ne_of_isChainChar {c : Char} (hc : isChainChar c = true) : c ≠ '(' ∧ c ≠ ')' := by
  constructor <;>
  · rintro rfl
    exact absurd hc (by decide)

/-- Characters of chains are no blanks. -/
theorem isBlank_eq_false_of_isChainChar {c : Char} (hc : isChainChar c = true) :
    CharClass.isBlank c = false := by
  rcases isChainChar_iff.mp hc with hword | rfl | rfl | rfl | rfl | rfl | rfl
  · exact CharClass.isBlank_eq_false_of_isWord hword
  all_goals rfl

/-- A text between parentheses. -/
def parenthesized (inner : Text) : Text :=
  '(' :: (inner ++ [')'])

section Groups

variable {inner rest text : Text}

/-- Two brackets are added. -/
theorem length_parenthesized (inner : Text) : (parenthesized inner).length = inner.length + 2 := by
  simp [parenthesized]

/-- Backwards the closing bracket comes first. -/
theorem reverse_parenthesized (inner : Text) :
    (parenthesized inner).reverse = ')' :: (inner.reverse ++ ['(']) := by
  simp [parenthesized]

/-- What ends in a group ends in a bracket. -/
theorem getLast?_append_parenthesized (text inner : Text) :
    (text ++ parenthesized inner).getLast? = some ')' := by
  have hend : text ++ parenthesized inner = (text ++ '(' :: inner) ++ [')'] := by
    simp [parenthesized]
  rw [hend, List.getLast?_concat]

/-- A group that ends with a closing parenthesis is a balanced text between parentheses. -/
theorem exists_eq_parenthesized (h : IsGroup (text.map ofChar)) (hlast : text.getLast? = some ')') :
    ∃ inner, IsBalanced (brackets inner) ∧ text = parenthesized inner := by
  obtain ⟨kind, roles, hroles, hsplit⟩ := h.exists_eq
  obtain ⟨first, behind, rfl, hopens, hbehind⟩ := List.map_eq_cons_iff.mp hsplit
  obtain ⟨inner, ending, rfl, rfl, hending⟩ := List.map_eq_append_iff.mp hbehind
  obtain ⟨c, rfl, hcloses⟩ := List.map_eq_singleton_iff.mp hending
  rw [← List.cons_append, List.getLast?_concat] at hlast
  -- the closing parenthesis tells the kind of the group, and so its first character
  obtain rfl := Option.some.inj hlast
  obtain rfl : BracketKind.round = kind := by simpa [ofChar] using hcloses
  obtain rfl := ofChar_eq_opens_round_iff.mp hopens
  exact ⟨inner, hroles, rfl⟩

/-- Read backwards from a closing parenthesis, the walk ends where the group that ends there
begins. -/
theorem openDistance_eq_some_iff {back : Nat} : openDistance (')' :: rest) = some back ↔
    ∃ inner, IsBalanced (brackets inner) ∧ (parenthesized inner).reverse <+: ')' :: rest ∧
      (parenthesized inner).length = back + 1 := by
  have hcloses : (fun c => (ofChar c).flip) ')' = .opens .round := rfl
  have hmirror (text : Text) :
      (text.map fun c => (ofChar c).flip) = mirror (text.reverse.map ofChar) := by
    simp [mirror, Function.comp_def]
  rw [openDistance, closeDistance_nil_eq_some_iff hcloses, hmirror, isGroup_mirror_iff]
  constructor
  · rintro ⟨hlength, hgroup⟩
    have hlast : ((')' :: rest).take (back + 1)).reverse.getLast? = some ')' := by simp
    obtain ⟨inner, hinner, hreverse⟩ := exists_eq_parenthesized hgroup hlast
    have htake : (')' :: rest).take (back + 1) = (parenthesized inner).reverse := by
      rw [← hreverse, List.reverse_reverse]
    refine ⟨inner, hinner, htake ▸ List.take_prefix _ _, ?_⟩
    rw [← List.length_reverse, ← htake, List.length_take_of_le hlength]
  · rintro ⟨inner, hinner, hprefix, hlength⟩
    have htake : (')' :: rest).take (back + 1) = (parenthesized inner).reverse := by
      rw [← hlength, ← List.length_reverse]
      exact (List.prefix_iff_eq_take.mp hprefix).symm
    refine ⟨?_, ?_⟩
    · have hle := hprefix.length_le
      rw [List.length_reverse] at hle
      omega
    · have hgroup : IsGroup (.opens .round :: (inner.map ofChar ++ [.closes .round])) :=
        isGroup_of_isBalanced hinner
      rw [htake, List.reverse_reverse]
      simpa [parenthesized, ofChar] using hgroup

/-- A group that ends a text is determined by it. -/
theorem parenthesized_unique {inner' : Text} (hinner : IsBalanced (brackets inner))
    (hinner' : IsBalanced (brackets inner')) (h : parenthesized inner <:+ text)
    (h' : parenthesized inner' <:+ text) : inner = inner' := by
  have hback (inner : Text) (hinner : IsBalanced (brackets inner))
      (h : parenthesized inner <:+ text) :
      openDistance text.reverse = some (inner.length + 1) := by
    obtain ⟨rest, hrest⟩ : ∃ rest, text.reverse = ')' :: rest := by
      obtain ⟨front, rfl⟩ := h
      exact ⟨_, by rw [List.reverse_append, reverse_parenthesized, List.cons_append]⟩
    rw [hrest]
    exact openDistance_eq_some_iff.mpr
      ⟨inner, hinner, hrest ▸ List.reverse_prefix.mpr h, length_parenthesized inner⟩
  have hlength : (parenthesized inner).length = (parenthesized inner').length := by
    have hsame := (hback inner hinner h).symm.trans (hback inner' hinner' h')
    rw [length_parenthesized, length_parenthesized, Nat.succ.inj (Option.some.inj hsame)]
  have hgroup : parenthesized inner = parenthesized inner' :=
    (List.suffix_of_suffix_length_le h h' (Nat.le_of_eq hlength)).eq_of_length hlength
  exact (List.append_inj' (List.cons.inj hgroup).2 rfl).1

/-- A group is taken as a whole if its brackets are properly nested and a chain leads up to it. -/
theorem groupLength?_eq_some_iff {taken : Nat} : groupLength? (')' :: rest) = some taken ↔
    ∃ inner before, IsBalanced (brackets inner) ∧
      ')' :: rest = (parenthesized inner).reverse ++ before ∧
      before.head?.any isChainChar = true ∧ taken = (parenthesized inner).length := by
  rw [groupLength?]
  constructor
  · intro h
    cases hback : openDistance (')' :: rest) with
    | none =>
      rw [hback] at h
      cases h
    | some back =>
      obtain ⟨inner, hinner, ⟨before, hsplit⟩, hlength⟩ := openDistance_eq_some_iff.mp hback
      rw [hback] at h
      dsimp only at h
      rw [← hlength, ← hsplit, ← List.length_reverse, List.drop_left] at h
      split at h
      · rename_i hname
        refine ⟨inner, before, hinner, hsplit.symm, hname, ?_⟩
        rw [← Option.some.inj h, List.length_reverse]
      · cases h
  · rintro ⟨inner, before, hinner, hsplit, hname, rfl⟩
    have hback : openDistance (')' :: rest) = some (inner.length + 1) :=
      openDistance_eq_some_iff.mpr
        ⟨inner, hinner, ⟨before, hsplit.symm⟩, length_parenthesized inner⟩
    have hdrop : (')' :: rest).drop (inner.length + 1 + 1) = before := by
      rw [hsplit, ← length_parenthesized, ← List.length_reverse, List.drop_left]
    rw [hback]
    dsimp only
    rw [hdrop, if_pos hname, length_parenthesized]

end Groups

/-! ### Chains and what they are reduced to -/

/-- Texts that are receiver chains: characters of names and what joins them, and groups in
parentheses with properly nested brackets, each behind such a character. -/
inductive IsChain : Text → Prop where
  | nil : IsChain []
  | name {chain : Text} {c : Char} (hchain : IsChain chain) (hc : isChainChar c = true) :
    IsChain (chain ++ [c])
  | group {chain inner : Text} (hchain : IsChain chain)
    (hname : chain.getLast?.any isChainChar = true) (hinner : IsBalanced (brackets inner)) :
    IsChain (chain ++ parenthesized inner)

/-- The second text is the first one without its outermost groups in parentheses, in each of which
brackets of all kinds are properly nested. -/
inductive Reduces : Text → Text → Prop where
  | nil : Reduces [] []
  | name {chain names : Text} {c : Char} (hchain : Reduces chain names)
    (hc : isChainChar c = true) : Reduces (chain ++ [c]) (names ++ [c])
  | group {chain names inner : Text} (hchain : Reduces chain names)
    (hinner : IsBalanced (brackets inner)) : Reduces (chain ++ parenthesized inner) names

/-- Names without groups are a chain. -/
theorem isChain_of_forall {names : Text} (h : ∀ c ∈ names, isChainChar c = true) :
    IsChain names := by
  induction names using List.reverseRecOn with
  | nil => exact .nil
  | append_singleton names c ih =>
    have hnames := ih fun x hx => h x (List.mem_append_left _ hx)
    exact hnames.name (h c (by simp))

/-- Every chain reduces to names. -/
theorem IsChain.exists_reduces {chain : Text} (h : IsChain chain) :
    ∃ names, Reduces chain names := by
  induction h with
  | nil => exact ⟨[], .nil⟩
  | name _ hc ih =>
    obtain ⟨names, hnames⟩ := ih
    exact ⟨_, hnames.name hc⟩
  | group _ _ hinner ih =>
    obtain ⟨names, hnames⟩ := ih
    exact ⟨names, hnames.group hinner⟩

section Reduces

variable {chain names : Text}

/-- Without the joints in front of it a chain still consists of names and whole groups. -/
theorem Reduces.exists_dropWhile (h : Reduces chain names) :
    ∃ left, Reduces (chain.dropWhile isJoint) left := by
  induction h with
  | nil => exact ⟨[], .nil⟩
  | @name chain names c _ hc ih =>
    obtain ⟨left, hleft⟩ := ih
    rw [List.dropWhile_append]
    split
    · by_cases hjoint : isJoint c = true
      · rw [List.dropWhile_cons_of_pos hjoint]
        exact ⟨[], .nil⟩
      · rw [List.dropWhile_cons_of_neg hjoint]
        exact ⟨_, Reduces.nil.name hc⟩
    · exact ⟨_, hleft.name hc⟩
  | @group chain names inner _ hinner ih =>
    obtain ⟨left, hleft⟩ := ih
    rw [List.dropWhile_append]
    split
    · exact ⟨[], Reduces.nil.group hinner⟩
    · exact ⟨left, hleft.group hinner⟩

/-- What is left has characters of names only. -/
theorem Reduces.isChainChar_of_mem (h : Reduces chain names) :
    ∀ c ∈ names, isChainChar c = true := by
  induction h with
  | nil => simp
  | name _ hc ih =>
    intro x hx
    rcases List.mem_append.mp hx with hx | hx
    · exact ih x hx
    · exact List.mem_singleton.mp hx ▸ hc
  | group _ _ ih => exact ih

/-- Inside a group only parentheses make a difference. -/
theorem dropGroups_cons_of_ne {c : Char} (hopen : c ≠ '(') (hclose : c ≠ ')') (depth : Nat)
    (text : Text) : dropGroups (depth + 1) (c :: text) = dropGroups (depth + 1) text := by
  rw [dropGroups, if_neg hopen, if_neg hclose]
  exact if_neg (by simp)

/-- A character in a group changes the count of parentheses as it changes what is open. -/
theorem exists_pile_of_cons {c : Char} {kinds last : List BracketKind} {roles : List BracketRole}
    (h : pile kinds (ofChar c :: roles) = some last) :
    ∃ next, pile next roles = some last ∧ ∀ depth rest,
      dropGroups (depth + kinds.count .round + 1) (c :: rest) =
        dropGroups (depth + next.count .round + 1) rest := by
  have hother (hopens : ofChar c ≠ .opens .round) (hcloses : ofChar c ≠ .closes .round)
      (depth : Nat) (rest : Text) :
      dropGroups (depth + 1) (c :: rest) = dropGroups (depth + 1) rest :=
    dropGroups_cons_of_ne (fun hc => hopens (ofChar_eq_opens_round_iff.mpr hc))
      (fun hc => hcloses (ofChar_eq_closes_round_iff.mpr hc)) depth rest
  cases hc : ofChar c with
  | plain =>
    rw [hc] at h hother
    exact ⟨kinds, h, fun depth rest => hother (by simp) (by simp) _ _⟩
  | opens kind =>
    rw [hc] at h hother
    refine ⟨kind :: kinds, h, fun depth rest => ?_⟩
    by_cases hround : kind = .round
    · subst hround
      rw [ofChar_eq_opens_round_iff.mp hc, dropGroups, if_pos rfl, List.count_cons_self]
      rfl
    · rw [List.count_cons_of_ne hround]
      exact hother (by simpa using hround) (by simp) _ _
  | closes kind =>
    rw [hc] at h hother
    cases kinds with
    | nil => cases h
    | cons inner outer =>
      rw [pile] at h
      split at h
      · rename_i hkind
        subst hkind
        refine ⟨outer, h, fun depth rest => ?_⟩
        by_cases hround : inner = .round
        · subst hround
          rw [ofChar_eq_closes_round_iff.mp hc, dropGroups, if_neg (by decide), if_pos rfl,
            List.count_cons_self]
          rfl
        · rw [List.count_cons_of_ne hround]
          exact hother (by simp) (by simpa using hround) _ _
      · cases h

/-- Everywhere in a group the count of parentheses is the number of those that are open. -/
theorem dropGroups_append_of_pile {inner : Text} {kinds last : List BracketKind}
    (h : pile kinds (inner.map ofChar) = some last) (depth : Nat) (rest : Text) :
    dropGroups (depth + kinds.count .round + 1) (inner ++ rest) =
      dropGroups (depth + last.count .round + 1) rest := by
  induction inner generalizing kinds with
  | nil =>
    rw [Option.some.inj h]
    rfl
  | cons c inner ih =>
    obtain ⟨next, hnext, hstep⟩ := exists_pile_of_cons h
    rw [List.cons_append, hstep, ih hnext]

/-- A group whose brackets are properly nested is dropped as a whole. -/
theorem dropGroups_parenthesized {inner : Text} (hinner : IsBalanced (brackets inner))
    (rest : Text) : dropGroups 0 (parenthesized inner ++ rest) = dropGroups 0 rest := by
  have hpile : pile [] (inner.map ofChar) = some [] := isBalanced_solid_iff.mp hinner
  have hinside := dropGroups_append_of_pile hpile 0 (')' :: rest)
  rw [parenthesized, List.cons_append, List.append_assoc, dropGroups, if_pos rfl]
  refine hinside.trans ?_
  rw [List.count_nil, dropGroups, if_neg (by decide), if_pos rfl]

/-- Dropping the groups of a chain leaves its names, whatever follows. -/
theorem Reduces.dropGroups_append (h : Reduces chain names) (rest : Text) :
    dropGroups 0 (chain ++ rest) = names ++ dropGroups 0 rest := by
  induction h generalizing rest with
  | nil => rfl
  | name _ hc ih =>
    obtain ⟨hopen, hclose⟩ := ne_of_isChainChar hc
    rw [List.append_assoc, ih, List.append_assoc, List.singleton_append, List.singleton_append,
      dropGroups, if_neg hopen, if_neg hclose, isBlank_eq_false_of_isChainChar hc]
    rfl
  | group _ hinner ih => rw [List.append_assoc, ih, dropGroups_parenthesized hinner]

/-- The outline of a chain is the chain without its groups. -/
theorem Reduces.outline_eq (h : Reduces chain names) : outline chain = names := by
  have hall := h.dropGroups_append []
  rwa [List.append_nil, dropGroups, List.append_nil] at hall

end Reduces

/-! ### The chain that is read -/

/-- The longest chain that ends a text: every other chain that ends it is an end of this one. -/
structure IsLongest (text whole : Text) : Prop where
  isChain : IsChain whole
  suffix : whole <:+ text
  suffix_of : ∀ chain, IsChain chain → chain <:+ text → chain <:+ whole

namespace IsLongest

variable {text whole inner : Text} {c : Char}

/-- What ends in a longer end ends in its last character. -/
theorem getLast?_of_suffix {front : Text} (h : front ++ [c] <:+ text) :
    text.getLast? = some c := by
  obtain ⟨before, rfl⟩ := h
  rw [← List.append_assoc, List.getLast?_concat]

/-- A character of a name is read. -/
theorem name (h : IsLongest text whole) (hc : isChainChar c = true) :
    IsLongest (text ++ [c]) (whole ++ [c]) where
  isChain := h.isChain.name hc
  suffix := List.suffix_append_self_iff.mpr h.suffix
  suffix_of chain hchain hsuffix := by
    cases hchain with
    | nil => exact List.nil_suffix
    | @name front d hfront hd =>
      have hlast := getLast?_of_suffix hsuffix
      rw [List.getLast?_concat] at hlast
      obtain rfl := Option.some.inj hlast
      rw [List.suffix_append_self_iff] at hsuffix ⊢
      exact h.suffix_of front hfront hsuffix
    | @group front inner hfront hname hinner =>
      obtain ⟨before, hbefore⟩ := hsuffix
      have hlast := congrArg List.getLast? hbefore
      rw [← List.append_assoc, getLast?_append_parenthesized, List.getLast?_concat] at hlast
      exact absurd (Option.some.inj hlast).symm (ne_of_isChainChar hc).2

/-- A group behind a name is read. -/
theorem group (h : IsLongest text whole) (hname : text.getLast?.any isChainChar = true)
    (hinner : IsBalanced (brackets inner)) :
    IsLongest (text ++ parenthesized inner) (whole ++ parenthesized inner) where
  isChain := by
    refine h.isChain.group ?_ hinner
    cases hlast : text.getLast? with
    | none =>
      rw [hlast] at hname
      cases hname
    | some c =>
      -- the last character is a chain by itself, so the longest one ends with it as well
      rw [hlast] at hname
      have hsingle := h.suffix_of [c] (IsChain.nil.name hname)
        (List.singleton_suffix_iff_getLast?_eq_some.mpr hlast)
      rwa [List.singleton_suffix_iff_getLast?_eq_some.mp hsingle]
  suffix := List.suffix_append_self_iff.mpr h.suffix
  suffix_of chain hchain hsuffix := by
    cases hchain with
    | nil => exact List.nil_suffix
    | @name front d hfront hd =>
      have hlast := getLast?_of_suffix hsuffix
      rw [getLast?_append_parenthesized] at hlast
      exact absurd (Option.some.inj hlast).symm (ne_of_isChainChar hd).2
    | @group front inner' hfront hname' hinner' =>
      obtain rfl := parenthesized_unique hinner hinner' (List.suffix_append _ _)
        ((List.suffix_append _ _).trans hsuffix)
      rw [List.suffix_append_self_iff] at hsuffix ⊢
      exact h.suffix_of front hfront hsuffix

/-- Where neither a name ends nor a group behind a name, nothing is read. -/
theorem nil (hname : ∀ c ∈ text.getLast?, isChainChar c = false)
    (hgroup : ∀ front inner, IsBalanced (brackets inner) → text = front ++ parenthesized inner →
      front.getLast?.any isChainChar = false) : IsLongest text [] where
  isChain := .nil
  suffix := List.nil_suffix
  suffix_of chain hchain hsuffix := by
    cases hchain with
    | nil => exact List.nil_suffix
    | @name front c hfront hc =>
      rw [hname c (getLast?_of_suffix hsuffix)] at hc
      cases hc
    | @group front inner hfront hlast hinner =>
      obtain ⟨before, hbefore⟩ := hsuffix
      have hnone := hgroup (before ++ front) inner hinner (by rw [← hbefore, List.append_assoc])
      rcases List.eq_nil_or_concat' front with rfl | ⟨front, c, rfl⟩
      · cases hlast
      · rw [← List.append_assoc, List.getLast?_concat] at hnone
        rw [List.getLast?_concat, hnone] at hlast
        cases hlast

end IsLongest

/-- What is read backwards is the longest chain that ends the text. -/
theorem isLongest_chainLength {backwards : Text} {limit : Nat}
    (hlimit : backwards.length ≤ limit) :
    IsLongest backwards.reverse (backwards.take (chainLength limit backwards)).reverse := by
  induction limit generalizing backwards with
  | zero =>
    obtain rfl := List.length_eq_zero_iff.mp (Nat.le_zero.mp hlimit)
    exact .nil (by simp) (by simp [parenthesized])
  | succ limit ih =>
    cases backwards with
    | nil => exact .nil (by simp) (by simp [parenthesized])
    | cons c rest =>
      rw [List.length_cons] at hlimit
      rw [chainLength]
      by_cases hc : isChainChar c = true
      · rw [if_pos hc, List.take_succ_cons, List.reverse_cons, List.reverse_cons]
        exact (ih (Nat.le_of_succ_le_succ hlimit)).name hc
      · have hname : ∀ d ∈ (c :: rest).reverse.getLast?, isChainChar d = false := by
          simpa using hc
        rw [if_neg hc]
        by_cases hclose : c = ')'
        · subst hclose
          rw [if_pos rfl]
          cases htaken : groupLength? (')' :: rest) with
          | none =>
            refine .nil hname fun front inner hinner hsplit => ?_
            have hback := congrArg List.reverse hsplit
            rw [List.reverse_reverse, List.reverse_append] at hback
            by_contra hlast
            rw [Bool.not_eq_false, ← List.head?_reverse] at hlast
            rw [groupLength?_eq_some_iff.mpr ⟨inner, front.reverse, hinner, hback, hlast, rfl⟩]
              at htaken
            cases htaken
          | some taken =>
            obtain ⟨inner, before, hinner, hsplit, hlast, rfl⟩ :=
              groupLength?_eq_some_iff.mp htaken
            have hbefore : before.length ≤ limit := by
              have hlength := congrArg List.length hsplit
              rw [List.length_cons, List.length_append, List.length_reverse,
                length_parenthesized] at hlength
              omega
            dsimp only
            rw [hsplit, ← List.length_reverse, List.drop_left, List.take_length_add_append,
              List.reverse_append, List.reverse_append, List.reverse_reverse]
            exact (ih hbefore).group (by rwa [List.getLast?_reverse]) hinner
        · rw [if_neg hclose]
          refine .nil hname fun front inner _ hsplit => ?_
          have hlast := congrArg List.getLast? hsplit
          rw [getLast?_append_parenthesized, List.getLast?_reverse] at hlast
          exact absurd (Option.some.inj hlast) hclose

/-! ### Callees -/

/-- Nothing but word characters and the marks of a chain, and so neither parentheses nor blanks. -/
def HoldsNames (names : Text) : Prop :=
  ∀ c ∈ names, (CharClass.isWord c = true ∨ c ∈ [':', '.', '!', '?', '@', '&']) ∧
    c ≠ '(' ∧ c ≠ ')' ∧ CharClass.isBlank c = false

/-- What is left holds the names. -/
theorem Reduces.holdsNames {chain names : Text} (h : Reduces chain names) : HoldsNames names := by
  intro c hc
  have hchar := h.isChainChar_of_mem c hc
  obtain ⟨hopen, hclose⟩ := ne_of_isChainChar hchar
  rw [isChainChar, Bool.or_eq_true, List.contains_iff_mem] at hchar
  exact ⟨hchar, hopen, hclose, isBlank_eq_false_of_isChainChar (h.isChainChar_of_mem c hc)⟩

/-- What a callee is to the text that it ends: with the joints before it, the longest chain there.
Its outline is the callee without its outermost groups, and holds names only. -/
structure IsCallee (passed callee : Text) : Prop where
  suffix : callee <:+ passed
  longest : ∃ joints, (∀ c ∈ joints, isJoint c = true) ∧ (∀ c ∈ callee.head?, isJoint c = false) ∧
    IsLongest passed (joints ++ callee)
  reduces : Reduces callee (outline callee)
  names : HoldsNames (outline callee)

/-- The chain that is read backwards is the callee that ends there. -/
theorem isCallee_chainEnding (passed : Text) : IsCallee passed (chainEnding passed.reverse) := by
  have hlongest := isLongest_chainLength (Nat.le_refl passed.reverse.length)
  rw [List.reverse_reverse] at hlongest
  rw [chainEnding]
  generalize (passed.reverse.take (chainLength passed.reverse.length passed.reverse)).reverse =
    whole at hlongest ⊢
  obtain ⟨names, hnames⟩ := hlongest.isChain.exists_reduces
  obtain ⟨left, hleft⟩ := hnames.exists_dropWhile
  constructor
  case suffix => exact (List.dropWhile_suffix _).trans hlongest.suffix
  case longest =>
    refine ⟨whole.takeWhile isJoint, fun c hc => List.mem_takeWhile_imp hc, fun c hc => ?_, ?_⟩
    · have hnot := List.head?_dropWhile_not isJoint whole
      rw [hc] at hnot
      simpa using hnot
    · rwa [List.takeWhile_append_dropWhile]
  case reduces => rwa [hleft.outline_eq]
  case names =>
    rw [hleft.outline_eq]
    exact hleft.holdsNames

/-- A group is kept whole, whatever brackets it holds, and dropped from the outline; a bracket that
is not closed by one of its kind ends the chain. -/
example :
    chainAt "a = B::C.set(x: [f(1), \x7b\x7d]).run!".toList 34 =
        "B::C.set(x: [f(1), \x7b\x7d]).run!".toList ∧
      outline "B::C.set(x: [f(1), \x7b\x7d]).run!".toList = "B::C.set.run!".toList ∧
      chainAt "B::C.set(x: [f(1), \x7b)].run!".toList 29 = "run!".toList := by
  decide

end Receiver

end FactoryDowngrade
