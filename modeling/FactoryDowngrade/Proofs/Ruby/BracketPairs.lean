import FactoryDowngrade.Ruby.Bracket
import Mathlib.Data.List.Basic
import Mathlib.Tactic.ByContra
import Mathlib.Tactic.TFAE

/-!
# Pairs of brackets

A word of brackets is balanced if each of them is closed by one of its kind, with a balanced word
between the two. Two places of a text are a pair if the brackets from the one to the other are such
a word that begins and ends there, and none but the whole of it is balanced from its beginning on.

The search for a closing bracket and the search for an opening one find the same pairs, and these
are all pairs. Both are the walk that keeps the open kinds, so it is enough to say where that walk
ends, and that a pair read from the other side is a pair.
-/

namespace FactoryDowngrade

namespace BracketRole

/-- Only one character opens round brackets. -/
theorem ofChar_eq_opens_round_iff {c : Char} : ofChar c = .opens .round ↔ c = '(' := by
  unfold ofChar
  split <;> simp_all

/-- Only one closes them. -/
theorem ofChar_eq_closes_round_iff {c : Char} :
    ofChar c = .closes .round ↔ c = ')' := by
  unfold ofChar
  split <;> simp_all

end BracketRole

namespace Bracket

open BracketRole

/-- Words of brackets that are properly nested: nothing, or a group with such a word in it and
another one behind it. -/
inductive IsBalanced : List BracketRole → Prop where
  | nil : IsBalanced []
  | group (kind : BracketKind) {inner rest : List BracketRole} (hinner : IsBalanced inner)
    (hrest : IsBalanced rest) : IsBalanced (.opens kind :: (inner ++ .closes kind :: rest))

/-- The brackets among some roles. -/
def solid (roles : List BracketRole) : List BracketRole :=
  roles.filter (· ≠ .plain)

/-- The brackets of a text, in order. -/
def brackets (text : Text) : List BracketRole :=
  solid (text.map ofChar)

/-- Whether a bracket that opens a group stands at an offset. -/
def OpensAt (text : Text) (index : Nat) : Prop :=
  ∃ c kind, text[index]? = some c ∧ ofChar c = .opens kind

/-- Whether a bracket that closes a group stands at an offset. -/
def ClosesAt (text : Text) (index : Nat) : Prop :=
  ∃ c kind, text[index]? = some c ∧ ofChar c = .closes kind

/-- Two offsets of a text with a bracket at each, such that the brackets from the one to the other
are balanced, and no shorter word of them is that begins where they do. -/
structure IsPair (text : Text) (first last : Nat) : Prop where
  le : first ≤ last
  begins : ∃ c, text[first]? = some c ∧ ofChar c ≠ .plain
  ends : ∃ c, text[last]? = some c ∧ ofChar c ≠ .plain
  balanced : IsBalanced (brackets (text.slice first (last + 1)))
  primitive : ∀ front, front <+: brackets (text.slice first (last + 1)) → front ≠ [] →
    IsBalanced front → front = brackets (text.slice first (last + 1))

/-! ### Open brackets -/

/-- The kinds that are open behind some roles, the innermost first, if every closing bracket closes
the innermost open one. -/
def pile : List BracketKind → List BracketRole → Option (List BracketKind)
  | kinds, [] => some kinds
  | kinds, .plain :: roles => pile kinds roles
  | kinds, .opens kind :: roles => pile (kind :: kinds) roles
  | [], .closes _ :: _ => none
  | last :: kinds, .closes kind :: roles => if last = kind then pile kinds roles else none

section Pile

variable {kinds inner : List BracketKind} {kind : BracketKind} {role : BracketRole}
  {u v w roles : List BracketRole}

/-- Roles that follow one another pile up one after the other. -/
theorem pile_append : pile kinds (u ++ v) = (pile kinds u).bind (pile · v) := by
  induction u generalizing kinds with
  | nil => rfl
  | cons role u ih =>
    cases role with
    | plain => exact ih
    | opens kind => exact ih
    | closes kind =>
      cases kinds with
      | nil => rfl
      | cons last kinds =>
        simp only [List.cons_append, pile]
        split
        · exact ih
        · rfl

/-- What is open around some roles stays open below what they leave. -/
theorem pile_append_outer (h : pile kinds roles = some inner) (outer : List BracketKind) :
    pile (kinds ++ outer) roles = some (inner ++ outer) := by
  induction roles generalizing kinds with
  | nil => rw [pile, Option.some.inj h]
  | cons role roles ih =>
    cases role with
    | plain => exact ih h
    | opens kind => exact ih h
    | closes kind =>
      cases kinds with
      | nil => cases h
      | cons last kinds =>
        rw [pile] at h
        split at h
        · rename_i hkind
          rw [List.cons_append, pile, if_pos hkind]
          exact ih h
        · cases h

/-- What is no bracket does not count. -/
theorem pile_solid : pile kinds (solid roles) = pile kinds roles := by
  induction roles generalizing kinds with
  | nil => rfl
  | cons role roles ih =>
    cases role with
    | plain => exact ih
    | opens kind => exact ih
    | closes kind =>
      cases kinds with
      | nil => rfl
      | cons last kinds =>
        have hcons : solid (.closes kind :: roles) = .closes kind :: solid roles := rfl
        rw [hcons, pile, pile, ih]

/-- A balanced word leaves open what is. -/
theorem IsBalanced.pile_eq (h : IsBalanced w) (kinds : List BracketKind) :
    pile kinds w = some kinds := by
  induction h generalizing kinds with
  | nil => rfl
  | group kind _ _ ihinner ihrest =>
    rw [pile, pile_append, ihinner, Option.bind_some, pile, if_pos rfl]
    exact ihrest kinds

/-- Brackets that leave nothing open are balanced if nothing was open before them; and else they are
balanced up to the one that closes the innermost group. -/
theorem isBalanced_of_pile (hw : BracketRole.plain ∉ w) (h : pile kinds w = some []) :
    match kinds with
    | [] => IsBalanced w
    | kind :: outer =>
      ∃ u v, w = u ++ .closes kind :: v ∧ IsBalanced u ∧ pile outer v = some [] := by
  induction hlength : w.length using Nat.strongRecOn generalizing w kinds with
  | ind length ih =>
    cases w with
    | nil =>
      obtain rfl : kinds = [] := Option.some.inj h
      exact .nil
    | cons role w =>
      rw [List.length_cons] at hlength
      rw [List.mem_cons, not_or] at hw
      cases role with
      | plain => exact absurd rfl hw.1
      | closes kind =>
        cases kinds with
        | nil => cases h
        | cons last outer =>
          rw [pile] at h
          split at h
          · rename_i hkind
            exact ⟨[], w, by rw [hkind]; rfl, .nil, h⟩
          · cases h
      | opens kind =>
        obtain ⟨u, v, rfl, hu, hv⟩ := ih w.length (by omega) hw.2 h rfl
        have hshorter : v.length < length := by
          simp only [List.length_append, List.length_cons] at hlength
          omega
        have hsolid : BracketRole.plain ∉ v := fun hmem => hw.2 (by simp [hmem])
        have hbehind := ih v.length hshorter hsolid hv rfl
        cases kinds with
        | nil => exact .group kind hu hbehind
        | cons last outer =>
          obtain ⟨u', v', rfl, hu', hv'⟩ := hbehind
          exact ⟨.opens kind :: (u ++ .closes kind :: u'), v', by simp, .group kind hu hu', hv'⟩

/-- Brackets are balanced just when they leave nothing open. -/
theorem isBalanced_solid_iff : IsBalanced (solid roles) ↔ pile [] roles = some [] := by
  rw [← pile_solid]
  refine ⟨fun h => h.pile_eq [], fun h => ?_⟩
  have hsolid : BracketRole.plain ∉ solid roles := by simp [solid]
  exact isBalanced_of_pile hsolid h

/-- A balanced word has no plain roles to leave out. -/
theorem IsBalanced.solid_eq (h : IsBalanced w) : solid w = w := by
  induction h with
  | nil => rfl
  | group kind _ _ ihinner ihrest =>
    rw [solid, List.filter_cons_of_pos (by simp), List.filter_append,
      List.filter_cons_of_pos (by simp), ← solid, ← solid, ihinner, ihrest]

/-- A front is balanced just when it leaves nothing open. -/
theorem isBalanced_iff_pile (h : u <+: solid roles) :
    IsBalanced u ↔ pile [] u = some [] := by
  obtain ⟨v, hv⟩ := h
  have hu : solid u = u := by
    refine List.filter_eq_self.mpr fun role hrole => ?_
    have hmem : role ∈ solid roles := hv ▸ List.mem_append_left _ hrole
    exact (List.mem_filter.mp hmem).2
  rw [← isBalanced_solid_iff, hu]

/-- Balanced words stand one behind the other. -/
theorem IsBalanced.append (hu : IsBalanced u) (hv : IsBalanced v) : IsBalanced (u ++ v) := by
  induction hu with
  | nil => exact hv
  | group kind hinner _ _ ihrest =>
    have hgroup := IsBalanced.group kind hinner ihrest
    simpa using hgroup

/-- What stands before a balanced end of a balanced word is balanced. -/
theorem IsBalanced.of_append (h : IsBalanced (u ++ v)) (hv : IsBalanced v) : IsBalanced u := by
  have hpile := h.pile_eq []
  rw [pile_append, Option.bind_eq_some_iff] at hpile
  obtain ⟨kinds, hu, hrest⟩ := hpile
  rw [hv.pile_eq kinds] at hrest
  have hfront : u <+: solid (u ++ v) := by
    rw [h.solid_eq]
    exact List.prefix_append u v
  rw [isBalanced_iff_pile hfront, hu, hrest]

/-- A balanced word that is not empty opens a group. -/
theorem IsBalanced.exists_head? (h : IsBalanced w) (hw : w ≠ []) :
    ∃ kind, w.head? = some (.opens kind) := by
  cases h with
  | nil => exact absurd rfl hw
  | group kind _ _ => exact ⟨kind, rfl⟩

end Pile

/-! ### Read from the other side -/

/-- Roles read from the other side. -/
def mirror (roles : List BracketRole) : List BracketRole :=
  (roles.map flip).reverse

section Mirror

variable {u v w roles : List BracketRole}

/-- A word that is mirrored twice is as it was. -/
theorem mirror_mirror (roles : List BracketRole) : mirror (mirror roles) = roles := by
  simp [mirror, Function.comp_def]

/-- Mirroring changes the order of two words. -/
theorem mirror_append (u v : List BracketRole) : mirror (u ++ v) = mirror v ++ mirror u := by
  simp [mirror]

/-- Leaving the plain roles out and mirroring can change places. -/
theorem solid_mirror (roles : List BracketRole) : solid (mirror roles) = mirror (solid roles) := by
  have hflip : ∀ role : BracketRole, role.flip = .plain ↔ role = .plain := by
    intro role
    cases role <;> simp [BracketRole.flip]
  rw [solid, mirror, List.filter_reverse, List.filter_map, mirror, solid]
  simp only [Function.comp_def, ne_eq, hflip]

/-- The mirror image of a balanced word is balanced. -/
theorem IsBalanced.mirror (h : IsBalanced w) : IsBalanced (mirror w) := by
  induction h with
  | nil => exact .nil
  | @group kind inner rest _ _ ihinner ihrest =>
    have hgroup : IsBalanced (.opens kind :: (Bracket.mirror inner ++ .closes kind :: [])) :=
      .group kind ihinner .nil
    have hsides := ihrest.append hgroup
    simpa [Bracket.mirror, BracketRole.flip] using hsides

/-- A stretch of roles from a bracket to a bracket, balanced as a whole and nowhere before. -/
structure IsGroup (roles : List BracketRole) : Prop where
  begins : ∃ role, roles.head? = some role ∧ role ≠ .plain
  ends : ∃ role, roles.getLast? = some role ∧ role ≠ .plain
  balanced : IsBalanced (solid roles)
  primitive : ∀ front, front <+: solid roles → front ≠ [] → IsBalanced front → front = solid roles

/-- A bracket that is turned around is no plain role. -/
theorem flip_ne_plain {role : BracketRole} (h : role ≠ .plain) : role.flip ≠ .plain := by
  cases role with
  | plain => exact absurd rfl h
  | opens kind => simp [BracketRole.flip]
  | closes kind => simp [BracketRole.flip]

/-- A group is one from the other side too. -/
theorem IsGroup.mirror (h : IsGroup roles) : IsGroup (mirror roles) := by
  constructor
  case begins =>
    obtain ⟨role, hrole, hbracket⟩ := h.ends
    exact ⟨role.flip, by simp [Bracket.mirror, hrole], flip_ne_plain hbracket⟩
  case ends =>
    obtain ⟨role, hrole, hbracket⟩ := h.begins
    exact ⟨role.flip, by simp [Bracket.mirror, hrole], flip_ne_plain hbracket⟩
  case balanced =>
    rw [solid_mirror]
    exact h.balanced.mirror
  case primitive =>
    rw [solid_mirror]
    rintro front ⟨behind, hsplit⟩ hfront hbalanced
    have hword : solid roles = Bracket.mirror behind ++ Bracket.mirror front := by
      rw [← mirror_append, hsplit, mirror_mirror]
    -- what stands before the mirrored front is balanced and not all there is
    have hbehind : IsBalanced (Bracket.mirror behind) :=
      IsBalanced.of_append (hword ▸ h.balanced) hbalanced.mirror
    have hnone : Bracket.mirror behind = [] := by
      by_contra hsome
      have hall := h.primitive _ (hword ▸ List.prefix_append _ _) hsome hbehind
      rw [hword] at hall
      exact hfront (by rw [← mirror_mirror front, List.self_eq_append_right.mp hall]; rfl)
    have hempty : behind = [] := by rw [← mirror_mirror behind, hnone]; rfl
    rwa [hempty, List.append_nil] at hsplit

/-- A word is a group just when its mirror image is one. -/
theorem isGroup_mirror_iff : IsGroup (mirror roles) ↔ IsGroup roles :=
  ⟨fun h => mirror_mirror roles ▸ h.mirror, IsGroup.mirror⟩

/-- A group begins with an opener. -/
theorem IsGroup.exists_opens (h : IsGroup roles) : ∃ kind, roles.head? = some (.opens kind) := by
  obtain ⟨role, hrole, hbracket⟩ := h.begins
  obtain ⟨rest, rfl⟩ := List.head?_eq_some_iff.mp hrole
  have hcons : solid (role :: rest) = role :: solid rest :=
    List.filter_cons_of_pos (by simpa using hbracket)
  have hopens := h.balanced.exists_head? (by simp [hcons])
  rwa [hcons] at hopens

end Mirror

/-! ### Where the walk ends -/

section Walk

variable {role : Char → BracketRole} {kinds : List BracketKind} {roles : List BracketRole}
  {text : Text} {distance : Nat}

/-- The role at a distance is the first one behind which nothing is open. -/
def EmptiesAt (kinds : List BracketKind) (roles : List BracketRole) (distance : Nat) : Prop :=
  distance < roles.length ∧ pile kinds (roles.take (distance + 1)) = some [] ∧
    ∀ n ≤ distance, pile kinds (roles.take n) ≠ some []

/-- A first role that leaves something open is passed. -/
theorem emptiesAt_cons_iff {inner : List BracketKind} {first : BracketRole} (hkinds : kinds ≠ [])
    (hinner : inner ≠ []) (hstep : ∀ roles, pile kinds (first :: roles) = pile inner roles) :
    EmptiesAt kinds (first :: roles) distance ↔
      ∃ behind, distance = behind + 1 ∧ EmptiesAt inner roles behind := by
  have hstart : pile kinds [] ≠ some [] := fun h => hkinds (Option.some.inj h)
  cases distance with
  | zero =>
    refine iff_of_false ?_ nofun
    rintro ⟨-, hend, -⟩
    rw [List.take_succ_cons, List.take_zero, hstep] at hend
    exact hinner (Option.some.inj hend)
  | succ distance =>
    simp only [EmptiesAt, Nat.add_right_cancel_iff, exists_eq_left', List.length_cons,
      Nat.add_lt_add_iff_right, List.take_succ_cons, hstep]
    refine and_congr_right fun _ => and_congr_right fun _ => ⟨fun h n hn => ?_, fun h n hn => ?_⟩
    · simpa [hstep] using h (n + 1) (Nat.succ_le_succ hn)
    · cases n with
      | zero => exact hstart
      | succ n => simpa [hstep] using h n (Nat.le_of_succ_le_succ hn)

/-- A first role that leaves nothing open ends the walk. -/
theorem emptiesAt_cons_iff_eq_zero {first : BracketRole} (hkinds : kinds ≠ [])
    (hstep : ∀ roles, pile kinds (first :: roles) = pile [] roles) :
    EmptiesAt kinds (first :: roles) distance ↔ distance = 0 := by
  have hfirst : pile kinds [first] = some [] := hstep []
  constructor
  · rintro ⟨-, -, hearlier⟩
    by_contra hpos
    exact hearlier 1 (Nat.one_le_iff_ne_zero.mpr hpos) hfirst
  · rintro rfl
    refine ⟨Nat.succ_pos _, hfirst, fun n hn => ?_⟩
    obtain rfl := Nat.le_zero.mp hn
    exact fun h => hkinds (Option.some.inj h)

/-- A walk ends at the first place where nothing is open any more. -/
theorem closeDistance_eq_some_iff (hkinds : kinds ≠ []) :
    closeDistance role kinds text = some distance ↔ EmptiesAt kinds (text.map role) distance := by
  induction text generalizing kinds distance with
  | nil => simp [closeDistance, EmptiesAt]
  | cons c rest ih =>
    have hnext {inner : List BracketKind} (hinner : inner ≠ [])
        (hstep : ∀ roles, pile kinds (role c :: roles) = pile inner roles) :
        (closeDistance role inner rest).map (· + 1) = some distance ↔
          EmptiesAt kinds ((c :: rest).map role) distance := by
      rw [List.map_cons, emptiesAt_cons_iff hkinds hinner hstep, Option.map_eq_some_iff]
      exact exists_congr fun behind => by rw [ih hinner, and_comm, eq_comm]
    rw [closeDistance]
    cases hc : role c with
    | plain => exact hnext hkinds fun roles => by rw [hc, pile]
    | opens kind => exact hnext (List.cons_ne_nil _ _) fun roles => by rw [hc, pile]
    | closes kind =>
      obtain ⟨last, outer, rfl⟩ := List.exists_cons_of_ne_nil hkinds
      by_cases hkind : last = kind
      · have hstep (roles : List BracketRole) :
            pile (last :: outer) (role c :: roles) = pile outer roles := by
          rw [hc, pile, if_pos hkind]
        cases outer with
        | nil =>
          dsimp only
          rw [if_pos hkind, List.map_cons, emptiesAt_cons_iff_eq_zero hkinds hstep,
            Option.some_inj, eq_comm]
        | cons next outer =>
          dsimp only
          rw [if_pos hkind]
          exact hnext (List.cons_ne_nil _ _) hstep
      · -- the closing bracket is of another kind, and nothing counts behind it
        have hnever : ¬EmptiesAt (last :: outer) ((c :: rest).map role) distance := by
          rintro ⟨-, hend, -⟩
          rw [List.map_cons, List.take_succ_cons, hc, pile, if_neg hkind] at hend
          cases hend
        refine iff_of_false ?_ hnever
        cases outer <;> simp [hkind]

/-- A stretch that begins with an opening bracket is a group if something stays open up to its last
role and nothing behind it. -/
theorem isGroup_iff {kind : BracketKind} :
    IsGroup (.opens kind :: roles) ↔ pile [kind] roles = some [] ∧
      ∀ front behind, roles = front ++ behind → behind ≠ [] → pile [kind] front ≠ some [] := by
  constructor
  · intro h
    refine ⟨isBalanced_solid_iff.mp h.balanced, ?_⟩
    rintro front behind rfl hbehind hfront
    have hsplit : solid (.opens kind :: (front ++ behind)) =
        solid (.opens kind :: front) ++ solid behind := by
      rw [← List.cons_append, solid, List.filter_append]
      rfl
    have hall := h.primitive (solid (.opens kind :: front)) (hsplit ▸ List.prefix_append _ _)
      (by simp [solid]) (isBalanced_solid_iff.mpr hfront)
    rw [hsplit, List.self_eq_append_right] at hall
    obtain ⟨role, hrole, hbracket⟩ := h.ends
    rw [← List.cons_append, List.getLast?_append_of_ne_nil _ hbehind] at hrole
    exact hbracket (by simpa using List.filter_eq_nil_iff.mp hall role (List.mem_of_getLast? hrole))
  · rintro ⟨hall, hearlier⟩
    constructor
    case begins => exact ⟨.opens kind, rfl, nofun⟩
    case balanced => exact isBalanced_solid_iff.mpr hall
    case ends =>
      have hroles : roles ≠ [] := by
        rintro rfl
        cases hall
      refine ⟨roles.getLast hroles, by rw [List.getLast?_cons_of_ne_nil hroles,
        List.getLast?_eq_some_getLast hroles], fun hplain => ?_⟩
      have hsplit := List.dropLast_concat_getLast hroles
      refine hearlier roles.dropLast [roles.getLast hroles] hsplit.symm (List.cons_ne_nil _ _) ?_
      rw [← hsplit, pile_append, hplain, Option.bind_eq_some_iff] at hall
      obtain ⟨kinds, hkinds, hrest⟩ := hall
      exact hkinds.trans hrest
    case primitive =>
      rintro front ⟨behind, hsplit⟩ hfront hbalanced
      obtain ⟨u, v, huv, rfl, rfl⟩ := List.filter_eq_append_iff.mp hsplit.symm
      rw [← solid] at hfront hbalanced
      cases u with
      | nil => exact absurd rfl hfront
      | cons role u =>
        obtain ⟨rfl, rfl⟩ : .opens kind = role ∧ roles = u ++ v := List.cons.inj huv
        have hnone : v = [] := by
          by_contra hv
          exact hearlier u v rfl hv (isBalanced_solid_iff.mp hbalanced)
        rw [hnone, List.append_nil]
        rfl

/-- A group ends with the bracket that closes its first one, and what stands between is balanced. -/
theorem IsGroup.exists_eq (h : IsGroup roles) :
    ∃ kind inner, IsBalanced (solid inner) ∧ roles = .opens kind :: (inner ++ [.closes kind]) := by
  obtain ⟨kind, hkind⟩ := h.exists_opens
  obtain ⟨rest, rfl⟩ := List.head?_eq_some_iff.mp hkind
  obtain ⟨last, hlast, hbracket⟩ := h.ends
  obtain ⟨hall, -⟩ := isGroup_iff.mp h
  have hsolid : BracketRole.plain ∉ solid rest := by simp [solid]
  obtain ⟨u, v, hsplit, hu, -⟩ := isBalanced_of_pile hsolid (pile_solid.trans hall)
  have hcons : solid (.opens kind :: rest) = .opens kind :: solid rest := rfl
  -- the word is closed where its first bracket is, so nothing comes behind
  have hword := h.primitive (.opens kind :: (u ++ [.closes kind]))
    ⟨v, by rw [hcons, hsplit]; simp⟩ (List.cons_ne_nil _ _) (.group kind hu .nil)
  have hrest : solid rest = u ++ [.closes kind] := (List.cons.inj (hcons ▸ hword)).2.symm
  rcases List.eq_nil_or_concat' rest with rfl | ⟨inner, x, rfl⟩
  · simp [solid] at hrest
  · rw [← List.cons_append, List.getLast?_concat] at hlast
    obtain rfl := Option.some.inj hlast
    have hconcat : solid (inner ++ [x]) = solid inner ++ [x] := by
      rw [solid, List.filter_append, ← solid, List.filter_cons_of_pos (by simpa using hbracket),
        List.filter_nil]
    obtain ⟨hinner, hx⟩ := List.append_inj' (hconcat.symm.trans hrest) rfl
    obtain rfl := List.singleton_inj.mp hx
    exact ⟨kind, inner, hinner ▸ hu, rfl⟩

/-- Balanced roles between a bracket and the one that closes it are a group. -/
theorem isGroup_of_isBalanced {kind : BracketKind} {inner : List BracketRole}
    (hinner : IsBalanced (solid inner)) : IsGroup (.opens kind :: (inner ++ [.closes kind])) := by
  have hstays (kinds : List BracketKind) : pile kinds inner = some kinds :=
    pile_solid ▸ hinner.pile_eq kinds
  refine isGroup_iff.mpr ⟨?_, fun front behind hsplit hbehind hfront => ?_⟩
  · rw [pile_append, hstays, Option.bind_some, pile, if_pos rfl, pile]
  · obtain ⟨more, hmore⟩ : front <+: inner := by
      have hprefix : front <+: inner ++ [.closes kind] := ⟨behind, hsplit.symm⟩
      rcases List.prefix_concat_iff.mp hprefix with hall | hpart
      · rw [← hall, List.self_eq_append_right] at hsplit
        exact absurd hsplit hbehind
      · exact hpart
    -- what is open behind a beginning of the inner roles lies above the first bracket
    have hinside := hstays []
    rw [← hmore, pile_append, Option.bind_eq_some_iff] at hinside
    obtain ⟨kinds, hkinds, -⟩ := hinside
    have habove := pile_append_outer hkinds [kind]
    rw [List.nil_append, hfront] at habove
    simp at habove

/-- Nothing is open any more behind the opening bracket and some roles just when they are a
group. -/
theorem emptiesAt_iff_isGroup {kind : BracketKind} : EmptiesAt [kind] roles distance ↔
    distance < roles.length ∧ IsGroup (.opens kind :: roles.take (distance + 1)) := by
  rw [EmptiesAt, isGroup_iff]
  refine and_congr_right fun hlength => and_congr_right fun _ => ⟨?_, ?_⟩
  · intro hearlier front behind hsplit hbehind
    have hshort : front.length + behind.length = distance + 1 := by
      rw [← List.length_append, ← hsplit, List.length_take]
      omega
    have hpos := List.length_pos_iff.mpr hbehind
    have hfront : front = roles.take front.length := by
      have htake : (roles.take (distance + 1)).take front.length = front := by
        rw [hsplit, List.take_left]
      rw [← htake, List.take_take, List.length_take_of_le (by omega), Nat.min_eq_left (by omega)]
    rw [hfront]
    exact hearlier front.length (by omega)
  · intro hearlier n hn
    refine hearlier (roles.take n) ((roles.take (distance + 1)).drop n) ?_ ?_
    · have hsplit := List.take_append_drop n (roles.take (distance + 1))
      rw [List.take_take, Nat.min_eq_left (by omega)] at hsplit
      exact hsplit.symm
    · rw [← List.length_pos_iff, List.length_drop, List.length_take]
      omega

/-- A walk from an opening bracket ends at the distance of the group that begins with it. -/
theorem closeDistance_nil_eq_some_iff {c : Char} {rest : Text} {kind : BracketKind}
    (hc : role c = .opens kind) :
    closeDistance role [] (c :: rest) = some distance ↔
      distance < (c :: rest).length ∧ IsGroup (((c :: rest).take (distance + 1)).map role) := by
  rw [closeDistance, hc]
  dsimp only
  rw [Option.map_eq_some_iff]
  constructor
  · rintro ⟨behind, hclose, rfl⟩
    obtain ⟨hlength, hgroup⟩ := emptiesAt_iff_isGroup.mp
      ((closeDistance_eq_some_iff (List.cons_ne_nil _ _)).mp hclose)
    rw [List.length_map] at hlength
    refine ⟨Nat.succ_lt_succ hlength, ?_⟩
    rwa [List.take_succ_cons, List.map_cons, hc, List.map_take]
  · rintro ⟨hlength, hgroup⟩
    rw [List.take_succ_cons, List.map_cons, hc] at hgroup
    cases distance with
    | zero =>
      -- a bracket alone leaves its own group open
      cases (isGroup_iff.mp hgroup).1
    | succ behind =>
      refine ⟨behind, (closeDistance_eq_some_iff (List.cons_ne_nil _ _)).mpr
        (emptiesAt_iff_isGroup.mpr ⟨?_, ?_⟩), rfl⟩
      · rw [List.length_map]
        exact Nat.lt_of_succ_lt_succ hlength
      · rwa [← List.map_take]

end Walk

/-! ### Pairs of a text -/

section Pairs

variable {text : Text} {first last index : Nat}

/-- A range begins with the character at its start. -/
theorem head?_slice (hle : first ≤ last) :
    (text.slice first (last + 1)).head? = text[first]? := by
  rw [Text.slice, List.head?_drop, List.getElem?_take_of_lt (Nat.lt_succ_of_le hle)]

/-- It ends with the one at its last place. -/
theorem getLast?_slice (hle : first ≤ last) (hlast : last < text.length) :
    (text.slice first (last + 1)).getLast? = text[last]? := by
  rw [Text.slice, List.getLast?_drop, List.length_take_of_le hlast, if_neg (by omega),
    List.getLast?_take, if_neg (Nat.succ_ne_zero last), Nat.add_sub_cancel,
    List.getElem?_eq_getElem hlast, Option.some_or]

/-- Pairs are the ends of groups. -/
theorem isPair_iff : IsPair text first last ↔
    first ≤ last ∧ last < text.length ∧ IsGroup ((text.slice first (last + 1)).map ofChar) := by
  have hroles (c : Option Char) : (∃ role, c.map ofChar = some role ∧ role ≠ .plain) ↔
      ∃ x, c = some x ∧ ofChar x ≠ .plain := by
    cases c <;> simp
  constructor
  · intro h
    obtain ⟨c, hc, -⟩ := h.ends
    have hlast := (List.getElem?_eq_some_iff.mp hc).1
    refine ⟨h.le, hlast, ?_, ?_, h.balanced, h.primitive⟩
    · rw [List.head?_map, head?_slice h.le, hroles]
      exact h.begins
    · rw [List.getLast?_map, getLast?_slice h.le hlast, hroles]
      exact h.ends
  · rintro ⟨hle, hlast, hgroup⟩
    refine ⟨hle, ?_, ?_, hgroup.balanced, hgroup.primitive⟩
    · rw [← hroles, ← head?_slice hle, ← List.head?_map]
      exact hgroup.begins
    · rw [← hroles, ← getLast?_slice hle hlast, ← List.getLast?_map]
      exact hgroup.ends

/-- A pair begins with an opening bracket. -/
theorem IsPair.opensAt (h : IsPair text first last) : OpensAt text first := by
  obtain ⟨hle, -, hgroup⟩ := isPair_iff.mp h
  obtain ⟨kind, hkind⟩ := hgroup.exists_opens
  rw [List.head?_map, head?_slice hle] at hkind
  obtain ⟨c, hc, hrole⟩ := Option.map_eq_some_iff.mp hkind
  exact ⟨c, kind, hc, hrole⟩

/-- A pair ends with a closing bracket. -/
theorem IsPair.closesAt (h : IsPair text first last) : ClosesAt text last := by
  obtain ⟨hle, hlast, hgroup⟩ := isPair_iff.mp h
  obtain ⟨kind, hkind⟩ := hgroup.mirror.exists_opens
  rw [mirror, List.head?_reverse, List.getLast?_map, List.getLast?_map,
    getLast?_slice hle hlast] at hkind
  obtain ⟨role, hrole, hflip⟩ := Option.map_eq_some_iff.mp hkind
  obtain ⟨c, hc, rfl⟩ := Option.map_eq_some_iff.mp hrole
  exact ⟨c, kind, hc, eq_flip_of_flip_eq hflip⟩

/-- The search from an opening bracket finds the other one of its pair. -/
theorem closing?_eq_some_iff (hopens : OpensAt text first) :
    closing? text first = some last ↔ IsPair text first last := by
  obtain ⟨c, kind, hc, hkind⟩ := hopens
  obtain ⟨hfirst, hget⟩ := List.getElem?_eq_some_iff.mp hc
  have hdrop : text.drop first = c :: text.drop (first + 1) := by
    rw [← hget]
    exact List.drop_eq_getElem_cons hfirst
  have hslice (distance : Nat) :
      text.slice first (first + distance + 1) = (text.drop first).take (distance + 1) := by
    rw [Text.slice, List.drop_take]
    congr 1
    omega
  rw [closing?, Option.map_eq_some_iff, isPair_iff]
  constructor
  · rintro ⟨distance, hclose, rfl⟩
    rw [hdrop, closeDistance_nil_eq_some_iff hkind, ← hdrop, ← hslice, List.length_drop] at hclose
    exact ⟨Nat.le_add_right _ _, by omega, hclose.2⟩
  · rintro ⟨hle, hlast, hgroup⟩
    obtain ⟨distance, rfl⟩ := Nat.exists_eq_add_of_le hle
    refine ⟨distance, ?_, rfl⟩
    rw [hdrop, closeDistance_nil_eq_some_iff hkind, ← hdrop, ← hslice, List.length_drop]
    exact ⟨by omega, hgroup⟩

/-- The search from a closing bracket finds the other one of its pair. -/
theorem opening?_eq_some_iff (hcloses : ClosesAt text last) :
    opening? text last = some first ↔ IsPair text first last := by
  obtain ⟨c, kind, hc, hkind⟩ := hcloses
  obtain ⟨hlast, hget⟩ := List.getElem?_eq_some_iff.mp hc
  have hback : (text.take (last + 1)).reverse = c :: (text.take last).reverse := by
    rw [List.take_succ_eq_append_getElem hlast, List.reverse_append, hget]
    rfl
  have hflip : (fun c => (ofChar c).flip) c = .opens kind := by
    simp only [hkind]
    rfl
  -- read from the closing bracket, the stretch up to a place is the mirrored one from there
  have hslice {distance : Nat} (hdistance : distance ≤ last) :
      (((text.take (last + 1)).reverse.take (distance + 1)).map fun c => (ofChar c).flip) =
        mirror ((text.slice (last - distance) (last + 1)).map ofChar) := by
    rw [List.take_reverse, List.length_take_of_le hlast, mirror, List.map_map, List.map_reverse,
      Text.slice]
    congr 3
    omega
  rw [opening?, openDistance, Option.map_eq_some_iff, isPair_iff]
  constructor
  · rintro ⟨distance, hclose, rfl⟩
    rw [hback, closeDistance_nil_eq_some_iff hflip, ← hback, List.length_reverse,
      List.length_take_of_le hlast] at hclose
    have hdistance : distance ≤ last := Nat.le_of_lt_succ hclose.1
    rw [hslice hdistance, isGroup_mirror_iff] at hclose
    exact ⟨Nat.sub_le _ _, hlast, hclose.2⟩
  · rintro ⟨hle, -, hgroup⟩
    refine ⟨last - first, ?_, by omega⟩
    rw [hback, closeDistance_nil_eq_some_iff hflip, ← hback, List.length_reverse,
      List.length_take_of_le hlast, hslice (Nat.sub_le _ _), isGroup_mirror_iff,
      Nat.sub_sub_self hle]
    exact ⟨by omega, hgroup⟩

end Pairs

/-- The searches in both directions find the same pairs, and find them all: an opening bracket has
another one at the end of its search, a closing bracket has this one at the end of its own, and the
two are a pair, each just when the others hold. An opening bracket for which nothing is found is in
no pair. -/
theorem tfae_isPair (text : Text) (first last : Nat) :
    [OpensAt text first ∧ closing? text first = some last,
      ClosesAt text last ∧ opening? text last = some first,
      IsPair text first last].TFAE ∧
    (OpensAt text first ∧ closing? text first = none ↔
      OpensAt text first ∧ ∀ last, ¬IsPair text first last) := by
  constructor
  · tfae_have 1 ↔ 3 := by
      constructor
      · rintro ⟨hopens, hclosing⟩
        exact (closing?_eq_some_iff hopens).mp hclosing
      · intro hpair
        exact ⟨hpair.opensAt, (closing?_eq_some_iff hpair.opensAt).mpr hpair⟩
    tfae_have 2 ↔ 3 := by
      constructor
      · rintro ⟨hcloses, hopening⟩
        exact (opening?_eq_some_iff hcloses).mp hopening
      · intro hpair
        exact ⟨hpair.closesAt, (opening?_eq_some_iff hpair.closesAt).mpr hpair⟩
    tfae_finish
  · refine and_congr_right fun hopens => ?_
    rw [Option.eq_none_iff_forall_ne_some]
    exact forall_congr' fun last => not_congr (closing?_eq_some_iff hopens)

/-- A bracket of another kind between the two spoils a pair in both directions. -/
example : closing? "f([x], \x7by\x7d)".toList 1 = some 10 ∧
    opening? "f([x], \x7by\x7d)".toList 10 = some 1 ∧
    closing? "f([x, \x7by)]\x7d".toList 1 = none ∧
    opening? "f([x, \x7by)]\x7d".toList 8 = none := by
  decide

end Bracket

end FactoryDowngrade
