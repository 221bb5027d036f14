import FactoryDowngrade.Proofs.Ruby.Seams
import FactoryDowngrade.Proofs.Template.Scans
import FactoryDowngrade.Proofs.Text.CharClasses

/-!
# Trees of blocks

Code is laid out one statement a line: plain lines, lines with a modifier, and blocks with a head,
a body and an `end`. From the `do` of an outer block the search for its `end` counts such lines. A
modifier opens nothing and a head opens one block, except that a loop whose head ends in `do` is
counted twice, once for its own keyword and once for the `do`. So the search stops at the outer
block's own `end` if and only if no loop in it has a trailing `do`.
-/

namespace FactoryDowngrade

namespace Block

/-! ### Keywords in a text -/

/-- Every keyword. -/
def keywords : List Text :=
  ["do", "def", "class", "module", "begin", "case", "for", "if", "unless", "while", "until",
    "end"].map String.toList

/-- Whether a keyword may begin behind a text. -/
def admitsKeyword (before : Text) : Bool :=
  !before.head?.any spoilsBefore

/-- Whether a keyword may end in front of a text. -/
def endsKeyword (after : Text) : Bool :=
  !after.head?.any fun c => CharClass.isWord c || ['?', '!', ':'].contains c

/-- Every keyword is in the list. -/
theorem mem_keywords {word : Text} {keyword : Keyword} (h : keyword? word = some keyword) :
    word ∈ keywords := by
  have hspelled (words : List String) (hwords : (words.map String.toList).contains word = true) :
      word ∈ words.map String.toList := List.contains_iff_mem.mp hwords
  simp only [keyword?] at h
  split at h
  · rename_i hopens
    exact List.mem_of_mem_take (i := 7) (hspelled _ hopens)
  · split at h
    · rename_i hcondition
      exact List.mem_of_mem_drop (i := 7) (List.mem_of_mem_take (i := 4) (hspelled _ hcondition))
    · split at h
      · rename_i hcloses
        exact List.mem_of_mem_drop (i := 11) (hspelled _ hcloses)
      · cases h

/-- A keyword is a word. -/
theorem isWord_of_keyword? {word : Text} {keyword : Keyword} (h : keyword? word = some keyword) :
    word ≠ [] ∧ ∀ c ∈ word, CharClass.isWord c = true := by
  have hall : ∀ word ∈ keywords, word ≠ [] ∧ ∀ c ∈ word, CharClass.isWord c = true := by
    decide
  exact hall word (mem_keywords h)

/-- No word goes on where a keyword may end. -/
theorem any_isWord_of_endsKeyword {rest : Text} (hrest : endsKeyword rest = true) :
    rest.head?.any CharClass.isWord = false := by
  cases rest with
  | nil => rfl
  | cons c rest =>
    rw [endsKeyword, Bool.not_eq_true'] at hrest
    exact (Bool.or_eq_false_iff.mp hrest).1

/-- What is read off the front of a text ends where no word goes on. -/
theorem takeWhile_isWord_append {rest : Text} (hrest : rest.head?.any CharClass.isWord = false)
    (text : Text) :
    (text ++ rest).takeWhile CharClass.isWord = text.takeWhile CharClass.isWord := by
  cases rest with
  | nil => rw [List.append_nil]
  | cons c rest =>
    have hc : CharClass.isWord c = false := hrest
    exact takeWhile_append_seam hc text rest

/-- No mark follows where a keyword may end. -/
theorem any_mark_append {rest : Text} (hrest : endsKeyword rest = true) (text : Text) :
    (text ++ rest).head?.any ['?', '!', ':'].contains =
      text.head?.any ['?', '!', ':'].contains := by
  cases text with
  | cons c text => rfl
  | nil =>
    cases rest with
    | nil => rfl
    | cons c rest =>
      simp only [endsKeyword, List.head?_cons, Option.any_some, Bool.not_eq_true',
        Bool.or_eq_false_iff] at hrest
      exact hrest.2

/-- No keyword begins where no word does. -/
theorem keywordAt?_of_not_isWord {after : Text} (h : after.head?.any CharClass.isWord = false)
    (before : Text) : keywordAt? ⟨before, after⟩ = none := by
  have hempty : after.takeWhile CharClass.isWord = [] :=
    (takeWhile_append_stop (List.forall_mem_nil _) h).1
  have hnone : keyword? [] = none := by decide
  simp [keywordAt?, hempty, hnone]

/-- The keyword at a place does not depend on what stands further off on either side. -/
theorem keywordAt?_append (front : Text) {before rest : Text}
    (hbefore : front = [] → admitsKeyword before = true) (hrest : endsKeyword rest = true)
    (after : Text) :
    keywordAt? ⟨front ++ before, after ++ rest⟩ = keywordAt? ⟨front, after⟩ := by
  have hfollows : Cursor.follows ⟨front ++ before, after ++ rest⟩ spoilsBefore =
      Cursor.follows ⟨front, after⟩ spoilsBefore := by
    cases front with
    | cons c front => rfl
    | nil => simpa [admitsKeyword, Cursor.follows] using hbefore rfl
  have hlength : (after.takeWhile CharClass.isWord).length ≤ after.length :=
    (List.takeWhile_prefix _).length_le
  rw [keywordAt?, keywordAt?, hfollows]
  dsimp only
  rw [takeWhile_isWord_append (any_isWord_of_endsKeyword hrest),
    List.drop_append_of_le_length hlength,
    any_mark_append hrest]

/-- A keyword that stands by itself is found. -/
theorem keywordAt?_keyword {word before rest : Text} {keyword : Keyword}
    (hword : keyword? word = some keyword) (hbefore : admitsKeyword before = true)
    (hrest : endsKeyword rest = true) :
    keywordAt? ⟨before, word ++ rest⟩ = some keyword := by
  have hrun : word.takeWhile CharClass.isWord = word :=
    List.takeWhile_eq_self_iff.mpr (isWord_of_keyword? hword).2
  have happend := keywordAt?_append [] (fun _ => hbefore) hrest word
  rw [List.nil_append] at happend
  rw [happend, keywordAt?, if_neg (by simp [Cursor.follows])]
  dsimp only
  rw [hrun, List.drop_length, if_neg (by simp), hword]

/-! ### The count of open blocks -/

section Counting

variable {depth : Int} {before rest : Text}

/-- Off words nothing opens or closes a block. -/
theorem closingEnd?_of_not_isWord {text : Text} (htext : ∀ c ∈ text, CharClass.isWord c = false) :
    closingEnd? depth before (text ++ rest) = closingEnd? depth (text.reverse ++ before) rest := by
  induction text generalizing before with
  | nil => rfl
  | cons c text ih =>
    have hc : (c :: (text ++ rest)).head?.any CharClass.isWord = false :=
      htext c List.mem_cons_self
    have hnone := keywordAt?_of_not_isWord hc before
    rw [List.cons_append, closingEnd?, hnone]
    dsimp only
    rw [ih fun d hd => htext d (List.mem_cons_of_mem _ hd), List.reverse_cons, List.append_assoc]
    rfl

/-- The search goes on behind an indentation. -/
theorem closingEnd?_indent {margin : Text}
    (hmargin : ∀ c ∈ margin, CharClass.isSpaceOrTab c = true) :
    closingEnd? depth before (margin ++ rest) =
      closingEnd? depth (margin.reverse ++ before) rest :=
  closingEnd?_of_not_isWord fun c hc =>
    CharClass.isWord_eq_false_of_isBlank (CharClass.isBlank_of_isSpaceOrTab (hmargin c hc))

/-- It goes on behind a space. -/
theorem closingEnd?_blank :
    closingEnd? depth before (' ' :: rest) = closingEnd? depth (' ' :: before) rest :=
  closingEnd?_of_not_isWord (by decide : ∀ c ∈ [' '], CharClass.isWord c = false)

/-- And behind a line break. -/
theorem closingEnd?_lineBreak :
    closingEnd? depth before ('\n' :: rest) = closingEnd? depth ('\n' :: before) rest :=
  closingEnd?_of_not_isWord (by decide : ∀ c ∈ ['\n'], CharClass.isWord c = false)

/-- What a keyword that stands by itself does to the count. -/
theorem closingEnd?_keyword {word : Text} {keyword : Keyword}
    (hword : keyword? word = some keyword) (hbefore : admitsKeyword before = true)
    (hrest : endsKeyword rest = true) :
    closingEnd? depth before (word ++ rest) =
      match keyword with
      | .closes =>
        if depth = 1 then some ⟨before, word ++ rest⟩
        else closingEnd? (depth - 1) (word.reverse ++ before) rest
      | .opens => closingEnd? (depth + 1) (word.reverse ++ before) rest
      | .opensStatement =>
        closingEnd? (if startsStatement ⟨before, word ++ rest⟩ then depth + 1 else depth)
          (word.reverse ++ before) rest := by
  have hfound := keywordAt?_keyword hword hbefore hrest
  obtain ⟨hne, hall⟩ := isWord_of_keyword? hword
  obtain ⟨c, word, rfl⟩ := List.exists_cons_of_ne_nil hne
  -- behind its first character the word is passed like any other
  have hpassed (depth : Int) : closingEnd? depth (c :: before) (word ++ rest) =
      closingEnd? depth ((c :: word).reverse ++ before) rest := by
    have hhead : (c :: before).head?.any CharClass.isWord = true := hall c List.mem_cons_self
    rw [Template.closingEnd?_append (fun d hd => hall d (List.mem_cons_of_mem _ hd)) depth hhead,
      List.reverse_cons, List.append_assoc]
    rfl
  rw [List.cons_append] at hfound ⊢
  rw [closingEnd?, hfound]
  cases keyword with
  | opens => exact hpassed _
  | opensStatement => exact hpassed _
  | closes => rw [hpassed]

/-- The search never goes back. -/
theorem length_le_offset_closingEnd? {after : Text} {c : Cursor}
    (h : closingEnd? depth before after = some c) : before.length ≤ c.offset := by
  induction after generalizing depth before with
  | nil => cases h
  | cons x after ih =>
    have hnext {depth : Int} (h : closingEnd? depth (x :: before) after = some c) :
        before.length ≤ c.offset := Nat.le_of_succ_le (ih h)
    rw [closingEnd?] at h
    split at h
    · split at h
      · obtain rfl := Option.some.inj h
        exact Nat.le_refl _
      · exact hnext h
    · exact hnext h
    · exact hnext h
    · exact hnext h

end Counting

/-! ### Starts of lines -/

/-- Whether only spaces and tabs stand before a place on its line. -/
def AtIndent (before : Text) : Prop :=
  ∀ c ∈ before.takeWhile (· ≠ '\n'), CharClass.isSpaceOrTab c = true

namespace AtIndent

variable {before : Text}

/-- A line break leads to the start of a line. -/
theorem lineBreak (before : Text) : AtIndent ('\n' :: before) := by
  simp [AtIndent]

/-- More indentation. -/
theorem indented (h : AtIndent before) {margin : Text}
    (hmargin : ∀ c ∈ margin, CharClass.isSpaceOrTab c = true) :
    AtIndent (margin.reverse ++ before) := by
  have hline : ∀ c ∈ margin.reverse, decide (c ≠ '\n') = true := by
    intro c hc
    refine decide_eq_true ?_
    rintro rfl
    exact absurd (hmargin _ (List.mem_reverse.mp hc)) (by decide)
  intro c hc
  rw [List.takeWhile_append_of_pos hline] at hc
  exact (List.mem_append.mp hc).elim (fun hc => hmargin c (List.mem_reverse.mp hc)) (h c)

/-- A keyword may stand at the start of a line. -/
theorem admitsKeyword (h : AtIndent before) : admitsKeyword before = true := by
  have hspoils : ∀ c ∈ ['\n', ' ', '\t'], spoilsBefore c = false := by decide
  cases before with
  | nil => rfl
  | cons c before =>
    have hc : c ∈ ['\n', ' ', '\t'] := by
      by_cases hbreak : c = '\n'
      · exact hbreak ▸ List.mem_cons_self
      · have hmem : c ∈ (c :: before).takeWhile (· ≠ '\n') := by simp [hbreak]
        exact List.mem_cons_of_mem _ (CharClass.mem_of_isSpaceOrTab (h c hmem))
    simp [Block.admitsKeyword, hspoils c hc]

/-- So may a statement. -/
theorem startsStatement (h : AtIndent before) (after : Text) :
    startsStatement ⟨before, after⟩ = true := by
  have hblank : (before.takeWhile (· ≠ '\n')).dropWhile CharClass.isBlank = [] :=
    List.dropWhile_eq_nil_iff.mpr fun c hc => CharClass.isBlank_of_isSpaceOrTab (h c hc)
  rw [Block.startsStatement, hblank]
  rfl

end AtIndent

/-! ### Code without keywords -/

/-- No keyword begins in a text. -/
def IsKeywordFree (text : Text) : Prop :=
  (Cursor.start text).first? keywordAt? = none

instance (text : Text) : Decidable (IsKeywordFree text) :=
  inferInstanceAs (Decidable (_ = none))

namespace IsKeywordFree

variable {u v : Text}

/-- There are as many places in a text as ways to cut it in two. -/
theorem iff_split : IsKeywordFree u ↔
    ∀ front back, u = front ++ back → keywordAt? ⟨front.reverse, back⟩ = none := by
  rw [IsKeywordFree, Cursor.first?_eq_none_iff]
  constructor
  · exact fun h front back hsplit => h front _ ⟨hsplit, (List.append_nil _).symm⟩
  · rintro h front ⟨before, back⟩ hpass
    obtain rfl : before = front.reverse ++ [] := hpass.before
    rw [List.append_nil]
    exact h front back hpass.after

/-- Without words there are no keywords. -/
theorem of_not_isWord (h : ∀ c ∈ u, CharClass.isWord c = false) : IsKeywordFree u := by
  refine iff_split.mpr fun front back hsplit => keywordAt?_of_not_isWord ?_ _
  cases back with
  | nil => rfl
  | cons c back => exact h c (by rw [hsplit]; simp)

/-- Behind some text the keywords are those of the rest, apart from the place between them. -/
theorem keywordAt?_behind (hv : IsKeywordFree v) {front back : Text} (hsplit : v = front ++ back)
    (hbefore : front = [] → admitsKeyword u.reverse = true) :
    keywordAt? ⟨(u ++ front).reverse, back⟩ = none := by
  have hend : endsKeyword [] = true := rfl
  have hinside := keywordAt?_append front.reverse
    (fun hnil => hbefore (List.reverse_eq_nil_iff.mp hnil)) hend back
  rwa [iff_split.mp hv front back hsplit, List.append_nil, ← List.reverse_append] at hinside

/-- Two texts without keywords make another one if no word goes on from the first to the second. -/
theorem append (hu : IsKeywordFree u) (hv : IsKeywordFree v) (hend : endsKeyword v = true) :
    IsKeywordFree (u ++ v) := by
  refine iff_split.mpr fun front back hsplit => ?_
  rcases List.append_eq_append_iff.mp hsplit with ⟨passed, rfl, rfl⟩ | ⟨ahead, rfl, rfl⟩
  · cases passed with
    | nil =>
      -- what ends a keyword begins none
      exact keywordAt?_of_not_isWord (any_isWord_of_endsKeyword hend) _
    | cons c passed => exact hv.keywordAt?_behind rfl (by simp)
  · have hstart : admitsKeyword [] = true := rfl
    have hinside := keywordAt?_append front.reverse (fun _ => hstart) hend ahead
    rwa [iff_split.mp hu front ahead rfl, List.append_nil] at hinside

/-- Behind characters of no word a text without keywords has none. -/
theorem behind (hu : ∀ c ∈ u, CharClass.isWord c = false) (hadmits : admitsKeyword u.reverse = true)
    (hv : IsKeywordFree v) : IsKeywordFree (u ++ v) := by
  refine iff_split.mpr fun front back hsplit => ?_
  rcases List.append_eq_append_iff.mp hsplit with ⟨passed, rfl, rfl⟩ | ⟨ahead, rfl, rfl⟩
  · exact hv.keywordAt?_behind rfl fun _ => hadmits
  · cases ahead with
    | nil =>
      have hplace := hv.keywordAt?_behind (u := front) (List.nil_append v).symm
        fun _ => by simpa using hadmits
      simpa using hplace
    | cons c ahead =>
      have hc : (c :: ahead ++ v).head?.any CharClass.isWord = false := hu c (by simp)
      exact keywordAt?_of_not_isWord hc _

/-- Behind a character that makes it something else a word is no keyword. -/
theorem spoiled {c : Char} (hword : CharClass.isWord c = false) (hspoils : spoilsBefore c = true)
    (hv : ∀ x ∈ v, CharClass.isWord x = true) : IsKeywordFree (c :: v) := by
  refine iff_split.mpr fun front back hsplit => ?_
  rcases List.eq_nil_or_concat' front with rfl | ⟨front, last, rfl⟩
  · rw [List.nil_append] at hsplit
    exact keywordAt?_of_not_isWord (hsplit ▸ hword) _
  · have hmem : last ∈ c :: v := hsplit ▸ by simp
    have hlast : spoilsBefore last = true := by
      rcases List.mem_cons.mp hmem with rfl | hmem
      · exact hspoils
      · simp [spoilsBefore, hv last hmem]
    rw [keywordAt?, if_pos (by simpa [Cursor.follows] using hlast)]

end IsKeywordFree

/-! ### Lines -/

/-- Code on one line in which no keyword begins. -/
structure Quiet where
  text : Text
  oneLine : '\n' ∉ text
  keywordFree : IsKeywordFree text

/-- The code behind a word, if there is any. -/
def Quiet.behind (q : Quiet) : Text :=
  if q.text = [] then [] else ' ' :: q.text

/-- A statement with a condition or a loop behind it. What the keyword follows does not end in a
character that wants a statement. -/
structure Modified where
  statement : Quiet
  word : Text
  isCondition : keyword? word = some .opensStatement
  complete : (statement.text.reverse.dropWhile CharClass.isBlank).head?.all ['=', '(', ';'].contains
    = false
  condition : Quiet

/-- The line without its indentation. -/
def Modified.text (m : Modified) : Text :=
  m.statement.text ++ ' ' :: (m.word ++ ' ' :: m.condition.text)

/-- The line that opens a block: `x do`, a keyword with what belongs to it, or the keyword and the
condition of a loop with a trailing `do`. -/
inductive Head where
  | call (receiver parameters : Quiet)
  | keyword (word : Text)
      (opens : keyword? word = some .opens ∨ keyword? word = some .opensStatement) (rest : Quiet)
  | loop (word : Text) (isLoop : word ∈ ["while", "until", "for"].map String.toList)
      (condition : Quiet)

namespace Head

/-- The line without its indentation. -/
def text : Head → Text
  | call receiver parameters => receiver.text ++ ' ' :: ("do".toList ++ parameters.behind)
  | keyword word _ rest => word ++ rest.behind
  | loop word _ condition => word ++ (condition.behind ++ ' ' :: "do".toList)

/-- How many blocks a head is counted for beyond its own. -/
def excess : Head → Nat
  | call _ _ => 0
  | keyword _ _ _ => 0
  | loop _ _ _ => 1

end Head

section Passing

variable {depth : Int} {before rest : Text}

/-- The count stays as it is over code that no keyword begins in. The code comes in two parts:
what has been passed of it, and what is still ahead. -/
theorem closingEnd?_of_keywordFree (hbefore : admitsKeyword before = true)
    (hrest : endsKeyword rest = true) {front back : Text}
    (hfree : Cursor.findSome? keywordAt? front back = none) :
    closingEnd? depth (front ++ before) (back ++ rest) =
      closingEnd? depth (back.reverse ++ (front ++ before)) rest := by
  induction back generalizing front with
  | nil => rfl
  | cons c back ih =>
    have hnone : keywordAt? ⟨front, c :: back⟩ = none := by
      cases hfound : keywordAt? ⟨front, c :: back⟩ with
      | none => rfl
      | some keyword =>
        rw [Cursor.findSome?, hfound] at hfree
        cases hfree
    rw [Cursor.findSome?, hnone] at hfree
    have hhere := keywordAt?_append front (fun _ => hbefore) hrest (c :: back)
    rw [hnone, List.cons_append] at hhere
    rw [List.cons_append, closingEnd?, hhere]
    dsimp only
    rw [← List.cons_append, ih hfree, List.reverse_cons, List.append_assoc]
    rfl

/-- Quiet code leaves the count as it is. -/
theorem Quiet.closingEnd?_text (q : Quiet) (hbefore : admitsKeyword before = true)
    (hrest : endsKeyword rest = true) :
    closingEnd? depth before (q.text ++ rest) =
      closingEnd? depth (q.text.reverse ++ before) rest :=
  closingEnd?_of_keywordFree hbefore hrest q.keywordFree

/-- So does quiet code behind a word. -/
theorem Quiet.closingEnd?_behind (q : Quiet) (hrest : endsKeyword rest = true) :
    closingEnd? depth before (q.behind ++ rest) =
      closingEnd? depth (q.behind.reverse ++ before) rest := by
  unfold Quiet.behind
  split
  · rfl
  · rw [List.cons_append, closingEnd?_blank, q.closingEnd?_text (by rfl) hrest, List.reverse_cons,
      List.append_assoc]
    rfl

/-- A keyword may end before code that belongs to it. -/
theorem Quiet.endsKeyword_behind (q : Quiet) (hrest : endsKeyword rest = true) :
    endsKeyword (q.behind ++ rest) = true := by
  unfold Quiet.behind
  split
  · exact hrest
  · rfl

/-- A keyword behind a blank, with quiet code behind it, opens a block. -/
theorem closingEnd?_opens {word : Text} (hword : keyword? word = some .opens) (tail : Quiet)
    (hbefore : admitsKeyword before = true) (hrest : endsKeyword rest = true) :
    closingEnd? depth before (word ++ (tail.behind ++ rest)) =
      closingEnd? (depth + 1) ((word ++ tail.behind).reverse ++ before) rest := by
  rw [closingEnd?_keyword hword hbefore (tail.endsKeyword_behind hrest)]
  dsimp only
  rw [tail.closingEnd?_behind hrest, List.reverse_append, List.append_assoc]

/-- At the start of a line conditions and loops open a block as other keywords do. -/
theorem closingEnd?_opening {word : Text}
    (hword : keyword? word = some .opens ∨ keyword? word = some .opensStatement) (tail : Quiet)
    (hbefore : AtIndent before) (hrest : endsKeyword rest = true) :
    closingEnd? depth before (word ++ (tail.behind ++ rest)) =
      closingEnd? (depth + 1) ((word ++ tail.behind).reverse ++ before) rest := by
  rcases hword with hword | hword
  · exact closingEnd?_opens hword tail hbefore.admitsKeyword hrest
  · rw [closingEnd?_keyword hword hbefore.admitsKeyword (tail.endsKeyword_behind hrest)]
    dsimp only
    rw [hbefore.startsStatement, if_pos rfl, tail.closingEnd?_behind hrest, List.reverse_append,
      List.append_assoc]

end Passing

/-! ### What a line does to the count -/

/-- A line takes the count of open blocks up by some number, whatever stands around it. -/
def Counts (line : Text) (gain : Nat) : Prop :=
  ∀ (depth : Int) (before rest : Text), AtIndent before → endsKeyword rest = true →
    closingEnd? depth before (line ++ rest) =
      closingEnd? (depth + gain) (line.reverse ++ before) rest

/-- Quiet code counts for nothing. -/
theorem Quiet.counts (q : Quiet) : Counts q.text 0 := by
  intro depth before rest hbefore hrest
  rw [q.closingEnd?_text hbefore.admitsKeyword hrest, Int.natCast_zero, Int.add_zero]

/-- A condition or a loop behind a complete statement begins none. -/
theorem Modified.startsStatement (m : Modified) (before after : Text) :
    Block.startsStatement ⟨' ' :: (m.statement.text.reverse ++ before), after⟩ = false := by
  have hcomplete := m.complete
  have hline : ∀ c ∈ m.statement.text.reverse, decide (c ≠ '\n') = true := fun c hc =>
    forall_ne_of_notMem m.statement.oneLine c (List.mem_reverse.mp hc)
  have hblank : CharClass.isBlank ' ' = true := rfl
  rw [Block.startsStatement, List.takeWhile_cons_of_pos (by decide),
    List.takeWhile_append_of_pos hline, List.dropWhile_cons_of_pos hblank, List.dropWhile_append]
  cases hlast : m.statement.text.reverse.dropWhile CharClass.isBlank with
  | nil =>
    rw [hlast] at hcomplete
    cases hcomplete
  | cons c more =>
    rw [hlast] at hcomplete
    exact hcomplete

/-- Neither does a statement with a condition behind it. -/
theorem Modified.counts (m : Modified) : Counts m.text 0 := by
  intro depth before rest hbefore hrest
  rw [Modified.text, List.append_assoc, m.statement.closingEnd?_text hbefore.admitsKeyword (by rfl),
    List.cons_append, closingEnd?_blank, List.append_assoc,
    closingEnd?_keyword m.isCondition (by rfl) (by rfl)]
  dsimp only
  rw [m.startsStatement, if_neg (by decide), List.cons_append, closingEnd?_blank,
    m.condition.closingEnd?_text (by rfl) hrest, Int.natCast_zero, Int.add_zero]
  simp

/-- A head is counted for one block, and for a second one if it is a loop with a trailing `do`. -/
theorem Head.counts (h : Head) : Counts h.text (1 + h.excess) := by
  intro depth before rest hbefore hrest
  have hdo : keyword? "do".toList = some .opens := by decide
  cases h with
  | call receiver parameters =>
    rw [Head.text, List.append_assoc, receiver.closingEnd?_text hbefore.admitsKeyword (by rfl),
      List.cons_append, closingEnd?_blank, List.append_assoc,
      closingEnd?_opens hdo parameters (by rfl) hrest]
    simp [Head.excess]
  | keyword word opens tail =>
    rw [Head.text, List.append_assoc, closingEnd?_opening opens tail hbefore hrest]
    simp [Head.excess]
  | loop word isLoop condition =>
    have hopens : keyword? word = some .opens ∨ keyword? word = some .opensStatement := by
      have hall : ∀ word ∈ ["while", "until", "for"].map String.toList,
          keyword? word = some .opens ∨ keyword? word = some .opensStatement := by decide
      exact hall word isLoop
    rw [Head.text, List.append_assoc, List.append_assoc,
      closingEnd?_opening hopens condition hbefore (by rfl), List.cons_append, closingEnd?_blank,
      closingEnd?_keyword hdo (by rfl) hrest]
    dsimp only [Head.excess]
    rw [Int.add_assoc]
    simp

/-- An indented line with its line break. -/
theorem Counts.closingEnd?_line {line : Text} {gain : Nat} (h : Counts line gain) (depth : Int)
    {before margin : Text} (hbefore : AtIndent before)
    (hmargin : ∀ c ∈ margin, CharClass.isSpaceOrTab c = true) (rest : Text) :
    closingEnd? depth before (margin ++ (line ++ '\n' :: rest)) =
      closingEnd? (depth + gain) ('\n' :: (line.reverse ++ (margin.reverse ++ before))) rest := by
  rw [closingEnd?_indent hmargin, h depth _ _ (hbefore.indented hmargin) (by rfl),
    closingEnd?_lineBreak]

/-! ### Trees -/

/-- Statements in the order in which they stand, each on a line of its own or a block. -/
inductive Tree where
  | done
  | line (code : Quiet) (rest : Tree)
  | modified (code : Modified) (rest : Tree)
  | block (head : Head) (body rest : Tree)

namespace Tree

/-- The lines of a tree, indented by the margin of their level. -/
def render (margin : Nat → Text) (level : Nat) : Tree → Text
  | done => []
  | line code rest => margin level ++ (code.text ++ '\n' :: rest.render margin level)
  | modified code rest => margin level ++ (code.text ++ '\n' :: rest.render margin level)
  | block head body rest =>
    margin level ++ (head.text ++ '\n' :: (body.render margin (level + 1) ++
      (margin level ++ ("end".toList ++ '\n' :: rest.render margin level))))

/-- The number of loops with a trailing `do`. -/
def doubled : Tree → Nat
  | done => 0
  | line _ rest => rest.doubled
  | modified _ rest => rest.doubled
  | block head body rest => head.excess + body.doubled + rest.doubled

/-- A block with parameters around a tree, up to its own `end`. -/
def framed (margin : Nat → Text) (parameters : Quiet) (t : Tree) : Text :=
  "do".toList ++ (parameters.behind ++ '\n' :: (t.render margin 1 ++ margin 0))

section Rendered

variable {margin : Nat → Text}
  (hmargin : ∀ level, ∀ c ∈ margin level, CharClass.isSpaceOrTab c = true)

/-- Behind the lines of a tree a line begins. -/
theorem atIndent_render (t : Tree) (level : Nat) {before : Text} (hbefore : AtIndent before) :
    AtIndent ((t.render margin level).reverse ++ before) := by
  induction t generalizing level before with
  | done => exact hbefore
  | line code rest ih =>
    have hline := ih level (.lineBreak (code.text.reverse ++ ((margin level).reverse ++ before)))
    simpa [render] using hline
  | modified code rest ih =>
    have hline := ih level (.lineBreak (code.text.reverse ++ ((margin level).reverse ++ before)))
    simpa [render] using hline
  | block head body rest ihBody ihRest =>
    have hline := ihRest level (.lineBreak ("end".toList.reverse ++
      ((margin level).reverse ++ ((body.render margin (level + 1)).reverse ++
        '\n' :: (head.text.reverse ++ ((margin level).reverse ++ before))))))
    simpa [render] using hline

include hmargin

/-- Behind the lines of a tree the count is what it was, and one more for every loop with a
trailing `do`. -/
theorem closingEnd?_render (t : Tree) {depth : Int} (hdepth : 1 ≤ depth) (level : Nat)
    {before : Text} (hbefore : AtIndent before) (rest : Text) :
    closingEnd? depth before (t.render margin level ++ rest) =
      closingEnd? (depth + t.doubled) ((t.render margin level).reverse ++ before) rest := by
  induction t generalizing depth level before rest with
  | done => simp [render, doubled]
  | line code tail ih =>
    have hline := code.counts.closingEnd?_line depth hbefore (hmargin level)
      (tail.render margin level ++ rest)
    rw [Int.natCast_zero, Int.add_zero, ih hdepth level (.lineBreak _)] at hline
    simpa [render, doubled] using hline
  | modified code tail ih =>
    have hline := code.counts.closingEnd?_line depth hbefore (hmargin level)
      (tail.render margin level ++ rest)
    rw [Int.natCast_zero, Int.add_zero, ih hdepth level (.lineBreak _)] at hline
    simpa [render, doubled] using hline
  | block head body tail ihBody ihTail =>
    have hend : keyword? "end".toList = some .closes := by decide
    have hinside : 1 ≤ depth + (1 + head.excess : Nat) := by omega
    have hbehind : 1 ≤ depth + (head.excess + body.doubled : Nat) := by omega
    have hopen : depth + (1 + head.excess : Nat) + body.doubled ≠ 1 := by omega
    have hclosed : depth + (1 + head.excess : Nat) + body.doubled - 1 =
        depth + (head.excess + body.doubled : Nat) := by omega
    let opened := '\n' :: (head.text.reverse ++ ((margin level).reverse ++ before))
    let passed := (margin level).reverse ++ ((body.render margin (level + 1)).reverse ++ opened)
    let behind := '\n' :: (tail.render margin level ++ rest)
    have hopened : AtIndent opened := .lineBreak _
    have hpassed : AtIndent passed :=
      (body.atIndent_render (level + 1) hopened).indented (hmargin level)
    have hhead := head.counts.closingEnd?_line depth hbefore (hmargin level)
      (body.render margin (level + 1) ++ (margin level ++ ("end".toList ++ behind)))
    have hbody := ihBody hinside (level + 1) hopened
      (margin level ++ ("end".toList ++ behind))
    have hindent : closingEnd? (depth + (1 + head.excess : Nat) + body.doubled)
        ((body.render margin (level + 1)).reverse ++ opened)
        (margin level ++ ("end".toList ++ behind)) =
          closingEnd? (depth + (1 + head.excess : Nat) + body.doubled) passed
            ("end".toList ++ behind) := closingEnd?_indent (hmargin level)
    -- the `end` of the block closes what its head opened, unless that was counted twice
    have hclose : closingEnd? (depth + (1 + head.excess : Nat) + body.doubled) passed
        ("end".toList ++ behind) =
          closingEnd? (depth + (head.excess + body.doubled : Nat))
            ("end".toList.reverse ++ passed) behind := by
      rw [closingEnd?_keyword hend hpassed.admitsKeyword (by rfl)]
      dsimp only
      rw [if_neg hopen, hclosed]
    have htail := ihTail hbehind level (.lineBreak ("end".toList.reverse ++ passed)) rest
    rw [hbody, hindent, hclose, closingEnd?_lineBreak, htail, Int.add_assoc,
      ← Int.natCast_add] at hhead
    simpa [render, doubled, opened, passed, behind] using hhead

/-- From the `do` of a block around a tree the search comes to the block's own `end`. It stops
there if no loop has a trailing `do`; else it goes on behind it with as many blocks open. -/
theorem closingEnd?_framed (t : Tree) (parameters : Quiet) {before rest : Text}
    (hbefore : admitsKeyword before = true) (hrest : endsKeyword rest = true) :
    closingEnd? 0 before (t.framed margin parameters ++ ("end".toList ++ rest)) =
      if t.doubled = 0 then
        some ⟨(t.framed margin parameters).reverse ++ before, "end".toList ++ rest⟩
      else closingEnd? t.doubled
        ("end".toList.reverse ++ ((t.framed margin parameters).reverse ++ before)) rest := by
  have hdo : keyword? "do".toList = some .opens := by decide
  have hend : keyword? "end".toList = some .closes := by decide
  let opened := '\n' :: (("do".toList ++ parameters.behind).reverse ++ before)
  have hopened : AtIndent opened := .lineBreak _
  have hframed : (t.framed margin parameters).reverse ++ before =
      (margin 0).reverse ++ ((t.render margin 1).reverse ++ opened) := by
    simp [framed, opened]
  have hbehind : admitsKeyword ((t.framed margin parameters).reverse ++ before) = true := by
    rw [hframed]
    exact ((t.atIndent_render 1 hopened).indented (hmargin 0)).admitsKeyword
  have hcount : (1 : Int) + t.doubled - 1 = t.doubled := by omega
  calc closingEnd? 0 before (t.framed margin parameters ++ ("end".toList ++ rest))
      = closingEnd? 1 opened (t.render margin 1 ++ (margin 0 ++ ("end".toList ++ rest))) := by
        rw [framed, List.append_assoc, List.append_assoc, List.cons_append,
          closingEnd?_opens hdo parameters hbefore (by rfl), closingEnd?_lineBreak, Int.zero_add,
          List.append_assoc]
    _ = closingEnd? (1 + t.doubled) ((t.framed margin parameters).reverse ++ before)
          ("end".toList ++ rest) := by
        rw [t.closingEnd?_render hmargin (Int.le_refl 1) 1 hopened,
          closingEnd?_indent (hmargin 0), hframed]
    _ = _ := by
        rw [closingEnd?_keyword hend hbehind hrest, hcount]
        refine if_congr ?_ rfl rfl
        omega

/-- The search finds the `end` of a block around a tree if and only if none of the loops in the
tree has a trailing `do`. -/
theorem stop?_framed_eq_iff (t : Tree) (parameters : Quiet) {before rest : Text}
    (hbefore : admitsKeyword before = true) (hrest : endsKeyword rest = true) :
    stop? ⟨before, t.framed margin parameters ++ ("end".toList ++ rest)⟩ =
      some (before.length + (t.framed margin parameters).length) ↔ t.doubled = 0 := by
  rw [stop?, t.closingEnd?_framed hmargin parameters hbefore hrest]
  constructor
  · intro hfound
    by_contra hdoubled
    rw [if_neg hdoubled] at hfound
    obtain ⟨c, hc, hoffset⟩ := Option.map_eq_some_iff.mp hfound
    have hfurther := length_le_offset_closingEnd? hc
    simp only [List.length_append, List.length_reverse] at hfurther
    have hword : "end".toList.length = 3 := rfl
    omega
  · intro hdoubled
    rw [if_pos hdoubled, Option.map_some]
    simp [Cursor.offset, Nat.add_comm]

end Rendered

/-- A loop behind its statement, and a condition with a block of its own. -/
def sample : Tree :=
  .modified ⟨⟨"x".toList, by decide, by decide⟩, "while".toList, by decide,
      by decide, ⟨"c".toList, by decide, by decide⟩⟩
    (.block (.keyword "if".toList (.inr (by decide)) ⟨"c".toList, by decide, by decide⟩)
      (.line ⟨"x".toList, by decide, by decide⟩ .done) .done)

/-- The modifier is not counted, and the condition has its own `end`. -/
theorem stop?_framed_eq_iff_sample :
    let margin := fun level => List.replicate (2 * level) ' '
    let parameters : Quiet := ⟨"|y|".toList, by decide, by decide⟩
    String.ofList (sample.framed margin parameters) =
      "do |y|\n  x while c\n  if c\n    x\n  end\n" ∧
    (∀ level, ∀ c ∈ margin level, CharClass.isSpaceOrTab c = true) ∧
    admitsKeyword "(".toList = true ∧ endsKeyword ")".toList = true ∧
    stop? ⟨"(".toList, sample.framed margin parameters ++ ("end".toList ++ ")".toList)⟩ =
      some (1 + (sample.framed margin parameters).length) := by
  intro margin parameters
  have hmargin : ∀ level, ∀ c ∈ margin level, CharClass.isSpaceOrTab c = true := by
    intro level c hc
    rw [List.eq_of_mem_replicate hc]
    decide
  have hbefore : admitsKeyword "(".toList = true := by decide
  have hrest : endsKeyword ")".toList = true := by decide
  exact ⟨rfl, hmargin, hbefore, hrest,
    (stop?_framed_eq_iff hmargin sample parameters hbefore hrest).mpr rfl⟩

/-- A loop with a trailing `do` is counted twice and takes the `end` of the block around it. -/
theorem stop?_trailing_do :
    stop? (Cursor.start "do\n  while c do\n    x\n  end\nend\n".toList) = none := by
  decide

end Tree

end Block

end FactoryDowngrade
