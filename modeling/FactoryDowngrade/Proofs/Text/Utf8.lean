import FactoryDowngrade.Text.Utf8
import Mathlib.Tactic.SplitIfs

/-!
# Decoding loses nothing

Every character has one spelling that is read: overlong ones, surrogates and numbers beyond the last
character are faults. So bytes that are read as a text are the bytes of that text, and the bytes of
every text are read.
-/

namespace FactoryDowngrade

namespace Utf8

/-- A byte that follows a first one, with the bytes behind it. -/
theorem follow_succ_eq_ok {count value good low high n : Nat} {bytes more : Bytes}
    (h : follow (count + 1) value good low high bytes = .ok (n, more)) :
    ∃ b rest, bytes = b :: rest ∧ low ≤ b.toNat ∧ b.toNat ≤ high ∧
      follow count (value * 64 + b.toNat % 64) (good + 1) 0x80 0xBF rest = .ok (n, more) := by
  cases bytes with
  | nil => cases h
  | cons b rest =>
    rw [follow] at h
    split at h
    · rename_i hrange
      have hbounds : low ≤ b.toNat ∧ b.toNat ≤ high := by simpa using hrange
      exact ⟨b, rest, rfl, hbounds.1, hbounds.2, h⟩
    · cases h

/-- Where no byte has to follow, none is read. -/
theorem follow_zero_eq_ok {value good low high n : Nat} {bytes more : Bytes}
    (h : follow 0 value good low high bytes = .ok (n, more)) : value = n ∧ bytes = more := by
  simpa [follow] using h

/-- The bytes of the character with a number. -/
theorem encodeChar_ofNat {n : Nat} (h : n.isValidChar) : encodeChar (Char.ofNat n) =
    if n < 0x80 then [UInt8.ofNat n]
    else if n < 0x800 then [UInt8.ofNat (0xC0 + n / 64), UInt8.ofNat (0x80 + n % 64)]
    else if n < 0x10000 then
      [UInt8.ofNat (0xE0 + n / 4096), UInt8.ofNat (0x80 + n / 64 % 64), UInt8.ofNat (0x80 + n % 64)]
    else
      [UInt8.ofNat (0xF0 + n / 262144), UInt8.ofNat (0x80 + n / 4096 % 64),
        UInt8.ofNat (0x80 + n / 64 % 64), UInt8.ofNat (0x80 + n % 64)] := by
  have hnumber : (Char.ofNat n).toNat = n := by
    rw [Char.ofNat, dif_pos h]
    rfl
  rw [encodeChar, hnumber]

/-- A byte is the one with its value. -/
theorem ofNat_eq {b : UInt8} {n : Nat} (h : n = b.toNat) : UInt8.ofNat n = b := by
  rw [h, UInt8.ofNat_toNat]

section Spellings

variable {first second third fourth : UInt8} {n : Nat}

/-- A small character is one byte. -/
theorem encodeChar_one (hn : n = first.toNat) (hsmall : n < 0x80) :
    encodeChar (Char.ofNat n) = [first] := by
  rw [encodeChar_ofNat (.inl (by omega)), if_pos hsmall, ofNat_eq hn]

/-- Two bytes of the right ranges are the encoding of the character that they stand for. -/
theorem encodeChar_two (hfirst : 0xC2 ≤ first.toNat ∧ first.toNat ≤ 0xDF)
    (hsecond : 0x80 ≤ second.toNat ∧ second.toNat ≤ 0xBF)
    (hn : (first.toNat - 0xC0) * 64 + second.toNat % 64 = n) :
    encodeChar (Char.ofNat n) = [first, second] := by
  rw [encodeChar_ofNat (.inl (by omega)), if_neg (by omega), if_pos (by omega),
    ofNat_eq (show 0xC0 + n / 64 = first.toNat by omega),
    ofNat_eq (show 0x80 + n % 64 = second.toNat by omega)]

/-- So are three, unless two would have done. -/
theorem encodeChar_three (hfirst : 0xE0 ≤ first.toNat ∧ first.toNat ≤ 0xEF)
    (hsecond : 0x80 ≤ second.toNat ∧ second.toNat ≤ 0xBF)
    (hthird : 0x80 ≤ third.toNat ∧ third.toNat ≤ 0xBF)
    (hn : ((first.toNat - 0xE0) * 64 + second.toNat % 64) * 64 + third.toNat % 64 = n)
    (hlong : 0x800 ≤ n) (hvalid : n.isValidChar) :
    encodeChar (Char.ofNat n) = [first, second, third] := by
  rw [encodeChar_ofNat hvalid, if_neg (by omega), if_neg (by omega), if_pos (by omega),
    ofNat_eq (show 0xE0 + n / 4096 = first.toNat by omega),
    ofNat_eq (show 0x80 + n / 64 % 64 = second.toNat by omega),
    ofNat_eq (show 0x80 + n % 64 = third.toNat by omega)]

/-- So are four, unless three would have done. -/
theorem encodeChar_four (hfirst : 0xF0 ≤ first.toNat ∧ first.toNat ≤ 0xF4)
    (hsecond : 0x80 ≤ second.toNat ∧ second.toNat ≤ 0xBF)
    (hthird : 0x80 ≤ third.toNat ∧ third.toNat ≤ 0xBF)
    (hfourth : 0x80 ≤ fourth.toNat ∧ fourth.toNat ≤ 0xBF)
    (hn : (((first.toNat - 0xF0) * 64 + second.toNat % 64) * 64 + third.toNat % 64) * 64 +
      fourth.toNat % 64 = n)
    (hlong : 0x10000 ≤ n) (hlast : n < 0x110000) :
    encodeChar (Char.ofNat n) = [first, second, third, fourth] := by
  rw [encodeChar_ofNat (.inr ⟨by omega, hlast⟩), if_neg (by omega), if_neg (by omega),
    if_neg (by omega), ofNat_eq (show 0xF0 + n / 262144 = first.toNat by omega),
    ofNat_eq (show 0x80 + n / 4096 % 64 = second.toNat by omega),
    ofNat_eq (show 0x80 + n / 64 % 64 = third.toNat by omega),
    ofNat_eq (show 0x80 + n % 64 = fourth.toNat by omega)]

end Spellings

/-- What a first byte announces: it stands alone, or the bytes behind it are such that they can
spell the character in no shorter way. -/
theorem lead?_eq_some {b : UInt8} {count value low high : Nat}
    (h : lead? b = some (count, value, low, high)) :
    (count = 0 ∧ value = b.toNat ∧ b.toNat < 0x80) ∨
    (count = 1 ∧ value = b.toNat - 0xC0 ∧ (0xC2 ≤ b.toNat ∧ b.toNat ≤ 0xDF) ∧
      low = 0x80 ∧ high = 0xBF) ∨
    (count = 2 ∧ value = b.toNat - 0xE0 ∧ (0xE0 ≤ b.toNat ∧ b.toNat ≤ 0xEF) ∧
      0x80 ≤ low ∧ high ≤ 0xBF ∧ (b.toNat = 0xE0 → 0xA0 ≤ low) ∧ (b.toNat = 0xED → high ≤ 0x9F)) ∨
    (count = 3 ∧ value = b.toNat - 0xF0 ∧ (0xF0 ≤ b.toNat ∧ b.toNat ≤ 0xF4) ∧
      0x80 ≤ low ∧ high ≤ 0xBF ∧ (b.toNat = 0xF0 → 0x90 ≤ low) ∧
      (b.toNat = 0xF4 → high ≤ 0x8F)) := by
  unfold lead? at h
  simp only [Bool.and_eq_true, decide_eq_true_eq] at h
  split_ifs at h <;> simp only [Option.some.injEq, Prod.mk.injEq] at h <;> omega

/-- The bytes that are read as a character are its bytes. -/
theorem cons_eq_of_next {b : UInt8} {rest more : Bytes} {c : Char}
    (h : next b rest = .ok (c, more)) : b :: rest = encodeChar c ++ more := by
  unfold next at h
  split at h
  · cases h
  · rename_i count value low high hlead
    split at h
    · rename_i n tail hfollow
      obtain ⟨rfl, rfl⟩ : Char.ofNat n = c ∧ tail = more := by simpa using h
      rcases lead?_eq_some hlead with ⟨rfl, hvalue, hb⟩ | ⟨rfl, hvalue, hb, hlow, hhigh⟩ |
        ⟨rfl, hvalue, hb, hlow, hhigh, hshort, hsurrogate⟩ |
        ⟨rfl, hvalue, hb, hlow, hhigh, hshort, hlast⟩
      · obtain ⟨rfl, rfl⟩ := follow_zero_eq_ok hfollow
        rw [encodeChar_one hvalue (by omega)]
        rfl
      · obtain ⟨second, rest, rfl, hsecond, hsecond', hfollow⟩ := follow_succ_eq_ok hfollow
        obtain ⟨hn, rfl⟩ := follow_zero_eq_ok hfollow
        rw [encodeChar_two hb ⟨by omega, by omega⟩ (hvalue ▸ hn)]
        rfl
      · obtain ⟨second, rest, rfl, hsecond, hsecond', hfollow⟩ := follow_succ_eq_ok hfollow
        obtain ⟨third, rest, rfl, hthird, hthird', hfollow⟩ := follow_succ_eq_ok hfollow
        obtain ⟨hn, rfl⟩ := follow_zero_eq_ok hfollow
        have hvalid : n.isValidChar := by
          unfold Nat.isValidChar
          omega
        rw [encodeChar_three hb ⟨by omega, by omega⟩ ⟨hthird, hthird'⟩ (hvalue ▸ hn) (by omega)
          hvalid]
        rfl
      · obtain ⟨second, rest, rfl, hsecond, hsecond', hfollow⟩ := follow_succ_eq_ok hfollow
        obtain ⟨third, rest, rfl, hthird, hthird', hfollow⟩ := follow_succ_eq_ok hfollow
        obtain ⟨fourth, rest, rfl, hfourth, hfourth', hfollow⟩ := follow_succ_eq_ok hfollow
        obtain ⟨hn, rfl⟩ := follow_zero_eq_ok hfollow
        rw [encodeChar_four hb ⟨by omega, by omega⟩ ⟨hthird, hthird'⟩ ⟨hfourth, hfourth'⟩
          (hvalue ▸ hn) (by omega) (by omega)]
        rfl
    · cases h

/-- What is decoded is encoded to the bytes that it came from. -/
theorem encode_of_decodeFrom {position : Nat} {bytes : Bytes} {text : Text}
    (h : decodeFrom position bytes = .ok text) : encode text = bytes := by
  induction hlength : bytes.length using Nat.strongRecOn generalizing position bytes text with
  | ind length ih =>
    cases bytes with
    | nil =>
      rw [decodeFrom] at h
      cases h
      rfl
    | cons b rest =>
      rw [decodeFrom] at h
      split at h
      · rename_i c more hnext
        split at h
        · rename_i text hmore
          cases h
          have hshorter : more.length < length :=
            hlength ▸ Nat.lt_succ_of_le (length_of_next hnext)
          rw [cons_eq_of_next hnext, ← ih _ hshorter hmore rfl]
          rfl
        · cases h
      · cases h

/-- Bytes that are read as a text are the bytes of that text. -/
theorem encode_of_decode {bytes : Bytes} {text : Text} (h : decode bytes = .ok text) :
    encode text = bytes :=
  encode_of_decodeFrom h

/-! ### Reading what was written -/

/-- What the first byte of a character announces, by the number of bytes behind it. -/
theorem lead?_one : ∀ n < 0x80, lead? (UInt8.ofNat n) = some (0, n, 0, 0) := by
  decide

/-- The first bytes of pairs, with the value that they begin. -/
theorem lead?_two : ∀ q < 0x20, q < 2 ∨
    lead? (UInt8.ofNat (0xC0 + q)) = some (1, q, 0x80, 0xBF) := by
  decide

/-- Those of triples, with the range in which the next byte has to be. -/
theorem lead?_three : ∀ q < 0x10, lead? (UInt8.ofNat (0xE0 + q)) =
    some (2, q, if q = 0 then 0xA0 else 0x80, if q = 0xD then 0x9F else 0xBF) := by
  decide

/-- Those of quadruples. -/
theorem lead?_four : ∀ q < 5, lead? (UInt8.ofNat (0xF0 + q)) =
    some (3, q, if q = 0 then 0x90 else 0x80, if q = 4 then 0x8F else 0xBF) := by
  decide

/-- A byte in its range is read. -/
theorem follow_succ_cons {count value good low high k : Nat} {rest : Bytes} (hlow : low ≤ k)
    (hhigh : k ≤ high) (hbyte : k < 256) :
    follow (count + 1) value good low high (UInt8.ofNat k :: rest) =
      follow count (value * 64 + k % 64) (good + 1) 0x80 0xBF rest := by
  have hk : (UInt8.ofNat k).toNat = k := by
    rw [UInt8.toNat_ofNat']
    omega
  rw [follow, hk, if_pos (by simp [hlow, hhigh])]

/-- A first byte is read with those that have to follow. -/
theorem next_of_follow {b : UInt8} {count value low high n : Nat} {bytes rest : Bytes}
    (hlead : lead? b = some (count, value, low, high))
    (hfollow : follow count value 1 low high bytes = .ok (n, rest)) :
    next b bytes = .ok (Char.ofNat n, rest) := by
  rw [next, hlead]
  simp only [hfollow]

/-- The bytes of a character are read as that character. -/
theorem exists_next_encodeChar (c : Char) (rest : Bytes) :
    ∃ b bytes, encodeChar c = b :: bytes ∧ next b (bytes ++ rest) = .ok (c, rest) := by
  have hvalid : c.toNat < 0xD800 ∨ 0xDFFF < c.toNat ∧ c.toNat < 0x110000 := c.valid
  have hc : Char.ofNat c.toNat = c := Char.ofNat_toNat c
  rw [← hc]
  generalize c.toNat = n at hvalid
  rw [encodeChar_ofNat hvalid]
  by_cases h₁ : n < 0x80
  · rw [if_pos h₁]
    exact ⟨_, [], rfl, next_of_follow (lead?_one n h₁) rfl⟩
  by_cases h₂ : n < 0x800
  · rw [if_neg h₁, if_pos h₂]
    refine ⟨_, _, rfl, next_of_follow ((lead?_two _ (by omega)).resolve_left (by omega)) ?_⟩
    rw [List.singleton_append, follow_succ_cons (by omega) (by omega) (by omega), follow]
    congr 2
    omega
  by_cases h₃ : n < 0x10000
  · rw [if_neg h₁, if_neg h₂, if_pos h₃]
    refine ⟨_, _, rfl, next_of_follow (lead?_three _ (by omega)) ?_⟩
    rw [List.cons_append, List.singleton_append,
      follow_succ_cons (by split <;> omega) (by split <;> omega) (by omega),
      follow_succ_cons (by omega) (by omega) (by omega), follow]
    congr 2
    omega
  · rw [if_neg h₁, if_neg h₂, if_neg h₃]
    refine ⟨_, _, rfl, next_of_follow (lead?_four _ (by omega)) ?_⟩
    rw [List.cons_append, List.cons_append, List.singleton_append,
      follow_succ_cons (by split <;> omega) (by split <;> omega) (by omega),
      follow_succ_cons (by omega) (by omega) (by omega),
      follow_succ_cons (by omega) (by omega) (by omega), follow]
    congr 2
    omega

/-- What is encoded is decoded again, wherever it begins. -/
theorem decodeFrom_encode (position : Nat) (text : Text) :
    decodeFrom position (encode text) = .ok text := by
  induction text generalizing position with
  | nil => rw [encode, List.flatMap_nil, decodeFrom]
  | cons c text ih =>
    obtain ⟨b, bytes, hbytes, hnext⟩ := exists_next_encodeChar c (encode text)
    have hencode : encode (c :: text) = b :: (bytes ++ encode text) := by
      rw [encode, List.flatMap_cons, hbytes, ← encode, List.cons_append]
    rw [hencode, decodeFrom]
    split
    · rename_i read more hread
      rw [hnext] at hread
      cases hread
      rw [ih]
    · rename_i cause length hread
      rw [hnext] at hread
      cases hread

/-- Every text can be read back from its bytes. -/
theorem decode_encode (text : Text) : decode (encode text) = .ok text :=
  decodeFrom_encode 0 text

/-- No two texts have the same bytes. -/
theorem encode_injective : Function.Injective encode := by
  intro text other h
  have hread := congrArg decode h
  rwa [decode_encode, decode_encode, Except.ok.injEq] at hread

/-- Bytes are decoded to a text just when they are its encoding. -/
theorem decode_eq_ok_iff {bytes : Bytes} {text : Text} :
    decode bytes = .ok text ↔ encode text = bytes :=
  ⟨encode_of_decode, fun h => h ▸ decode_encode text⟩

end Utf8

end FactoryDowngrade
