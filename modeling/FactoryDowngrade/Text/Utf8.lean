import FactoryDowngrade.Text.CharClass

/-!
# UTF-8

Bytes are decoded one character at a time. What no character begins with, or what breaks off
inside a character, is a fault with its place and extent; a lenient reading puts the replacement
character there and goes on behind it.
-/

namespace FactoryDowngrade

/-- A sequence of bytes. -/
abbrev Bytes := List UInt8

/-- Why bytes are not UTF-8. -/
inductive Utf8Cause where
  | invalidStart
  | invalidContinuation
  | unexpectedEnd
deriving DecidableEq, Repr

/-- A fault in a byte sequence: its first byte, the number of bytes it takes, and its first
position. -/
structure Utf8Fault where
  cause : Utf8Cause
  byte : UInt8
  length : Nat
  position : Nat
deriving DecidableEq, Repr

namespace Utf8

/-- The bytes of a character. -/
def encodeChar (c : Char) : Bytes :=
  let n := c.toNat
  let byte (k : Nat) : UInt8 := UInt8.ofNat k
  if n < 0x80 then [byte n]
  else if n < 0x800 then [byte (0xC0 + n / 64), byte (0x80 + n % 64)]
  else if n < 0x10000 then
    [byte (0xE0 + n / 4096), byte (0x80 + n / 64 % 64), byte (0x80 + n % 64)]
  else
    [byte (0xF0 + n / 262144), byte (0x80 + n / 4096 % 64), byte (0x80 + n / 64 % 64),
      byte (0x80 + n % 64)]

/-- The bytes of a text. -/
def encode (text : Text) : Bytes :=
  text.flatMap encodeChar

/-- What a first byte announces: how many bytes follow, the value of its own bits, and the range of
the second byte. -/
def lead? (b : UInt8) : Option (Nat × Nat × Nat × Nat) :=
  let n := b.toNat
  if n < 0x80 then some (0, n, 0, 0)
  else if 0xC2 ≤ n && n ≤ 0xDF then some (1, n - 0xC0, 0x80, 0xBF)
  else if n = 0xE0 then some (2, 0, 0xA0, 0xBF)
  else if n = 0xED then some (2, 0xD, 0x80, 0x9F)
  else if 0xE1 ≤ n && n ≤ 0xEF then some (2, n - 0xE0, 0x80, 0xBF)
  else if n = 0xF0 then some (3, 0, 0x90, 0xBF)
  else if 0xF1 ≤ n && n ≤ 0xF3 then some (3, n - 0xF0, 0x80, 0xBF)
  else if n = 0xF4 then some (3, 4, 0x80, 0x8F)
  else none

/-- Reads the bytes that follow a first one: the value they complete, or the cause of a fault with
the number of bytes that were good. -/
def follow : Nat → Nat → Nat → Nat → Nat → Bytes → Except (Utf8Cause × Nat) (Nat × Bytes)
  | 0, value, _, _, _, rest => .ok (value, rest)
  | _ + 1, _, good, _, _, [] => .error (.unexpectedEnd, good)
  | count + 1, value, good, low, high, b :: rest =>
    if low ≤ b.toNat && b.toNat ≤ high then
      follow count (value * 64 + b.toNat % 64) (good + 1) 0x80 0xBF rest
    else .error (.invalidContinuation, good)

/-- Reads one character, or finds the cause of a fault and the number of bytes it takes. -/
def next (b : UInt8) (rest : Bytes) : Except (Utf8Cause × Nat) (Char × Bytes) :=
  match lead? b with
  | none => .error (.invalidStart, 1)
  | some (count, value, low, high) =>
    match follow count value 1 low high rest with
    | .ok (n, rest) => .ok (Char.ofNat n, rest)
    | .error fault => .error fault

/-- Reading the bytes that follow leaves no more bytes. -/
theorem length_of_follow {count value good low high : Nat} {bytes rest : Bytes} {n : Nat}
    (h : follow count value good low high bytes = .ok (n, rest)) :
    rest.length ≤ bytes.length := by
  induction count generalizing value good low high bytes with
  | zero => simp only [follow, Except.ok.injEq, Prod.mk.injEq] at h; simp [h.2]
  | succ count ih =>
    cases bytes with
    | nil => simp [follow] at h
    | cons b bytes =>
      rw [follow] at h
      split at h
      · exact Nat.le_succ_of_le (ih h)
      · simp at h

/-- Reading a character leaves no more bytes than stand behind its first one. -/
theorem length_of_next {b : UInt8} {bytes rest : Bytes} {c : Char}
    (h : next b bytes = .ok (c, rest)) : rest.length ≤ bytes.length := by
  unfold next at h
  split at h
  · simp at h
  · split at h
    · rename_i hf
      simp only [Except.ok.injEq, Prod.mk.injEq] at h
      exact h.2 ▸ length_of_follow hf
    · simp at h

/-- The characters of some bytes that begin at a position. -/
def decodeFrom (position : Nat) (bytes : Bytes) : Except Utf8Fault Text :=
  match bytes with
  | [] => .ok []
  | b :: rest =>
    match _ : next b rest with
    | .ok (c, more) =>
      match decodeFrom (position + (rest.length + 1 - more.length)) more with
      | .ok text => .ok (c :: text)
      | .error fault => .error fault
    | .error (cause, length) => .error ⟨cause, b, length, position⟩
termination_by bytes.length
decreasing_by exact Nat.lt_succ_of_le (length_of_next (by assumption))

/-- The characters of some bytes, if they are UTF-8 throughout. -/
def decode (bytes : Bytes) : Except Utf8Fault Text :=
  decodeFrom 0 bytes

/-- The characters of some bytes, with the replacement character in place of each fault. -/
def decodeLenient (bytes : Bytes) : Text :=
  match bytes with
  | [] => []
  | b :: rest =>
    match _ : next b rest with
    | .ok (c, more) => c :: decodeLenient more
    | .error (_, length) => Char.ofNat 0xFFFD :: decodeLenient (rest.drop (length - 1))
termination_by bytes.length
decreasing_by
  · exact Nat.lt_succ_of_le (length_of_next (by assumption))
  · exact Nat.lt_succ_of_le (by rw [List.length_drop]; omega)

end Utf8

namespace Utf8Fault

/-- The wording of a cause. -/
def causeText : Utf8Cause → String
  | .invalidStart => "invalid start byte"
  | .invalidContinuation => "invalid continuation byte"
  | .unexpectedEnd => "unexpected end of data"

/-- The wording of a fault. -/
def message (f : Utf8Fault) : String :=
  let place :=
    if f.length = 1 then
      let code := String.ofList ("0x".toList ++ Nat.toDigits 16 f.byte.toNat)
      s!"byte {code} in position {f.position}"
    else
      let last := f.position + f.length - 1
      s!"bytes in position {f.position}-{last}"
  s!"'utf-8' codec can't decode {place}: {causeText f.cause}"

end Utf8Fault

end FactoryDowngrade
