import FactoryDowngrade.Text.CharClass

/-!
# Quoted texts

Two ways to write a text so that its limits and special characters show. A literal stands between
quotes, with escapes for what has no visible form; single quotes are used unless the text holds a
single quote and no double one. A shell word is left bare if all its characters are harmless, and
otherwise stands between single quotes.
-/

namespace FactoryDowngrade

namespace Quoted

/-- A number in lower-case hexadecimal digits, padded with zeros to a width. -/
def hex (width n : Nat) : List Char :=
  let digits := Nat.toDigits 16 n
  List.replicate (width - digits.length) '0' ++ digits

/-- The written form of one character between the given quotes. -/
def escape (quote c : Char) : List Char :=
  let n := c.toNat
  if c = '\\' || c = quote then ['\\', c]
  else if c = '\n' then ['\\', 'n']
  else if c = '\r' then ['\\', 'r']
  else if c = '\t' then ['\\', 't']
  else if CharClass.isVisible c then [c]
  else if n < 0x100 then '\\' :: 'x' :: hex 2 n
  else if n < 0x10000 then '\\' :: 'u' :: hex 4 n
  else '\\' :: 'U' :: hex 8 n

/-- The quote that a literal uses. -/
def quoteFor (text : Text) : Char :=
  if text.contains '\'' && !text.contains '"' then '"' else '\''

/-- The literal of a text. -/
def literal (text : Text) : Text :=
  let quote := quoteFor text
  quote :: (text.flatMap (escape quote) ++ [quote])

/-- Characters that a shell word may hold without quotes. -/
def isShellSafe (c : Char) : Bool :=
  c.isAlphanum || "_@%+=:,./-".toList.contains c

/-- A text as one word of a shell command. A single quote inside is written between double quotes,
outside the single ones. -/
def shellWord (text : Text) : Text :=
  if !text.isEmpty && text.all isShellSafe then text
  else '\'' :: (text.flatMap (fun c => if c = '\'' then "'\"'\"'".toList else [c]) ++ ['\''])

end Quoted

end FactoryDowngrade
