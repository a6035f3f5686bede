import Mos6502.Text.Invisible

/-!
# Quoted text

A name quoted in a log record stands between double quotes. Quotes, backslashes and the usual
control characters get a backslash; every other character without a glyph of its own is written as
its code point.
-/

namespace Mos6502.Text

/-- The lower-case hexadecimal digits of `n`, without leading zeros. -/
def codePoint (n : Nat) : List Char := Nat.toDigits 16 n

/-- How one character is written between quotes. -/
def quoteChar (c : Char) : List Char :=
  if c = '"' then ['\\', '"']
  else if c = '\\' then ['\\', '\\']
  else if c = '\n' then ['\\', 'n']
  else if c = '\r' then ['\\', 'r']
  else if c = '\t' then ['\\', 't']
  else if c = '\x00' then ['\\', '0']
  else if isInvisible c then ['\\', 'u', '\x7b'] ++ codePoint c.toNat ++ ['\x7d']
  else [c]

/-- The text between double quotes, with escapes. -/
def quote (s : String) : String :=
  String.ofList ('"' :: s.toList.flatMap quoteChar ++ ['"'])

end Mos6502.Text
