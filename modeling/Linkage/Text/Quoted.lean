import Linkage.Text.Printable

/-!
# Quoted text

A text between double quotes. The quote and the backslash are written after a backslash, the four
common control characters have short forms, and every other character that would not show is
written by its code point.
-/

namespace Linkage.Text

/-- The code point in braces, in lower-case hexadecimal. -/
def codePoint (c : Char) : List Char :=
  ['\\', 'u', '\x7b'] ++ Nat.toDigits 16 c.toNat ++ ['\x7d']

def escape (c : Char) : List Char :=
  if c = Char.ofNat 0 then ['\\', '0']
  else if c = '\t' then ['\\', 't']
  else if c = '\r' then ['\\', 'r']
  else if c = '\n' then ['\\', 'n']
  else if c = '"' then ['\\', '"']
  else if c = '\\' then ['\\', '\\']
  else if isPrintable c then [c]
  else codePoint c

def quote (s : String) : String := String.ofList ('"' :: s.toList.flatMap escape ++ ['"'])

end Linkage.Text
