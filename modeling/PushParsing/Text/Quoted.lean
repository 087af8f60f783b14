import PushParsing.Text.Hidden

/-!
# Quoted text

Text on one line between double quotes. The quote, the backslash, NUL, tab and the two line-break
characters have short escapes; every other character that does not show by itself is written by
its code point in lower-case hexadecimal digits.
-/
namespace PushParsing.Text

/-- One character as it stands between the quotes. -/
def escape (c : Char) : List Char :=
  if c = '\x00' then ['\\', '0']
  else if c = '\t' then ['\\', 't']
  else if c = '\r' then ['\\', 'r']
  else if c = '\n' then ['\\', 'n']
  else if c = '\x22' then ['\\', '\x22']
  else if c = '\\' then ['\\', '\\']
  else if inRanges hiddens c.toNat then
    ['\\', 'u', '\x7b'] ++ Nat.toDigits 16 c.toNat ++ ['\x7d']
  else [c]

/-- A text between double quotes. -/
def quote (s : String) : String :=
  String.ofList ('\x22' :: s.toList.flatMap escape ++ ['\x22'])

end PushParsing.Text
