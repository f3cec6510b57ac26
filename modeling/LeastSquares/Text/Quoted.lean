/-
LeastSquares.Text.Quoted — a text between double quotes, safe to show.

Quotes and backslashes get a backslash; the four controls that have a letter of their own are
written by it; every other character that does not show by itself, and every one that would
join the character before it, is written by its code point in hexadecimal, in braces. The rest
stands as it is, whatever its script.
-/
import LeastSquares.Text.Extending
import LeastSquares.Text.Unprintable

namespace LeastSquares.Text

/-- The code point in lower case hexadecimal, without leading zeros, in braces after `\u`. -/
def escapedCodePoint (c : Char) : String :=
  "\\u\x7b" ++ String.ofList (Nat.toDigits 16 c.toNat) ++ "\x7d"

/-- One character as it appears between the quotes. -/
def shown (c : Char) : String :=
  if c == '"' then "\\\""
  else if c == '\\' then "\\\\"
  else if c == '\t' then "\\t"
  else if c == '\n' then "\\n"
  else if c == '\r' then "\\r"
  else if c == '\x00' then "\\0"
  else if isExtending c || isUnprintable c then escapedCodePoint c
  else String.singleton c

/-- The text between double quotes. -/
def quoted (s : String) : String :=
  "\"" ++ String.join (s.toList.map shown) ++ "\""

end LeastSquares.Text
