import RibMap.Reference.Text.Printable

/-! # Quoted texts in messages

A message quotes a text between double quotes. Quotes, backslashes, tabs, line ends and the zero
character have short escapes; every other character that is not printable is shown by number.
-/

namespace RibMap

/-- The escape of a code point: its hexadecimal number between braces. -/
def numberEscape (n : Nat) : String :=
  "\\u\x7b" ++ String.ofList (Nat.toDigits 16 n) ++ "\x7d"

/-- A character as it stands between quotes. -/
def quotedChar (c : Char) : String :=
  if c.toNat = 0 then "\\0"
  else if c = '\t' then "\\t"
  else if c = '\r' then "\\r"
  else if c = '\n' then "\\n"
  else if c = '"' then "\\\""
  else if c = '\\' then "\\\\"
  else if isPrintable c then c.toString
  else numberEscape c.toNat

def quoted (text : String) : String :=
  "\"" ++ String.join (text.toList.map quotedChar) ++ "\""

end RibMap
