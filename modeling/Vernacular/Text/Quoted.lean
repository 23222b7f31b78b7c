import Vernacular.Text.Printable

set_option autoImplicit false

namespace Vernacular.Text

def hexadecimal (width n : Nat) : String :=
  let digits := Nat.toDigits 16 n
  String.ofList (List.replicate (width - digits.length) '0' ++ digits)

/-- A character inside quotes: the quote, the backslash and the usual control characters have
escapes of two characters, a printable character stands for itself, and any other is written by its
code point in two, four or eight digits. -/
def escapedChar (c : Char) : String :=
  if c = '"' then "\\\""
  else if c = '\\' then "\\\\"
  else if isPrintable c then c.toString
  else if c = '\n' then "\\n"
  else if c = '\r' then "\\r"
  else if c = '\t' then "\\t"
  else if c.toNat = 0x07 then "\\a"
  else if c.toNat = 0x08 then "\\b"
  else if c.toNat = 0x0b then "\\v"
  else if c.toNat = 0x0c then "\\f"
  else if c.toNat < 0x80 then "\\x" ++ hexadecimal 2 c.toNat
  else if c.toNat < 0x10000 then "\\u" ++ hexadecimal 4 c.toNat
  else "\\U" ++ hexadecimal 8 c.toNat

def quoted (s : String) : String :=
  "\"" ++ String.join (s.toList.map escapedChar) ++ "\""

end Vernacular.Text
