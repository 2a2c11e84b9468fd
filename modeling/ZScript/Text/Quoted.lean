import ZScript.Text.Hidden

/-!
# Quoted texts

`quoted` writes a text between double quotes on one line. The quote, the backslash and the usual
control characters have a short escape. Other characters that would not show are written by their
number.
-/

namespace ZScript

/-- A character as it stands in a quoted text. -/
def escaped (c : Char) : String :=
  if c == '"' then "\\\""
  else if c == '\\' then "\\\\"
  else if c == '\t' then "\\t"
  else if c == '\n' then "\\n"
  else if c == '\r' then "\\r"
  else if c.toNat == 0 then "\\0"
  else if isHidden c then "\\u\x7b" ++ String.ofList (Nat.toDigits 16 c.toNat) ++ "\x7d"
  else c.toString

/-- The text between double quotes. -/
def quoted (s : String) : String :=
  "\"" ++ String.join (s.toList.map escaped) ++ "\""

end ZScript
