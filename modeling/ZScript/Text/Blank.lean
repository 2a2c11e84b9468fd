/-!
# Blank characters and trimming

A character is blank if it has the Unicode property `White_Space`. Texts are trimmed of blank
characters at both ends, and the depth of a text is the number of blank characters it starts
with. The functions work on character lists; `trim` on strings goes through them.
-/

namespace ZScript

/-- The characters with the Unicode property `White_Space`. -/
def isBlank (c : Char) : Bool :=
  let n := c.toNat
  (0x09 ≤ n && n ≤ 0x0D) || n == 0x20 || n == 0x85 || n == 0xA0 || n == 0x1680 ||
    (0x2000 ≤ n && n ≤ 0x200A) || n == 0x2028 || n == 0x2029 || n == 0x202F || n == 0x205F ||
    n == 0x3000

/-- The blanks that may stand between the parts of a line: a space or a tab. -/
def isGap (c : Char) : Bool :=
  c == ' ' || c == '\t'

namespace Chars

/-- The characters from the first one that is not blank. -/
def trimStart (s : List Char) : List Char :=
  s.dropWhile isBlank

/-- The characters up to the last one that is not blank. -/
def trimEnd (s : List Char) : List Char :=
  (s.reverse.dropWhile isBlank).reverse

/-- The characters between the first and the last one that is not blank. -/
def trim (s : List Char) : List Char :=
  trimEnd (trimStart s)

/-- The number of blank characters at the start. -/
def depth (s : List Char) : Nat :=
  (s.takeWhile isBlank).length

end Chars

/-- The text without the blank characters at its two ends. -/
def trim (s : String) : String :=
  String.ofList (Chars.trim s.toList)

end ZScript
