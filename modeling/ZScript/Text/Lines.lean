import ZScript.Text.Scan

/-!
# Physical lines

A text is cut at line feeds. A carriage return directly before a line feed belongs to the line
break, and a line feed at the very end opens no further line.
-/

namespace ZScript.Chars

/-- The line without the carriage return at its end, if there is one. -/
def dropReturn (s : List Char) : List Char :=
  (before? "\r" s).getD s

/-- The physical lines of a text, without their line breaks. -/
def physicalLines (s : List Char) : List (List Char) :=
  let pieces := s.splitOn '\n'
  pieces.dropLast.map dropReturn ++ pieces.getLast?.toList.filter (!·.isEmpty)

end ZScript.Chars
