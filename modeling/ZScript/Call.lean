import ZScript.Text.Scan

/-!
# Calls and signatures

A macro call is a line `name(arguments)`, and the line after the start of a macro definition is a
signature `name(parameters)`. Parameters are separated by every comma. Arguments are separated by
the commas that are outside quotes, counted from the end: a comma separates if an even number of
double quotes follows it.
-/

namespace ZScript

namespace Chars

/-- The name of a call-shaped line and the text between its parentheses. -/
def callParts? (s : List Char) : Option (String × List Char) := do
  let (name, s) ← identifier? s
  let s ← after? "(" (s.dropWhile isGap)
  let arguments ← before? ")" s
  return (name, arguments)

/-- Puts one character in front of argument pieces that were cut so far; the flag says whether an
even number of quotes follows it. -/
def cutBefore (c : Char) : Bool × List (List Char) → Bool × List (List Char)
  | (even, pieces) =>
    if c == ',' && even then (even, [] :: pieces)
    else ((if c == '"' then !even else even), pieces.modifyHead (c :: ·))

/-- The pieces between the commas that an even number of double quotes follows. -/
def cutArguments (s : List Char) : List (List Char) :=
  (s.foldr cutBefore (true, [[]])).2

end Chars

/-- The arguments in the text between the parentheses of a call. Blank text has none. -/
def splitArguments (text : String) : List String :=
  if (Chars.trim text.toList).isEmpty then []
  else (Chars.cutArguments text.toList).map fun piece => String.ofList (Chars.trim piece)

/-- A macro call. -/
structure Call where
  name : String
  arguments : List String
deriving DecidableEq, Repr

/-- The call that a line is, if it has the shape of one. -/
def Call.parse? (line : String) : Option Call :=
  (Chars.callParts? line.toList).map fun p => ⟨p.1, splitArguments (String.ofList p.2)⟩

/-- The head of a macro definition. -/
structure Signature where
  name : String
  parameters : List String
deriving DecidableEq, Repr

namespace Signature

/-- The parameters in the text between the parentheses: split at commas, without the blank ones. -/
def parametersOf (text : List Char) : List String :=
  ((text.splitOn ',').map Chars.trim).filter (!·.isEmpty) |>.map String.ofList

/-- The signature that a line is. The parameters hold no parenthesis, and an opening brace may
follow them. -/
def parse? (line : String) : Option Signature := do
  let (name, s) ← Chars.identifier? line.toList
  let s ← Chars.after? "(" (s.dropWhile isGap)
  let isParameter := fun c => c != '(' && c != ')'
  let rest ← Chars.after? ")" (s.dropWhile isParameter)
  let rest := rest.dropWhile isGap
  if rest == [] || rest == ['\x7b'] then
    return ⟨name, parametersOf (s.takeWhile isParameter)⟩
  else none

end Signature

end ZScript
