import ZScript.Text.Lines

/-!
# Lines and their origins

A unit is read as a list of lines: the physical lines of its text, trimmed, without the blank
ones. A line remembers where it stands in its unit, and keeps that origin when a macro call
replaces it by other lines. `Line.ofUnit` reads a unit, and `Line.join` writes lines as a text.
-/

namespace ZScript

/-- A place in a unit: the number of a physical line and of a character in it, both from 1. -/
structure Origin where
  unit : String
  line : Nat
  column : Nat
deriving DecidableEq, Repr

/-- The written form `unit:line:column`. -/
def Origin.render (o : Origin) : String :=
  o.unit ++ ":" ++ toString o.line ++ ":" ++ toString o.column

/-- One line of a script. -/
structure Line where
  text : String
  origin : Origin
  /-- The macro whose body the line was instantiated from. -/
  expandedFrom : Option String := none
deriving DecidableEq, Repr

namespace Line

/-- The line with another text at the same place. -/
def withText (l : Line) (text : String) : Line :=
  { l with text := text }

/-- A line that the call `l` of a macro stands for, at the place of the call. -/
def instantiated (l : Line) (name text : String) : Line :=
  { l with text := text, expandedFrom := some name }

/-- The line that physical line `n` of a unit holds, unless it is blank. -/
def ofPhysical? (unit : String) (n : Nat) (raw : List Char) : Option Line :=
  let text := Chars.trim raw
  if text.isEmpty then none
  else some { text := String.ofList text, origin := ⟨unit, n, Chars.depth raw + 1⟩ }

/-- The lines of a unit, in order. -/
def ofUnit (unit text : String) : List Line :=
  ((Chars.physicalLines text.toList).zipIdx 1).filterMap fun p => ofPhysical? unit p.2 p.1

/-- The texts of the lines, each ended by a line feed. -/
def join (lines : List Line) : String :=
  String.join (lines.map (·.text ++ "\n"))

end Line

end ZScript
