import ZScript.Line
import ZScript.Text.Quoted

/-!
# Reports

A report tells a user what went wrong: a message, the unit and the place in it, and advice. The
place is shown as the source line with carets under the text in question. Reports are written
plainly or with terminal colours, or, for inspection, as the record they are.
-/

namespace ZScript

/-- A remark on a fault. -/
inductive Advice
  | note (text : String)
  | help (text : String)
deriving DecidableEq, Repr

/-- A stretch of a source line. -/
structure Location where
  line : Nat
  column : Nat
  length : Nat
  /-- The source line, indented so that the stretch starts at its column. -/
  source : String
deriving DecidableEq, Repr

/-- A character again and again. -/
def repeated (c : Char) (n : Nat) : String :=
  String.ofList (List.replicate n c)

/-- The place of a whole line. The first column is 1, and the stretch has at least one
character. -/
def Location.ofLine (l : Line) : Location where
  line := l.origin.line
  column := max l.origin.column 1
  length := max l.text.length 1
  source := repeated ' ' (l.origin.column - 1) ++ l.text

/-- What went wrong, for a user. -/
structure Report where
  unit : Option String := none
  message : String
  location : Option Location := none
  advice : List Advice := []
deriving DecidableEq, Repr

/-- Whether terminal colours are written. -/
inductive Paint
  | plain
  | ansi
deriving DecidableEq, Repr

/-- The text in a style given by its terminal codes. -/
def Paint.apply : Paint → (codes text : String) → String
  | plain, _, text => text
  | ansi, codes, text => "\x1b[" ++ codes ++ "m" ++ text ++ "\x1b[0m"

namespace Report

/-- A headed message, such as `error: text`, with a coloured head. -/
def headed (paint : Paint) (color head text : String) : String :=
  paint.apply "1" (paint.apply color head ++ ": " ++ text)

/-- The line with the unit and the place in it. -/
def placeLine (paint : Paint) (unit : String) (location : Option Location) : String :=
  let place := match location with
    | none => unit
    | some l => unit ++ ":" ++ toString l.line ++ ":" ++ toString l.column
  " " ++ paint.apply "34;1" "-->" ++ " " ++ place

/-- The whole part of the decimal logarithm of a number. -/
def log10 (n : Nat) : Nat :=
  if n < 10 then 0 else log10 (n / 10) + 1

/-- The blank margin, as wide as a line number. -/
def margin (line : Nat) : String :=
  repeated ' ' (log10 (max line 1) + 1)

/-- The source line between an empty line and a line of carets. -/
def sourceLines (paint : Paint) (l : Location) : List String :=
  let bar := " " ++ paint.apply "34;1" "|" ++ " "
  [ margin l.line ++ bar,
    paint.apply "34;1" (toString l.line) ++ bar ++ l.source,
    margin l.line ++ bar ++ repeated ' ' (l.column - 1) ++
      paint.apply "31;1" (repeated '^' l.length) ]

/-- A remark, behind a margin. -/
def adviceLine (paint : Paint) (margin : String) (a : Advice) : String :=
  let remark := match a with
    | .note text => headed paint "34" "note" text
    | .help text => headed paint "34" "help" text
  margin ++ " " ++ paint.apply "34;1" "=" ++ " " ++ remark

/-- The lines of a report. -/
def lines (paint : Paint) (r : Report) : List String :=
  let detail := match r.location with
    | none => r.advice.map (adviceLine paint " ")
    | some l => sourceLines paint l ++ r.advice.map (adviceLine paint (margin l.line))
  headed paint "31" "error" r.message :: r.unit.toList.map (placeLine paint · r.location) ++ detail

/-- A report as it is shown, with an empty line behind it. -/
def render (paint : Paint) (r : Report) : String :=
  String.join (r.lines paint |>.map (· ++ "\n")) ++ "\n"

/-- A remark as a record. -/
def adviceRecord : Advice → String
  | .note text => "Note(" ++ quoted text ++ ")"
  | .help text => "Help(" ++ quoted text ++ ")"

/-- A place as a record. -/
def locationRecord (l : Location) : String :=
  "ErrorLocation \x7b line: " ++ toString l.line ++ ", column: " ++ toString l.column ++
    ", length: " ++ toString l.length ++ ", line_source: " ++ quoted l.source ++ " \x7d"

/-- An optional part of a record. -/
def optionRecord {α : Type} (write : α → String) : Option α → String
  | none => "None"
  | some a => "Some(" ++ write a ++ ")"

/-- A report as the record it is, on one line. -/
def renderRecord (r : Report) : String :=
  "ZlangError \x7b unit: " ++ optionRecord (fun u => "UnitName(" ++ quoted u ++ ")") r.unit ++
    ", message: " ++ quoted r.message ++ ", location: " ++ optionRecord locationRecord r.location ++
    ", context: [" ++ ", ".intercalate (r.advice.map adviceRecord) ++ "] \x7d\n"

end Report

end ZScript
