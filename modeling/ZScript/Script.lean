import ZScript.Directive.JavaScript
import ZScript.Directive.Rules
import ZScript.Event

/-!
# Scripts and their code

A script is a stream of lines read as directives, each in the addon block that the lines before it
leave open. Its code has one line for every line of the script that is not the mark of a block. A
line that gives no code is written as a comment, or, under the strict policy, makes the compilation
fail.
-/

namespace ZScript

/-- What to do with a line that gives no code. -/
inductive Policy
  | strict
  | lenient
deriving DecidableEq, Repr

/-- A line that gives no code. -/
structure Unrecognized where
  line : Line
  /-- The number of the line in the script, from 1. -/
  position : Nat
  kind : Kind
deriving DecidableEq, Repr

namespace Directive

/-- Whether a directive is the mark of an addon block. -/
def isMark : Directive → Bool
  | addonEnter _ | addonExit _ => true
  | _ => false

/-- Whether a directive ought to give code and does not. -/
def lacksCode (d : Directive) : Bool :=
  !d.isMark && d.toJavaScript?.isNone

end Directive

/-- A stream of lines with what they say, and the addon block that they leave open. -/
structure Script where
  lines : Array (Line × Directive) := #[]
  block : Option Addon := none
deriving DecidableEq, Repr

namespace Script

/-- The script with one more line. -/
def push (s : Script) (line : Line) : Script :=
  let d := Directive.within s.block line.text
  { lines := s.lines.push (line, d), block := d.blockAfter s.block }

/-- The script that a stream of lines is. -/
def ofLines (lines : List Line) : Script :=
  lines.foldl push {}

/-- The code for a line. The mark of a block has none. -/
def codeLine? (line : Line) (d : Directive) : Option String :=
  if d.isMark then none else some (d.toJavaScript?.getD ("// error: " ++ line.text))

/-- The lines of the code. -/
def codeLines (s : Script) : List String :=
  s.lines.toList.filterMap fun p => codeLine? p.1 p.2

/-- The code, ended by a line feed unless it is empty. -/
def code (s : Script) : String :=
  let text := "\n".intercalate s.codeLines
  if text.isEmpty then text else text ++ "\n"

/-- The lines that give no code and are no marks, in order. -/
def unrecognized (s : Script) : List Unrecognized :=
  (s.lines.toList.zipIdx 1).filterMap fun p =>
    if p.1.2.lacksCode then some ⟨p.1.1, p.2, p.1.2.kind⟩ else none

/-- The code, or under the strict policy the first line that gives none. -/
def compile (policy : Policy) (s : Script) : Except Unrecognized String :=
  match policy, s.unrecognized with
  | .strict, u :: _ => .error u
  | _, _ => .ok s.code

/-- What a compilation notes. One that fails notes nothing. -/
def log (policy : Policy) (s : Script) : List Event :=
  match policy, s.unrecognized with
  | .strict, _ :: _ => []
  | _, us => us.map (fun u => .commentedLine u.line u.kind) ++ s.block.toList.map .addonStillOpen

end Script

/-- The code for a stream of lines. -/
def compile (policy : Policy) (lines : List Line) : Except Unrecognized String :=
  (Script.ofLines lines).compile policy

/-- The code inside a function that is called at once, labelled with the entry unit. -/
def wrapInClosure (entry code : String) : String :=
  "(function() \x7b // " ++ entry ++ "\n" ++ code ++ "\x7d)(); // " ++ entry ++ "\n"

end ZScript
