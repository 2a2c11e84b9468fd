import ZScript.Event
import ZScript.Macro

/-!
# Expanding macro calls

`Expansion.run` replaces calls pass by pass. A pass goes through the stream once and puts, for each
line that calls a macro of the table, the lines that the call stands for; it does not look at the
lines it puts in, but it follows the addon blocks that they open and close. Passes go on until one
finds no call. There may be at most a given number of passes, and no call may make the stream
longer than a given number of lines.
-/

namespace ZScript

/-- The bounds on macro expansion. -/
structure Limits where
  passes : Nat := 64
  lines : Nat := 100000
deriving DecidableEq, Repr

/-- Why an expansion was given up. -/
structure Overflow where
  /-- The macro that is called. -/
  name : String
  /-- The number of passes made, the failing one included. -/
  passes : Nat
  /-- The line limit, if that is what was passed. -/
  lineLimit : Option Nat
  site : Line
deriving DecidableEq, Repr

/-- One pass over a stream, as far as it has come. -/
structure Pass where
  output : Array Line := #[]
  block : Option Addon := none
  /-- The number of calls replaced. -/
  expanded : Nat := 0
  /-- The number of lines put out and lines still to read. -/
  size : Nat
deriving DecidableEq, Repr

namespace Pass

/-- A pass at the start of a stream. -/
def start (lines : List Line) : Pass :=
  { size := lines.length }

/-- Puts out a line as it is. -/
def keep (p : Pass) (line : Line) : Pass :=
  { p with output := p.output.push line, block := Addon.after p.block line.text }

/-- Puts out the lines that a call stands for. -/
def replace (p : Pass) (lines : List Line) : Pass :=
  { output := p.output ++ lines
    block := lines.foldl (fun block line => Addon.after block line.text) p.block
    expanded := p.expanded + 1
    size := p.size - 1 + lines.length }

/-- Goes through the rest of the stream in pass `number`. -/
def run (table : MacroTable) (number maxLines : Nat) : Pass → List Line → Except Overflow Pass
  | p, [] => .ok p
  | p, line :: rest =>
    match table.called? p.block line with
    | none => run table number maxLines (p.keep line) rest
    | some (m, arguments) =>
      let next := p.replace (m.linesAt line arguments)
      if maxLines < next.size then .error ⟨m.name, number, some maxLines, line⟩
      else run table number maxLines next rest

end Pass

/-- The first call in a stream, with the macro it calls. -/
def MacroTable.firstCall? (table : MacroTable) : Option Addon → List Line → Option (Macro × Line)
  | _, [] => none
  | block, line :: rest =>
    match table.called? block line with
    | some (m, _) => some (m, line)
    | none => table.firstCall? (Addon.after block line.text) rest

/-- The outcome of an expansion, with what was noted on the way. -/
structure Expansion where
  result : Except Overflow (List Line)
  log : Array Event := #[]

namespace Expansion

/-- Makes up to `left` more passes. -/
def runPasses (table : MacroTable) (limits : Limits) :
    (left : Nat) → List Line → Array Event → Expansion
  | 0, lines, log =>
    match table.firstCall? none lines with
    | none => ⟨.ok lines, log⟩
    | some (m, site) => ⟨.error ⟨m.name, limits.passes, none, site⟩, log⟩
  | left + 1, lines, log =>
    let number := limits.passes - left
    match Pass.run table number limits.lines (.start lines) lines with
    | .error overflow => ⟨.error overflow, log⟩
    | .ok p =>
      if p.expanded = 0 then ⟨.ok p.output.toList, log.push (.settledExpansion (number - 1))⟩
      else
        runPasses table limits left p.output.toList
          (log.push (.expandedCalls number p.expanded p.output.size))

/-- Expands the calls of a stream. An empty table leaves the stream as it is. -/
def run (table : MacroTable) (limits : Limits) (lines : List Line) : Expansion :=
  if table.entries.isEmpty then ⟨.ok lines, #[]⟩
  else runPasses table limits limits.passes lines #[]

end Expansion

/-- The stream with all its calls expanded. -/
def expand (table : MacroTable) (limits : Limits) (lines : List Line) : Except Overflow (List Line) :=
  (Expansion.run table limits lines).result

end ZScript
