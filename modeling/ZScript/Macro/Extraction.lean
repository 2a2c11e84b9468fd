import ZScript.Event
import ZScript.Macro

/-!
# Taking definitions out of a stream

A definition block starts with a line of its own, has a signature on the next line and a body up
to its end mark. `Extraction.ofLines` goes through a stream once and takes the blocks out: their
macros go into a table, comments outside addon blocks are dropped, and the other lines are left as
they are. A block without a readable signature is dropped with its body, and a block that is still
open at the end of the stream is closed there.
-/

namespace ZScript

/-- Where the reading of a stream stands. -/
inductive ExtractionState
  /-- Outside definition blocks, with the addon block that is open, if any. -/
  | outside (block : Option Addon)
  /-- Behind the start mark of a definition block. -/
  | started (start : Origin)
  /-- In the body of a block. A block with an unreadable signature has none. -/
  | inside (signature : Option (Signature × Origin)) (body : Array String)
deriving DecidableEq, Repr

/-- What the definition blocks of a stream define, and what is left of the stream. -/
structure Extraction where
  table : MacroTable := .empty
  residual : Array Line := #[]
  log : Array Event := #[]
deriving DecidableEq, Repr

namespace Extraction

/-- Notes an event. -/
def note (x : Extraction) (e : Event) : Extraction :=
  { x with log := x.log.push e }

/-- Leaves a line in the stream. -/
def keep (x : Extraction) (line : Line) : Extraction :=
  { x with residual := x.residual.push line }

/-- Files the macro of a block that has a signature. -/
def register (x : Extraction) : Option (Signature × Origin) → Array String → Extraction
  | none, _ => x
  | some (s, origin), body =>
    let m : Macro := ⟨s.name, s.parameters, body.toList, origin⟩
    let noted := x.note (.registeredMacro m.name m.parameters.length body.size)
    let noted := match x.table.find? m.name with
      | none => noted
      | some previous => noted.note (.redefinedMacro previous.name previous.origin)
    { noted with table := x.table.insert m }

/-- Reads one line. -/
def step : ExtractionState × Extraction → Line → ExtractionState × Extraction
  | (.outside block, x), line =>
    match Directive.within block line.text with
    | .definitionStart => (.started line.origin, x)
    | .comment _ => (.outside block, x)
    | .addonEnter a => (.outside (some a), x.keep line)
    | .addonExit _ => (.outside none, x.keep line)
    | _ => (.outside block, x.keep line)
  | (.started start, x), line =>
    if Directive.ofText line.text = .definitionEnd then
      (.outside none, x.note (.unsignedBlock start))
    else
      match Signature.parse? line.text with
      | some s => (.inside (some (s, line.origin)) #[], x)
      | none => (.inside none #[], x.note (.malformedSignature line))
  | (.inside signature body, x), line =>
    if Directive.ofText line.text = .definitionEnd then (.outside none, x.register signature body)
    else if body.isEmpty && line.text == "\x7d" then (.inside signature body, x)
    else (.inside signature (body.push line.text), x)

/-- Closes what is open at the end of the stream. -/
def finish : ExtractionState × Extraction → Extraction
  | (.outside _, x) => x
  | (.started start, x) => x.note (.unsignedBlock start)
  | (.inside none body, x) => x.register none body
  | (.inside (some (s, origin)) body, x) =>
    (x.note (.unclosedBlock s.name origin)).register (some (s, origin)) body

/-- Takes the definition blocks out of a stream. -/
def ofLines (lines : List Line) : Extraction :=
  finish (lines.foldl step (.outside none, {}))

end Extraction

end ZScript
