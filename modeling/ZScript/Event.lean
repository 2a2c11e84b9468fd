import ZScript.Line
import ZScript.Directive
import ZScript.Text.Quoted

/-!
# Events

What the stages have to tell while they work. An event holds the facts; `Event.render` writes it
as one line of a log, with its level, its message and its fields.
-/

namespace ZScript

/-- How much an event matters, the gravest first. -/
inductive Level
  | error
  | warn
  | info
  | debug
deriving DecidableEq, Repr

namespace Level

/-- The name of a level in a log. -/
def label : Level → String
  | error => "ERROR"
  | warn => "WARN"
  | info => "INFO"
  | debug => "DEBUG"

/-- The place of a level, the gravest first. -/
def rank : Level → Nat
  | error => 1
  | warn => 2
  | info => 3
  | debug => 4

end Level

/-- Something that a stage has to tell. -/
inductive Event
  /-- A unit is read, below the units of the active import path. -/
  | bundlingUnit (unit : String) (path : List String)
  | reusingUnit (unit : String)
  | bundledEntry (entry : String) (lines : Nat)
  /-- A definition block ends right after its start mark. -/
  | unsignedBlock (start : Origin)
  | malformedSignature (line : Line)
  | unclosedBlock (name : String) (signature : Origin)
  | registeredMacro (name : String) (parameters lines : Nat)
  | redefinedMacro (name : String) (previous : Origin)
  | collectedMacros (count : Nat)
  | expandedCalls (pass calls lines : Nat)
  | settledExpansion (passes : Nat)
  | addonStillOpen (addon : Addon)
  | commentedLine (line : Line) (kind : Kind)
  | compiledProject (entry : String) (lines bytes : Nat)
  | loadedProject (dir : String) (units : Nat)
  | wroteOutput (entry output : String)
  | ignoredError (error : String)
  | unwritableOutput (error : String)
  | watchingDirectory (dir : String)
  | stoppedWatching (error : String)
deriving DecidableEq, Repr

namespace Event

/-- The level at which an event is logged. -/
def level : Event → Level
  | unsignedBlock _ | malformedSignature _ | unclosedBlock _ _ | commentedLine _ _ => .warn
  | wroteOutput _ _ | watchingDirectory _ => .info
  | unwritableOutput _ | stoppedWatching _ => .error
  | _ => .debug

/-- The message of an event. -/
def message : Event → String
  | bundlingUnit _ _ => "bundling unit"
  | reusingUnit _ => "reusing bundled unit"
  | bundledEntry _ _ => "bundled entry unit"
  | unsignedBlock _ => "dropping macro block without a signature"
  | malformedSignature _ => "malformed macro signature, dropping block"
  | unclosedBlock _ _ => "macro block is not terminated, closing it at end of input"
  | registeredMacro _ _ _ => "registered macro"
  | redefinedMacro _ _ => "macro redefined, later definition wins"
  | collectedMacros _ => "collected macros"
  | expandedCalls _ _ _ => "expanded macro calls"
  | settledExpansion _ => "macro expansion settled"
  | addonStillOpen _ => "addon block still open at end of input"
  | commentedLine _ _ => "emitting unrecognized line as a comment"
  | compiledProject _ _ _ => "compiled project"
  | loadedProject _ _ => "loaded project"
  | wroteOutput _ _ => "wrote compiled output"
  | ignoredError _ => "ignoring expansion error"
  | unwritableOutput _ => "couldn't write output"
  | watchingDirectory _ => "watching for changes"
  | stoppedWatching _ => "watching stopped"

/-- The fields of an event, by name and written value. -/
def fields : Event → List (String × String)
  | bundlingUnit unit path => [("unit", unit), ("depth", toString path.length)]
  | reusingUnit unit => [("unit", unit)]
  | bundledEntry entry lines => [("entry", entry), ("lines", toString lines)]
  | unsignedBlock start => [("at", start.render)]
  | malformedSignature line => [("at", line.origin.render), ("line", quoted line.text)]
  | unclosedBlock name signature => [("name", name), ("at", signature.render)]
  | registeredMacro name parameters lines =>
    [("name", name), ("parameters", toString parameters), ("lines", toString lines)]
  | redefinedMacro name previous => [("name", quoted name), ("previous", previous.render)]
  | collectedMacros count => [("macros", toString count)]
  | expandedCalls pass calls lines =>
    [("pass", toString pass), ("expanded", toString calls), ("lines", toString lines)]
  | settledExpansion passes => [("passes", toString passes)]
  | addonStillOpen .js => [("kind", "Js")]
  | addonStillOpen .html => [("kind", "Html")]
  | commentedLine line kind =>
    [("at", line.origin.render), ("kind", kind.label), ("line", quoted line.text)]
  | compiledProject entry lines bytes =>
    [("entry", entry), ("lines", toString lines), ("bytes", toString bytes)]
  | loadedProject dir units => [("dir", dir), ("units", toString units)]
  | wroteOutput entry output => [("entry", entry), ("output", output)]
  | ignoredError error | unwritableOutput error | stoppedWatching error => [("error", error)]
  | watchingDirectory dir => [("dir", dir)]

/-- The event as a line of a log. -/
def render (e : Event) : String :=
  e.level.label ++ " " ++ e.message ++ String.join (e.fields.map fun f => " " ++ f.1 ++ "=" ++ f.2)

end Event

end ZScript
