import ZScript.Bundle
import ZScript.Macro.Expansion
import ZScript.Report
import ZScript.Script

/-!
# Faults

What can go wrong on the way from a project to its code. A fault is the cause; `Fault.message`
tells it on one line with its place, and `Fault.report` explains it to a user.
-/

namespace ZScript

/-- Why a project has no code. -/
inductive Fault
  | imports (fault : ImportFault)
  | expansion (overflow : Overflow)
  | unrecognized (line : Unrecognized)
deriving DecidableEq, Repr

namespace ImportFault

/-- The import line at fault. -/
def site? : ImportFault → Option Line
  | unitNotFound _ site => site
  | importCycle _ site => site

/-- The units of a cycle with arrows between them. -/
def cycleText (cycle : List String) : String :=
  "import cycle: " ++ " -> ".intercalate cycle

/-- The fault in a few words. -/
def summary : ImportFault → String
  | unitNotFound requested (some _) => "unit '" ++ requested ++ "' not found"
  | unitNotFound requested none => "entry unit '" ++ requested ++ "' not found"
  | importCycle (unit :: _) _ => "unit '" ++ unit ++ "' imports itself"
  | importCycle [] _ => "import cycle detected"

/-- The fault with its place. -/
def message : ImportFault → String
  | unitNotFound requested (some site) =>
    "unit '" ++ requested ++ "' not found (imported at " ++ site.origin.render ++ ")"
  | unitNotFound requested none => "entry unit '" ++ requested ++ "' not found"
  | importCycle cycle _ => cycleText cycle

/-- What a user should know. -/
def advice : ImportFault → List Advice
  | unitNotFound _ (some _) =>
    [.help ("imported units must be part of the project, e.g. `<import^z=\"lib.z\">` for lib.z")]
  | unitNotFound _ none => [.note "compilation starts from the entry unit"]
  | importCycle cycle _ => [.note (cycleText cycle)]

end ImportFault

namespace Overflow

/-- The fault in a few words. -/
def summary (o : Overflow) : String :=
  match o.lineLimit with
  | none => "macro '" ++ o.name ++ "' still expanding after " ++ toString o.passes ++ " passes"
  | some limit =>
    "macro '" ++ o.name ++ "' grew the program past " ++ toString limit ++ " lines in pass " ++
      toString o.passes

/-- The fault with its place. -/
def message (o : Overflow) : String :=
  o.summary ++ " (at " ++ o.site.origin.render ++ ")"

/-- What a user should know. -/
def advice (o : Overflow) : List Advice :=
  let reason := match o.lineLimit with
    | none =>
      "expansion stops once a pass expands no calls, but `" ++ o.name ++ "` was called in every pass"
    | some _ => "each expansion of `" ++ o.name ++ "` produced more calls than it replaced"
  [.note reason] ++
    o.site.expandedFrom.toList.map (fun m => .note ("this call was expanded from `" ++ m ++ "`")) ++
    [.help ("check whether `" ++ o.name ++ "` calls itself, directly or through another macro")]

end Overflow

namespace Unrecognized

/-- The fault in a few words. -/
def summary (u : Unrecognized) : String :=
  match u.kind with
  | .importUnit => "import was not resolved"
  | .call => "call to an undefined macro"
  | .definitionStart | .definitionEnd => "macro sentinel outside a definition block"
  | _ => "unrecognized directive"

/-- The fault with its place. -/
def message (u : Unrecognized) : String :=
  "unrecognized directive `" ++ u.line.text ++ "` at line " ++ toString u.position ++ " (" ++
    u.line.origin.render ++ ")"

/-- What is to be said about a line of the kind. -/
def kindAdvice (u : Unrecognized) : List Advice :=
  match u.kind with
  | .importUnit =>
    [.note "imports are inlined before compilation; compile the project from its entry unit"]
  | .call =>
    (Call.parse? u.line.text).toList.map fun c =>
      .note ("no macro named `" ++ c.name ++ "` is defined with `<command^crt>`")
  | .definitionEnd => [.note "`<cmd^add>` closes a block opened by `<command^crt>`"]
  | _ => []

/-- What a user should know. -/
def advice (u : Unrecognized) : List Advice :=
  u.line.expandedFrom.toList.map (fun m =>
      .note ("this line was expanded from macro `" ++ m ++ "` called at this location")) ++
    u.kindAdvice ++ [.help "compile in lenient mode to emit unrecognized lines as comments"]

end Unrecognized

namespace Fault

/-- The line at fault. -/
def site? : Fault → Option Line
  | imports f => f.site?
  | expansion o => some o.site
  | unrecognized u => some u.line

/-- The fault in a few words. -/
def summary : Fault → String
  | imports f => f.summary
  | expansion o => o.summary
  | unrecognized u => u.summary

/-- The fault with its place. -/
def message : Fault → String
  | imports f => f.message
  | expansion o => o.message
  | unrecognized u => u.message

/-- What a user should know. -/
def advice : Fault → List Advice
  | imports f => f.advice
  | expansion o => o.advice
  | unrecognized u => u.advice

/-- The fault explained to a user. -/
def report (f : Fault) : Report where
  unit := f.site?.map (·.origin.unit)
  message := f.summary
  location := f.site?.map Location.ofLine
  advice := f.advice

end Fault

end ZScript
