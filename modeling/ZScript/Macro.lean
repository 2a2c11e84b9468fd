import ZScript.Call
import ZScript.Catalog
import ZScript.Directive.Rules
import ZScript.Line

/-!
# Macros

A macro has a name, parameters and a body of template lines. A call of the macro stands for its
body with the arguments put in the place of the parameters. `substitute` does that for one
template: it goes through the template once, and where a parameter starts it puts the argument of
the longest such parameter and goes on behind the parameter, so that what it put in is never looked
at again.
-/

namespace ZScript

/-- A macro definition. -/
structure Macro where
  name : String
  parameters : List String
  body : List String
  /-- The place of the signature. -/
  origin : Origin
deriving DecidableEq, Repr

instance : Named Macro := ⟨Macro.name⟩

/-- The macros of a program, in the order in which their names first came. -/
abbrev MacroTable := Catalog Macro

namespace Chars

/-- A parameter with the text that takes its place. -/
structure Binding where
  parameter : List Char
  value : List Char
deriving DecidableEq, Repr

/-- The bindings of parameters to arguments by position. A parameter without an argument stands
for itself. -/
def bindings : List String → List String → List Binding
  | [], _ => []
  | p :: ps, [] => ⟨p.toList, p.toList⟩ :: bindings ps []
  | p :: ps, a :: as => ⟨p.toList, a.toList⟩ :: bindings ps as

/-- Whether the parameter of a binding starts a text. -/
def Binding.starts (b : Binding) (s : List Char) : Bool :=
  b.parameter.isPrefixOf s

/-- The binding whose parameter is the longest, the first of equals. -/
def longest : List Binding → Option Binding
  | [] => none
  | b :: bs =>
    match longest bs with
    | none => some b
    | some b' => if b.parameter.length < b'.parameter.length then some b' else some b

/-- The template from its `skip`-th character on, with the values of the bindings for their
parameters. The characters to skip belong to the last parameter found. Where only an empty parameter
starts, a scan would stay for ever, and what is given for such a template means nothing. -/
def substitute (bs : List Binding) : (skip : Nat) → List Char → List Char
  | _, [] => []
  | skip + 1, _ :: s => substitute bs skip s
  | 0, c :: s =>
    match longest (bs.filter (·.starts (c :: s))) with
    | none => c :: substitute bs 0 s
    | some b => b.value ++ substitute bs (b.parameter.length - 1) s

end Chars

/-- A template with arguments for parameters. -/
def instantiate (template : String) (parameters arguments : List String) : String :=
  String.ofList (Chars.substitute (Chars.bindings parameters arguments) 0 template.toList)

namespace Macro

/-- The written form `name(p1, p2)`. -/
def render (m : Macro) : String :=
  m.name ++ "(" ++ ", ".intercalate m.parameters ++ ")"

/-- The lines that a call stands for: the body lines with the arguments put in, trimmed, without
the blank ones, all at the place of the call. -/
def linesAt (m : Macro) (call : Line) (arguments : List String) : List Line :=
  m.body.filterMap fun template =>
    let text := trim (instantiate template m.parameters arguments)
    if text.isEmpty then none else some (call.instantiated m.name text)

end Macro

/-- The macro that a line calls, with the arguments. Nothing inside an addon block is a call. -/
def MacroTable.called? (table : MacroTable) (block : Option Addon) (line : Line) :
    Option (Macro × List String) :=
  match block with
  | some _ => none
  | none => do
    let call ← Call.parse? line.text
    let m ← table.find? call.name
    return (m, call.arguments)

end ZScript
