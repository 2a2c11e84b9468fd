import ZScript.Call
import ZScript.Directive

/-!
# The rules that recognize directives

A rule reads a whole line as a directive of one kind, or refuses it. `Directive.ofText` takes the
first rule of the table `rules` that accepts. Inside an addon block only the marks of that addon
keep their meaning (`Directive.within`), and `Addon.after` follows the blocks through a stream of
lines.
-/

namespace ZScript

/-- A way to read a line as a directive of one kind. -/
structure Rule where
  kind : Kind
  read : List Char → Option Directive

namespace Rule

/-- The rule for one exact line. -/
@[inline] def exactly (line : String) (d : Directive) : Rule :=
  ⟨d.kind, fun s => if s = line.toList then some d else none⟩

/-- The rule for lines that start with the mark of an addon. -/
def marked (kind : Kind) (mark : Addon → String) (directive : Addon → Directive) : Rule :=
  let marks := Addon.all.map fun a => (a, (mark a).toList)
  ⟨kind, fun s => (marks.find? fun m => m.2.isPrefixOf s).map fun m => directive m.1⟩

/-- The rule for a line with one literal. -/
@[inline] def literal (kind : Kind) (lead : String) (directive : String → Directive) : Rule :=
  ⟨kind, fun s => (Chars.closedLiteral? lead s).map directive⟩

/-- The rule for a line with one expression. -/
@[inline] def expression (kind : Kind) (lead : String) (directive : String → Directive) : Rule :=
  ⟨kind, fun s => (Chars.expression? lead s).map directive⟩

/-- A question to the user: a variable and the title, in either of two languages. -/
def prompt : Rule :=
  ⟨.prompt, fun s => do
    let s ← Chars.after? "<prompt^set.index=\"" s
    let (target, s) ← Chars.identifier? s
    let title ← Chars.closedLiteral? "\"&title=\"" s <|> Chars.closedLiteral? "\"&başlık=\"" s
    return .prompt target title⟩

/-- A style declaration for the elements that a selector finds. -/
def style : Rule :=
  ⟨.style, fun s => do
    let s ← Chars.after? "<ui.e^selector=\"" s
    let (selector, s) ← Chars.literal? s
    let s ← Chars.after? "\"&css=\"" s
    let (property, s) ← Chars.until? [':', '"'] s
    let value ← Chars.closedLiteral? ":" s
    return .style selector property value⟩

/-- An assignment of an expression, trimmed, to a variable. -/
def assign : Rule :=
  ⟨.assign, fun s => do
    let s ← Chars.after? "<set^" s
    let (target, s) ← Chars.identifier? s
    let s ← Chars.after? "=" (s.dropWhile isGap)
    let expression ← Chars.before? ">" s
    if (Chars.trim expression).isEmpty then none
    else return .assign target (String.ofList (Chars.trim expression))⟩

/-- Whether a name is that of a unit: it ends in `.z` and has something before that. -/
def isUnitName (name : String) : Bool :=
  (Chars.before? ".z" name.toList).any (!·.isEmpty)

/-- An import of a unit. -/
def importUnit : Rule :=
  ⟨.importUnit, fun s =>
    ((Chars.closedLiteral? "<import^z=\"" s).filter isUnitName).map .importUnit⟩

/-- A comment: a line that starts with one of the two comment marks. -/
def comment : Rule :=
  ⟨.comment, fun s =>
    if (Chars.after? "//" s).isSome || (Chars.after? "#" s).isSome then
      some (.comment (String.ofList s))
    else none⟩

/-- A macro call. -/
def call : Rule :=
  ⟨.call, fun s => (Chars.callParts? s).map fun p => .call p.1 (String.ofList p.2)⟩

end Rule

open Rule in
/-- The rules, in the order in which they are tried. -/
def rules : List Rule :=
  [ marked .addonEnter Addon.enterMark .addonEnter,
    marked .addonExit Addon.exitMark .addonExit,
    exactly "<command^crt>" .definitionStart,
    exactly "<cmd^add>" .definitionEnd,
    literal .errorLiteral "<error^set.index=\"" .errorLiteral,
    expression .errorExpr "<error^set.incode=\"" .errorExpr,
    literal .printLiteral "<print^set.index=\"" .printLiteral,
    expression .printExpr "<print^set.incode=\"" .printExpr,
    literal .alert "<alert^class=\"" .alert,
    prompt,
    style,
    assign,
    expression .ifThen "<if^set.incode=\"" .ifThen,
    expression .elseIf "<else^if^set.incode=\"" .elseIf,
    exactly "<else^set>" .otherwise,
    exactly "<end^if>" .endIf,
    expression .forLoop "<for^set.incode=\"" .forLoop,
    expression .whileLoop "<while^set.incode=\"" .whileLoop,
    exactly "<end^loop>" .endLoop,
    importUnit,
    comment,
    call ]

/-- Whether a rule reads a line. -/
def Rule.accepts (r : Rule) (line : String) : Bool :=
  (r.read line.toList).isSome

namespace Directive

/-- The directive that a line is, outside addon blocks. -/
def ofText (line : String) : Directive :=
  let s := line.toList
  (rules.findSome? (·.read s)).getD .unrecognized

/-- The directive that a line is inside the given addon block, if any. -/
def within : Option Addon → String → Directive
  | none, line => ofText line
  | some current, line =>
    match ofText line with
    | addonEnter a => if a = current then addonEnter a else addonRaw line
    | addonExit a => if a = current then addonExit a else addonRaw line
    | _ => addonRaw line

end Directive

/-- The addon block that is open after a directive, given the one open before it. -/
def Directive.blockAfter (block : Option Addon) : Directive → Option Addon
  | addonEnter a => some a
  | addonExit _ => none
  | _ => block

/-- The addon block that is open after a line, given the one open before it. -/
def Addon.after (block : Option Addon) (line : String) : Option Addon :=
  (Directive.within block line).blockAfter block

end ZScript
