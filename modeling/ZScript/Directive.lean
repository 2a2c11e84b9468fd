/-!
# Directives

A line of a script is one directive: a statement, a mark that opens or closes a
block, an import, a macro call, a comment, or nothing the notation knows. `Directive` holds what a
line says, and `Kind` only which sort of line it is.
-/

namespace ZScript

/-- The languages that a block of foreign lines may be written in. -/
inductive Addon
  | js
  | html
deriving DecidableEq, Repr

namespace Addon

/-- How a line starts that opens a block. -/
def enterMark : Addon → String
  | js => "<addon^index/set^js>"
  | html => "<addon^index/set^html>"

/-- How a line starts that closes a block. -/
def exitMark : Addon → String
  | js => "<addon^js>"
  | html => "<addon^html>"

/-- The addons, in the order in which their marks are tried. -/
def all : List Addon :=
  [js, html]

end Addon

/-- What a line says. -/
inductive Directive
  | printLiteral (text : String)
  | printExpr (expression : String)
  | errorLiteral (text : String)
  | errorExpr (expression : String)
  | alert (text : String)
  | prompt (target title : String)
  | style (selector property value : String)
  | assign (target expression : String)
  | ifThen (condition : String)
  | elseIf (condition : String)
  | otherwise
  | endIf
  | forLoop (header : String)
  | whileLoop (condition : String)
  | endLoop
  | addonEnter (addon : Addon)
  | addonExit (addon : Addon)
  /-- A line inside an addon block, kept as it stands. -/
  | addonRaw (text : String)
  | importUnit (name : String)
  | definitionStart
  | definitionEnd
  /-- A macro call, with the text between its parentheses. -/
  | call (name arguments : String)
  /-- A comment, with the mark it starts with. -/
  | comment (text : String)
  | unrecognized
deriving DecidableEq, Repr

/-- The sorts of lines. -/
inductive Kind
  | printLiteral
  | printExpr
  | errorLiteral
  | errorExpr
  | alert
  | prompt
  | style
  | assign
  | ifThen
  | elseIf
  | otherwise
  | endIf
  | forLoop
  | whileLoop
  | endLoop
  | addonEnter
  | addonExit
  | addonRaw
  | importUnit
  | definitionStart
  | definitionEnd
  | call
  | comment
  | unrecognized
deriving DecidableEq, Repr

namespace Kind

/-- The name under which a kind is logged. -/
def label : Kind → String
  | printLiteral => "print-literal"
  | printExpr => "print-expr"
  | errorLiteral => "error-literal"
  | errorExpr => "error-expr"
  | alert => "alert"
  | prompt => "prompt"
  | style => "style"
  | assign => "assign"
  | ifThen => "if"
  | elseIf => "else-if"
  | otherwise => "else"
  | endIf => "end-if"
  | forLoop => "for"
  | whileLoop => "while"
  | endLoop => "end-loop"
  | addonEnter => "addon-enter"
  | addonExit => "addon-exit"
  | addonRaw => "addon-raw"
  | importUnit => "import"
  | definitionStart => "macro-definition-start"
  | definitionEnd => "macro-definition-end"
  | call => "macro-call"
  | comment => "comment"
  | unrecognized => "unrecognized"

/-- Every kind once, statements first. -/
def all : List Kind :=
  [printLiteral, printExpr, errorLiteral, errorExpr, alert, prompt, style, assign, ifThen, elseIf,
    otherwise, endIf, forLoop, whileLoop, endLoop, addonEnter, addonExit, addonRaw, importUnit,
    definitionStart, definitionEnd, call, comment, unrecognized]

theorem mem_all (k : Kind) : k ∈ all := by
  cases k <;> decide

end Kind

/-- The sort of line that a directive stands on. -/
def Directive.kind : Directive → Kind
  | printLiteral _ => .printLiteral
  | printExpr _ => .printExpr
  | errorLiteral _ => .errorLiteral
  | errorExpr _ => .errorExpr
  | alert _ => .alert
  | prompt _ _ => .prompt
  | style _ _ _ => .style
  | assign _ _ => .assign
  | ifThen _ => .ifThen
  | elseIf _ => .elseIf
  | otherwise => .otherwise
  | endIf => .endIf
  | forLoop _ => .forLoop
  | whileLoop _ => .whileLoop
  | endLoop => .endLoop
  | addonEnter _ => .addonEnter
  | addonExit _ => .addonExit
  | addonRaw _ => .addonRaw
  | importUnit _ => .importUnit
  | definitionStart => .definitionStart
  | definitionEnd => .definitionEnd
  | call _ _ => .call
  | comment _ => .comment
  | unrecognized => .unrecognized

end ZScript
