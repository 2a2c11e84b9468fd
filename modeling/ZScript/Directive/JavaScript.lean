import ZScript.Text.Blank
import ZScript.Directive

/-!
# Directives as JavaScript

`Directive.toJavaScript?` writes one line of JavaScript for a directive that has a meaning of its
own. Imports, macro lines, addon marks and unrecognized lines have none.
-/

namespace ZScript

namespace Chars

/-- Drops each hyphen that a lower-case ASCII letter directly follows, and raises that letter. -/
def joinHyphens : List Char → List Char
  | '-' :: c :: s => if c.isLower then c.toUpper :: joinHyphens s else '-' :: joinHyphens (c :: s)
  | c :: s => c :: joinHyphens s
  | [] => []

end Chars

/-- The script name of a style property: `font-size` is `fontSize`. -/
def camelCase (property : String) : String :=
  String.ofList (Chars.joinHyphens (Chars.trim property.toList))

/-- A comment with the comment mark of the target language. -/
def commentText (text : String) : String :=
  match text.toList with
  | '#' :: s => "// " ++ String.ofList (Chars.trimStart s)
  | _ => text

/-- The JavaScript for a directive, on one line. -/
def Directive.toJavaScript? : Directive → Option String
  | printLiteral text => some ("console.log(\"" ++ text ++ "\");")
  | printExpr expression => some ("console.log(" ++ expression ++ ");")
  | errorLiteral text => some ("console.error(\"" ++ text ++ "\");")
  | errorExpr expression => some ("console.error(" ++ expression ++ ");")
  | alert text => some ("alert(\"" ++ text ++ "\");")
  | prompt target title => some ("let " ++ target ++ " = prompt(\"" ++ title ++ "\");")
  | style selector property value =>
    some ("document.querySelector('" ++ selector ++ "').style." ++ camelCase property ++ " = '" ++
      value ++ "';")
  | assign target expression => some ("let " ++ target ++ " = " ++ expression ++ ";")
  | ifThen condition => some ("if (" ++ condition ++ ") \x7b")
  | elseIf condition => some ("\x7d else if (" ++ condition ++ ") \x7b")
  | otherwise => some "\x7d else \x7b"
  | forLoop header => some ("for (" ++ header ++ ") \x7b")
  | whileLoop condition => some ("while (" ++ condition ++ ") \x7b")
  | endIf | endLoop => some "\x7d"
  | comment text => some (commentText text)
  | addonRaw text => some text
  | addonEnter _ | addonExit _ | importUnit _ | definitionStart | definitionEnd | call _ _
  | unrecognized => none

end ZScript
