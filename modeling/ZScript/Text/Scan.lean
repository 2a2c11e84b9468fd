import ZScript.Text.Blank

/-!
# Reading parts of a line

Partial readers over character lists. `after?` and `before?` take a fixed text off the start or
the end, `identifier?` and `literal?` take the longest identifier or literal off the start, and
`closedLiteral?` and `expression?` read what stands between an opening and the closing `">` of a
line. A reader that fails gives `none`; one that succeeds gives what it read, and the rest where
there is one.
-/

namespace ZScript

/-- The characters an identifier may start with. -/
def isIdentStart (c : Char) : Bool :=
  c.isAlpha || c == '_' || c == '$'

/-- The characters an identifier may go on with. -/
def isIdentRest (c : Char) : Bool :=
  c.isAlphanum || c == '_' || c == '$'

namespace Chars

/-- What is left of a text when the given characters are taken off its start. -/
def dropLead? : List Char → List Char → Option (List Char)
  | [], s => some s
  | _ :: _, [] => none
  | a :: lead, c :: s => if a = c then dropLead? lead s else none

theorem dropLead?_eq_some_iff {lead s r : List Char} :
    dropLead? lead s = some r ↔ s = lead ++ r := by
  induction lead generalizing s with
  | nil => simp [dropLead?]
  | cons a lead ih =>
    cases s with
    | nil => simp [dropLead?]
    | cons c s =>
      by_cases h : a = c
      · subst h
        simp [dropLead?, ih]
      · simp [dropLead?, h, Ne.symm h]

/-- What follows `lead`, if the text starts with it. -/
@[inline] def after? (lead : String) (s : List Char) : Option (List Char) :=
  dropLead? lead.toList s

/-- What stands before `close`, if the text ends with it. -/
@[inline] def before? (close : String) (s : List Char) : Option (List Char) :=
  (dropLead? close.toList.reverse s.reverse).map List.reverse

theorem after?_eq_some_iff {lead : String} {s r : List Char} :
    after? lead s = some r ↔ s = lead.toList ++ r :=
  dropLead?_eq_some_iff

theorem before?_eq_some_iff {close : String} {s r : List Char} :
    before? close s = some r ↔ s = r ++ close.toList := by
  unfold before?
  rw [Option.map_eq_some_iff]
  constructor
  · rintro ⟨t, ht, rfl⟩
    have h := congrArg List.reverse (dropLead?_eq_some_iff.1 ht)
    simpa using h
  · rintro rfl
    exact ⟨r.reverse, dropLead?_eq_some_iff.2 (by simp), by simp⟩

/-- The longest identifier at the start, with the rest. -/
def identifier? : List Char → Option (String × List Char)
  | [] => none
  | c :: s =>
    if isIdentStart c then
      some (String.ofList (c :: s.takeWhile isIdentRest), s.dropWhile isIdentRest)
    else none

/-- The longest text at the start without any of the given characters, with the rest. It must not
be empty. -/
def until? (stops : List Char) (s : List Char) : Option (String × List Char) :=
  let goesOn := fun c => !stops.contains c
  let text := s.takeWhile goesOn
  if text.isEmpty then none else some (String.ofList text, s.dropWhile goesOn)

/-- The longest literal at the start, with the rest. A literal has at least one character and no
double quote. -/
@[inline] def literal? (s : List Char) : Option (String × List Char) :=
  until? ['"'] s

/-- The literal between `lead` and the `">` behind it, which has to end the line. -/
@[inline] def closedLiteral? (lead : String) (s : List Char) : Option String := do
  let s ← after? lead s
  let (text, s) ← literal? s
  let s ← after? "\">" s
  if s.isEmpty then some text else none

/-- The expression between `lead` and the `">` that ends the line: any text that is not empty,
quotes included. -/
@[inline] def expression? (lead : String) (s : List Char) : Option String := do
  let s ← after? lead s
  let expression ← before? "\">" s
  if expression.isEmpty then none else some (String.ofList expression)

end Chars

end ZScript
