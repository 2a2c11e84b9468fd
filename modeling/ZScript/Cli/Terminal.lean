import ZScript.Report

/-!
# Output to a terminal or a file

Text that goes to a terminal may hold control sequences, among them those that set colours. Plain
output leaves them out: what an escape character starts is not put out, and neither are control
characters other than white space. `withoutControls` reads a text one character at a time and keeps
what is put out.

White space inside a sequence that is not a string is put out, and interrupts the sequence: the
text behind it is put out as well, up to the next control character, where the sequence goes on.
A character beyond ASCII in such a stretch ends the sequence.
-/

namespace ZScript

/-- Where the reading of a control sequence stands. -/
inductive ControlState
  /-- Not in a sequence. -/
  | ground
  /-- Behind an escape character. -/
  | escape
  /-- In a sequence that the next letter or sign from `0` on ends. -/
  | intermediate
  /-- In a sequence with parameters. -/
  | parameters
  /-- In a command string, up to a bell or the next escape character. -/
  | command
  /-- At the start of a device control string. -/
  | device
  /-- In the parameters of a device control string. -/
  | deviceParameters
  /-- In the signs between the parameters of a device control string and its contents. -/
  | deviceIntermediate
  /-- In a string that a terminator or the next escape character ends. -/
  | string
deriving DecidableEq, Repr

namespace ControlState

/-- White space of ASCII that is not the space. -/
def isSpacing (c : Char) : Bool :=
  c == '\t' || c == '\n' || c == '\x0c' || c == '\r'

/-- Whether a character is put out where no sequence is open. -/
def isShown (c : Char) : Bool :=
  isSpacing c || (' ' ≤ c && c != '\x7f')

/-- Whether a character holds the byte of the string terminator. Strings are read byte by byte, so
that the byte counts in the encoding of any character. -/
def hasTerminator (c : Char) : Bool :=
  (String.utf8EncodeChar c).any (· == 0x9c)

/-- The state behind an escape character and `c`. -/
def afterEscape (c : Char) : ControlState :=
  if c == '[' then parameters
  else if c == ']' then command
  else if c == 'P' then device
  else if c == 'X' || c == '^' || c == '_' then string
  else if ' ' ≤ c && c ≤ '/' then intermediate
  else if '0' ≤ c && c ≤ '~' then ground
  else escape

/-- The state after a character. -/
def next (s : ControlState) (c : Char) : ControlState :=
  if c == '\x1b' then escape
  else if c == '\x18' || c == '\x1a' then ground
  else
    match s with
    | ground => ground
    | escape => afterEscape c
    | intermediate => if '0' ≤ c && c ≤ '~' then ground else intermediate
    | parameters => if '@' ≤ c && c ≤ '~' then ground else parameters
    | command => if c == '\x07' then ground else command
    | device =>
      if ' ' ≤ c && c ≤ '/' then deviceIntermediate
      else if '0' ≤ c && c ≤ '?' then deviceParameters
      else if '@' ≤ c && c ≤ '~' then string
      else device
    | deviceParameters =>
      if ' ' ≤ c && c ≤ '/' then deviceIntermediate
      else if '<' ≤ c && c ≤ '~' then string
      else deviceParameters
    | deviceIntermediate => if '0' ≤ c && c ≤ '~' then string else deviceIntermediate
    | string => if hasTerminator c then ground else string

/-- Whether a character is put out in a state. -/
def shows : ControlState → Char → Bool
  | ground, c => isShown c
  | escape, c | intermediate, c | parameters, c => isSpacing c
  | _, _ => false

end ControlState

/-- A text on its way to plain output. -/
structure PlainOutput where
  state : ControlState := .ground
  /-- Whether the last character was put out, so that an open sequence is interrupted. -/
  interrupted : Bool := false
  /-- What was put out. -/
  text : String := ""
deriving DecidableEq, Repr

/-- Reads one more character. -/
def PlainOutput.step (o : PlainOutput) (c : Char) : PlainOutput :=
  if o.state.shows c || (o.interrupted && ControlState.isShown c) then
    { state := if c.toNat < 128 then o.state else .ground
      interrupted := true
      text := o.text.push c }
  else { o with state := o.state.next c, interrupted := false }

/-- The text without control sequences and control characters. -/
def withoutControls (text : String) : String :=
  (text.toList.foldl PlainOutput.step {}).text

/-- A text with colours as it is put out. -/
def Paint.output : Paint → String → String
  | ansi, text => text
  | plain, text => withoutControls text

example : withoutControls (Paint.ansi.apply "31" "error" ++ ": \x07bell") = "error: bell" := by
  decide +kernel

end ZScript
