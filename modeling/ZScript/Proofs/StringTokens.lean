import Mathlib.Algebra.Ring.Parity
import Mathlib.Data.List.DropRight
import ZScript.Directive.JavaScript
import ZScript.Proofs.Directives

/-!
# String tokens in the code

The code of some directives has texts of the line between quotes : double quotes around what is shown
to a user, single quotes around the selector and the value of a style (`Directive.stringTokens`). Each
such text is meant to be one string token, which ends at the first quote of its kind that is not
escaped (`Chars.token?`). A character is escaped if an odd number of backslashes stands before it. So
the token ends where the text does if and only if every such quote in the text has an odd number of
backslashes before it and the text ends with an even number of them (`Chars.token?_append_iff`).

The literals of a line have no double quotes, and a text between double quotes is one token unless it
ends with an odd number of backslashes. Nothing keeps single quotes out of the texts of a style.
-/

namespace ZScript

namespace Chars

/-! ## Reading a token -/

/-- Reads a string token from behind its opening quote: the characters up to the first quote that is
not escaped, and what follows that quote. A backslash that is not escaped itself escapes the character
behind it. The flag says whether the first character is escaped. -/
def token? (quote : Char) : (escaped : Bool) → List Char → Option (List Char × List Char)
  | _, [] => none
  | escaped, c :: s =>
    if !escaped && c == quote then some ([], s)
    else (token? quote (!escaped && c == '\\') s).map fun t => (c :: t.1, t.2)

/-- The number of backslashes that a text ends with. -/
def backslashes (s : List Char) : Nat :=
  (s.rtakeWhile (· == '\\')).length

@[simp] theorem backslashes_nil : backslashes [] = 0 := rfl

theorem backslashes_concat (s : List Char) (c : Char) :
    backslashes (s ++ [c]) = if c = '\\' then backslashes s + 1 else 0 := by
  by_cases hc : c = '\\' <;> simp [backslashes, hc]

/-- Every quote in the text is escaped, and a quote behind it is not. -/
structure Contained (quote : Char) (s : List Char) : Prop where
  escaped : ∀ before after, s = before ++ quote :: after → Odd (backslashes before)
  closed : Even (backslashes s)

variable {quote c : Char} {s rest : List Char} {escaped : Bool}

theorem token?_cons_eq_some_cons :
    token? quote escaped (c :: (s ++ quote :: rest)) = some (c :: s, rest) ↔
      (c = quote → escaped = true) ∧
        token? quote (!escaped && c == '\\') (s ++ quote :: rest) = some (s, rest) := by
  by_cases hc : escaped = false ∧ c = quote
  · simp [token?, hc]
  · have hesc : c = quote → escaped = true := fun h => by simpa [h] using hc
    have hif : ¬(!escaped && c == quote) = true := by simpa using hc
    simp only [token?, if_neg hif, Option.map_eq_some_iff]
    constructor
    · rintro ⟨t, ht, heq⟩
      obtain ⟨hhead, rfl⟩ := Prod.mk.inj heq
      obtain rfl := List.tail_eq_of_cons_eq hhead
      exact ⟨hesc, ht⟩
    · rintro ⟨-, ht⟩
      exact ⟨_, ht, rfl⟩

theorem odd_backslashes_concat {pre : List Char} (h : escaped = true ↔ Odd (backslashes pre))
    (c : Char) : (!escaped && c == '\\') = true ↔ Odd (backslashes (pre ++ [c])) := by
  rw [backslashes_concat]
  by_cases hc : c = '\\'
  · cases escaped <;> simp_all [Nat.odd_add_one]
  · simp [hc]

/-- A text that follows `pre` is read as a whole if and only if, with the backslashes of `pre`
counted, every quote in it is escaped and the one behind it is not. -/
theorem token?_append_iff_behind (pre : List Char) (h : escaped = true ↔ Odd (backslashes pre)) :
    token? quote escaped (s ++ quote :: rest) = some (s, rest) ↔
      (∀ before after, s = before ++ quote :: after → Odd (backslashes (pre ++ before))) ∧
        Even (backslashes (pre ++ s)) := by
  -- The flag is the parity of the backslashes read last, so each character moves over to `pre`.
  induction s generalizing pre escaped with
  | nil => cases escaped <;> simpa [token?] using h
  | cons c s ih =>
    have hfirst : (c = quote → escaped = true) ↔ (c = quote → Odd (backslashes pre)) := by rw [h]
    rw [List.cons_append, token?_cons_eq_some_cons, ih _ (odd_backslashes_concat h c), hfirst,
      ← and_assoc]
    refine and_congr ⟨?_, ?_⟩ (by simp)
    · rintro ⟨hhead, htail⟩ before after heq
      cases before with
      | nil => simpa using hhead (List.head_eq_of_cons_eq heq)
      | cons b before =>
        obtain ⟨rfl, htl⟩ := List.cons.inj heq
        simpa using htail before after htl
    · intro hall
      refine ⟨fun hc => by simpa using hall [] s (by simp [hc]), fun before after heq => ?_⟩
      simpa using hall (c :: before) after (by simp [heq])

theorem token?_append_iff :
    token? quote false (s ++ quote :: rest) = some (s, rest) ↔ Contained quote s := by
  rw [token?_append_iff_behind [] (by simp)]
  exact ⟨fun h => ⟨h.1, h.2⟩, fun h => ⟨h.escaped, h.closed⟩⟩

theorem contained_iff_of_notMem (h : quote ∉ s) : Contained quote s ↔ Even (backslashes s) :=
  ⟨Contained.closed, fun hs => ⟨fun before after heq => absurd (by simp [heq]) h, hs⟩⟩

end Chars

/-! ## The tokens of a directive -/

/-- A text between quotes, and what stands before and after it. -/
structure StringToken where
  before : String
  quote : Char
  text : String
  after : String
deriving DecidableEq, Repr

namespace StringToken

/-- The code that has the token in it. -/
def code (t : StringToken) : String :=
  t.before ++ t.quote.toString ++ t.text ++ t.quote.toString ++ t.after

/-- Read from behind the opening quote, the token is the text, and it ends at the closing quote. -/
def Closed (t : StringToken) : Prop :=
  Chars.token? t.quote false (t.code.toList.drop (t.before.length + 1)) =
    some (t.text.toList, t.after.toList)

instance (t : StringToken) : Decidable t.Closed :=
  inferInstanceAs (Decidable (_ = _))

theorem closed_iff (t : StringToken) : t.Closed ↔ Chars.Contained t.quote t.text.toList := by
  have hdrop : t.code.toList.drop (t.before.length + 1) =
      t.text.toList ++ t.quote :: t.after.toList := by
    simp [code, ← String.length_toList]
  rw [Closed, hdrop, Chars.token?_append_iff]

end StringToken

namespace Directive

/-- The texts of its line that a directive puts between quotes. -/
def stringTokens : Directive → List StringToken
  | printLiteral text => [⟨"console.log(", '"', text, ");"⟩]
  | errorLiteral text => [⟨"console.error(", '"', text, ");"⟩]
  | alert text => [⟨"alert(", '"', text, ");"⟩]
  | prompt target title => [⟨"let " ++ target ++ " = prompt(", '"', title, ");"⟩]
  | style selector property value =>
    [⟨"document.querySelector(", '\x27', selector,
        ").style." ++ camelCase property ++ " = '" ++ value ++ "';"⟩,
      ⟨"document.querySelector('" ++ selector ++ "').style." ++ camelCase property ++ " = ", '\x27',
        value, ";"⟩]
  | _ => []

variable {d : Directive} {line : String} {t : StringToken}

theorem toJavaScript?_of_mem_stringTokens (h : t ∈ d.stringTokens) :
    d.toJavaScript? = some t.code := by
  cases d with
  | printLiteral | errorLiteral | alert =>
    obtain rfl := List.mem_singleton.1 h
    simp [toJavaScript?, StringToken.code, ← String.toList_inj]
  | prompt target title =>
    obtain rfl := List.mem_singleton.1 h
    simp [toJavaScript?, StringToken.code, ← String.toList_inj]
  | style selector property value =>
    rcases List.mem_pair.1 h with rfl | rfl <;>
      simp [toJavaScript?, StringToken.code, ← String.toList_inj]
  | _ => cases h

theorem Spelled.isLiteral_of_mem_stringTokens (h : d.Spelled line) (ht : t ∈ d.stringTokens) :
    IsLiteral t.text := by
  cases d with
  | printLiteral | errorLiteral | alert =>
    obtain rfl := List.mem_singleton.1 ht
    exact h.1
  | prompt =>
    obtain rfl := List.mem_singleton.1 ht
    exact h.2.1
  | style =>
    obtain ⟨hselector, -, -, hvalue, -⟩ := h
    rcases List.mem_pair.1 ht with rfl | rfl
    · exact hselector
    · exact hvalue
  | _ => cases ht

theorem isLiteral_of_mem_stringTokens (h : t ∈ (ofText line).stringTokens) : IsLiteral t.text := by
  refine (spelled_of_ofText fun hd => ?_).isLiteral_of_mem_stringTokens h
  rw [hd] at h
  cases h

end Directive

/-- The code of a line has each of its string tokens in it. Such a token ends at the quote written
behind its text if and only if the quotes in the text are escaped and the text ends with an even
number of backslashes. Between double quotes the number of backslashes decides alone. -/
theorem string_tokens_closed_iff {line : String} {t : StringToken}
    (h : t ∈ (Directive.ofText line).stringTokens) :
    (Directive.ofText line).toJavaScript? = some t.code ∧
      (t.Closed ↔ Chars.Contained t.quote t.text.toList) ∧
      (t.quote = '"' → (t.Closed ↔ Even (Chars.backslashes t.text.toList))) := by
  refine ⟨Directive.toJavaScript?_of_mem_stringTokens h, t.closed_iff, fun hquote => ?_⟩
  rw [t.closed_iff, hquote]
  exact Chars.contained_iff_of_notMem (Directive.isLiteral_of_mem_stringTokens h).2

/-- A text may end with two backslashes, for the first one escapes the second. -/
theorem string_tokens_closed_iff_backslashes :
    ∃ t ∈ (Directive.ofText "<print^set.index=\"a\\\\\">").stringTokens, t.Closed := by
  have h : (⟨"console.log(", '"', "a\\\\", ");"⟩ : StringToken) ∈
      (Directive.ofText "<print^set.index=\"a\\\\\">").stringTokens := by decide
  exact ⟨_, h, ((string_tokens_closed_iff h).2.2 rfl).2 (by decide)⟩

/-- One backslash at the end of a text escapes the closing quote, and a single quote in a selector
ends its token. -/
theorem string_tokens_left_open :
    (∃ t ∈ (Directive.ofText "<print^set.index=\"a\\\">").stringTokens, ¬t.Closed) ∧
      ∃ t ∈ (Directive.ofText "<ui.e^selector=\"a[b='c']\"&css=\"color:red\">").stringTokens,
        ¬t.Closed := by
  decide

end ZScript
