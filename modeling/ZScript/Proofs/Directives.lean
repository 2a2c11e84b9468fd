import ZScript.Proofs.Grammar

/-!
# Rules, calls and the marks of addon blocks

A rule of the table reads a line if and only if the line is a directive of its kind
(`Directive.read_eq_some_iff`), and no two rules have the same kind (`pairwise_kind_rules`). So no
line is read by two rules, and it does not matter in which order they are tried
(`Directive.findSome?_of_perm`).

A line is read as a call if and only if it has the shape of one (`Directive.parse?_eq_some_iff`),
and as the mark of an addon if and only if it starts with one
(`Directive.ofText_eq_addonEnter_iff`, `Directive.ofText_eq_addonExit_iff`). A call is therefore no
mark.

`Directive.within_some_cases` and `Directive.kind_within_eq_addonRaw_iff` say what a line is inside
an addon block, and `Addon.after_of_not_isMark` and `Addon.after_of_not_exit` say that only marks
open and close one.
-/

namespace ZScript

namespace Addon

/-- The text starts with one of the two marks of the addon. -/
def Marks (a : Addon) (text : String) : Prop :=
  a.enterMark.toList <+: text.toList ∨ a.exitMark.toList <+: text.toList

instance (a : Addon) (text : String) : Decidable (a.Marks text) :=
  inferInstanceAs (Decidable (_ ∨ _))

/-- The text starts with a mark of an addon. -/
def IsMark (text : String) : Prop :=
  ∃ a ∈ all, a.Marks text

instance (text : String) : Decidable (IsMark text) :=
  inferInstanceAs (Decidable (∃ a ∈ all, a.Marks text))

theorem Marks.isMark {a : Addon} {text : String} (h : a.Marks text) : IsMark text :=
  ⟨a, by cases a <;> decide, h⟩

end Addon

/-! ## The table of rules -/

/-- No two rules of the table have the same kind. -/
theorem pairwise_kind_rules : rules.Pairwise fun r r' => r.kind ≠ r'.kind := by
  have hnodup : (rules.map Rule.kind).Nodup := by decide
  exact List.pairwise_map.1 hnodup

theorem kind_ne_unrecognized_of_mem_rules {r : Rule} (hr : r ∈ rules) : r.kind ≠ .unrecognized := by
  have hkinds : Kind.unrecognized ∉ rules.map Rule.kind := by decide
  exact fun hkind => hkinds (hkind ▸ List.mem_map_of_mem hr)

namespace Directive

variable {line : String}

/-- A rule of the table reads a line if and only if the line is a directive of its kind. -/
theorem read_eq_some_iff {r : Rule} (hr : r ∈ rules) {d : Directive} :
    r.read line.toList = some d ↔ ofText line = d ∧ d.kind = r.kind := by
  rw [exact_of_mem_rules r hr line d]
  constructor
  · rintro ⟨hkind, hspelled⟩
    exact ⟨hspelled.ofText_eq, hkind⟩
  · rintro ⟨rfl, hkind⟩
    refine ⟨hkind, spelled_of_ofText fun hd => ?_⟩
    rw [hd] at hkind
    exact kind_ne_unrecognized_of_mem_rules hr hkind.symm

theorem accepts_iff {r : Rule} (hr : r ∈ rules) :
    r.accepts line = true ↔ (ofText line).kind = r.kind := by
  rw [Rule.accepts, Option.isSome_iff_exists]
  simp [read_eq_some_iff hr]

theorem forall_not_accepts_iff :
    (∀ r ∈ rules, r.accepts line = false) ↔ ofText line = .unrecognized := by
  constructor
  · intro h
    by_contra hd
    obtain ⟨r, hr, hkind⟩ := (spelled_of_ofText hd).exists_rule
    have haccepts : r.accepts line = true := (accepts_iff hr).2 hkind.symm
    exact absurd (h r hr) (by simp [haccepts])
  · intro h r hr
    rw [← Bool.not_eq_true, accepts_iff hr, h]
    exact fun hkind => kind_ne_unrecognized_of_mem_rules hr hkind.symm

/-- The rules of the table give the same directive in any order. -/
theorem findSome?_of_perm {table : List Rule} (h : table.Perm rules) :
    (table.findSome? (·.read line.toList)).getD .unrecognized = ofText line := by
  cases hfind : table.findSome? (·.read line.toList) with
  | none =>
    rw [Option.getD_none, eq_comm, ← forall_not_accepts_iff]
    intro r hr
    rw [Rule.accepts, List.findSome?_eq_none_iff.1 hfind r (h.mem_iff.2 hr), Option.isSome_none]
  | some d =>
    obtain ⟨r, hr, hread⟩ := List.exists_of_findSome?_eq_some hfind
    exact ((read_eq_some_iff (h.mem_iff.1 hr)).1 hread).1.symm

/-- A line is a call if and only if it is read as one. -/
theorem parse?_eq_some_iff {call : Call} : Call.parse? line = some call ↔
    ∃ text, ofText line = .call call.name text ∧ splitArguments text = call.arguments := by
  have hread : ∀ name text, ofText line = .call name text ↔
      Rule.call.read line.toList = some (.call name text) := by
    intro name text
    rw [read_eq_some_iff (by simp [rules])]
    exact (and_iff_left rfl).symm
  simp only [hread, Call.parse?, Rule.call, Option.map_eq_some_iff, Prod.exists]
  constructor
  · rintro ⟨name, inner, hparts, rfl⟩
    exact ⟨String.ofList inner, ⟨name, inner, hparts, rfl⟩, rfl⟩
  · rintro ⟨_, ⟨name, inner, hparts, hcall⟩, harguments⟩
    obtain ⟨rfl, rfl⟩ := Directive.call.inj hcall
    exact ⟨call.name, inner, hparts, by rw [harguments]⟩

/-- Whatever the line, at most one rule of the table accepts it, and this is the rule for the kind of
the line. No rule accepts a line if and only if it is unrecognized. So the rules give the same
directive in any order, and a line is a call with certain arguments if and only if it is read as
one. -/
theorem rules_unambiguous (line : String) :
    (rules.Pairwise fun r r' => ¬(r.accepts line = true ∧ r'.accepts line = true)) ∧
      (∀ r ∈ rules, r.accepts line = true → r.kind = (ofText line).kind) ∧
      ((∀ r ∈ rules, r.accepts line = false) ↔ ofText line = .unrecognized) ∧
      (∀ table : List Rule, table.Perm rules →
        (table.findSome? (·.read line.toList)).getD .unrecognized = ofText line) ∧
      ∀ name arguments, Call.parse? line = some ⟨name, arguments⟩ ↔
        ∃ text, ofText line = .call name text ∧ splitArguments text = arguments := by
  refine ⟨?_, fun r hr h => ((accepts_iff hr).1 h).symm, forall_not_accepts_iff,
    fun table h => findSome?_of_perm h, fun name arguments => parse?_eq_some_iff⟩
  refine pairwise_kind_rules.imp_of_mem fun hr hr' hne => ?_
  rintro ⟨h, h'⟩
  exact hne (((accepts_iff hr).1 h).symm.trans ((accepts_iff hr').1 h'))

/-- The rules in reverse order read a call as the call that it is. -/
theorem rules_unambiguous_reverse : rules.reverse.Perm rules ∧
    (rules.reverse.findSome? (·.read "f(\"a,b\", c)".toList)).getD .unrecognized =
      .call "f" "\"a,b\", c" ∧
    Call.parse? "f(\"a,b\", c)" = some ⟨"f", ["\"a,b\"", "c"]⟩ := by
  obtain ⟨-, -, -, horder, hcall⟩ := rules_unambiguous "f(\"a,b\", c)"
  have hof : ofText "f(\"a,b\", c)" = .call "f" "\"a,b\", c" := by decide
  exact ⟨rules.reverse_perm, (horder _ rules.reverse_perm).trans hof,
    (hcall "f" _).2 ⟨_, hof, by decide⟩⟩

/-! ## Marks and calls -/

theorem ofText_eq_addonEnter_iff {a : Addon} :
    ofText line = .addonEnter a ↔ a.enterMark.toList <+: line.toList := by
  rw [ofText_eq_iff (by simp), Chars.prefix_toList_iff]
  rfl

theorem ofText_eq_addonExit_iff {a : Addon} :
    ofText line = .addonExit a ↔ a.exitMark.toList <+: line.toList := by
  rw [ofText_eq_iff (by simp), Chars.prefix_toList_iff]
  rfl

theorem ofText_ne_addonRaw (text : String) : ofText line ≠ .addonRaw text := by
  rw [Ne, ofText_eq_iff (by simp)]
  exact id

/-- A line that is read as a call is one. -/
theorem exists_call_of_ofText (h : (ofText line).kind = .call) :
    ∃ call, Call.parse? line = some call := by
  cases hd : ofText line <;> rw [hd] at h <;> cases h
  rename_i name text
  exact ⟨⟨name, splitArguments text⟩, parse?_eq_some_iff.2 ⟨text, hd, rfl⟩⟩

/-- A call is read as one. -/
theorem kind_of_call {call : Call} (h : Call.parse? line = some call) :
    (ofText line).kind = .call := by
  obtain ⟨text, hof, -⟩ := parse?_eq_some_iff.1 h
  rw [hof]
  rfl

/-- A call is no mark. -/
theorem not_isMark_of_call {call : Call} (h : Call.parse? line = some call) :
    ¬Addon.IsMark line := by
  have hkind := kind_of_call h
  rintro ⟨a, -, hmark | hmark⟩
  · simp [ofText_eq_addonEnter_iff.2 hmark, kind] at hkind
  · simp [ofText_eq_addonExit_iff.2 hmark, kind] at hkind

/-! ## Lines inside addon blocks -/

/-- Inside an addon block a line is a mark of that block or is kept as it stands. -/
theorem within_some_cases (current : Addon) (line : String) :
    (ofText line = .addonEnter current ∧ within (some current) line = .addonEnter current) ∨
      (ofText line = .addonExit current ∧ within (some current) line = .addonExit current) ∨
        ¬current.Marks line ∧ within (some current) line = .addonRaw line := by
  have hmarks : current.Marks line ↔
      ofText line = .addonEnter current ∨ ofText line = .addonExit current := by
    rw [ofText_eq_addonEnter_iff, ofText_eq_addonExit_iff]
    rfl
  rw [hmarks]
  cases hd : ofText line with
  | addonEnter a =>
    by_cases ha : a = current
    · subst ha
      exact Or.inl ⟨rfl, by simp [within, hd]⟩
    · exact Or.inr (Or.inr ⟨by simp [ha], by simp [within, hd, ha]⟩)
  | addonExit a =>
    by_cases ha : a = current
    · subst ha
      exact Or.inr (Or.inl ⟨rfl, by simp [within, hd]⟩)
    · exact Or.inr (Or.inr ⟨by simp [ha], by simp [within, hd, ha]⟩)
  | _ => exact Or.inr (Or.inr ⟨by simp, by simp [within, hd]⟩)

/-- A line is read as a call only outside addon blocks. -/
theorem exists_call_of_kind {block : Option Addon} {line : String}
    (h : (within block line).kind = .call) :
    block = none ∧ ∃ call, Call.parse? line = some call := by
  cases block with
  | none => exact ⟨rfl, exists_call_of_ofText h⟩
  | some current =>
    rcases within_some_cases current line with ⟨-, hd⟩ | ⟨-, hd⟩ | ⟨-, hd⟩
    · simp [hd, kind] at h
    · simp [hd, kind] at h
    · simp [hd, kind] at h

/-- Inside an addon block a line that is no mark of the block is kept as it stands. -/
theorem within_of_not_marks {a : Addon} (h : ¬a.Marks line) :
    within (some a) line = .addonRaw line := by
  rcases within_some_cases a line with ⟨hof, -⟩ | ⟨hof, -⟩ | ⟨-, hd⟩
  · exact absurd (Or.inl (ofText_eq_addonEnter_iff.1 hof)) h
  · exact absurd (Or.inr (ofText_eq_addonExit_iff.1 hof)) h
  · exact hd

/-- No other line is kept as it stands. -/
theorem kind_within_eq_addonRaw_iff {block : Option Addon} :
    (within block line).kind = .addonRaw ↔ ∃ a, block = some a ∧ ¬a.Marks line := by
  constructor
  · intro h
    cases block with
    | none =>
      cases hd : ofText line <;> rw [within, hd] at h <;> cases h
      exact absurd hd (ofText_ne_addonRaw _)
    | some a =>
      rcases within_some_cases a line with ⟨-, hd⟩ | ⟨-, hd⟩ | ⟨hmarks, -⟩
      · simp [hd, kind] at h
      · simp [hd, kind] at h
      · exact ⟨a, rfl, hmarks⟩
  · rintro ⟨a, rfl, hmarks⟩
    rw [within_of_not_marks hmarks]
    rfl

/-- A comment and a line that is kept as it stands are copied whole. -/
theorem text_of_within {block : Option Addon} {text : String}
    (h : within block line = .comment text ∨ within block line = .addonRaw text) : text = line := by
  cases block with
  | none =>
    rcases h with h | h
    · have hspelled : Spelled line (.comment text) := (ofText_eq_iff (by simp)).1 h
      exact hspelled.1
    · exact absurd h (ofText_ne_addonRaw text)
  | some a =>
    rcases within_some_cases a line with ⟨-, hd⟩ | ⟨-, hd⟩ | ⟨-, hd⟩
    · simp [hd] at h
    · simp [hd] at h
    · simpa [hd, eq_comm] using h

end Directive

/-- Only marks open and close addon blocks. -/
theorem Addon.after_of_not_isMark {block : Option Addon} {line : String}
    (h : ¬Addon.IsMark line) : Addon.after block line = block := by
  cases block with
  | none =>
    rw [Addon.after, Directive.within]
    cases hd : Directive.ofText line with
    | addonEnter a =>
      have hmarks : a.Marks line := Or.inl (Directive.ofText_eq_addonEnter_iff.1 hd)
      exact absurd hmarks.isMark h
    | addonExit a => rfl
    | _ => rfl
  | some a => rw [Addon.after, Directive.within_of_not_marks fun hmarks => h hmarks.isMark]; rfl

/-- An open block stays open up to its exit mark. -/
theorem Addon.after_of_not_exit {a : Addon} {text : String}
    (h : ¬a.exitMark.toList <+: text.toList) : Addon.after (some a) text = some a := by
  rcases Directive.within_some_cases a text with ⟨-, hd⟩ | ⟨hof, -⟩ | ⟨-, hd⟩
  · rw [Addon.after, hd]
    rfl
  · exact absurd (Directive.ofText_eq_addonExit_iff.1 hof) h
  · rw [Addon.after, hd]
    rfl

end ZScript
