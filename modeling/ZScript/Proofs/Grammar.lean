import Mathlib.Data.List.TakeWhile
import ZScript.Directive.Rules

/-!
# The grammar of lines

`Directive.Spelled` says of each directive how a line is written that is this directive : which
fixed texts stand in it, and what may stand between them. The readers of parts of a line find
exactly such parts (`Chars.literal?_eq_some_iff`, `Chars.identifier?_eq_some_iff`), so every rule of
the table is exact : it reads a line as a directive of its kind if and only if the line is spelled
so (`exact_of_mem_rules`).

The directives of different kinds open with texts none of which starts another
(`Kind.eq_of_lead_starts`), and calls with a character that starts none of them. A line is
therefore spelled like directives of one kind only (`Directive.Spelled.kind_unique`), and it does
not matter which rule is tried first.
-/

namespace ZScript

/-! ## Parts of a line -/

/-- A literal has some characters, none of them a double quote. -/
def IsLiteral (text : String) : Prop :=
  text ≠ "" ∧ '"' ∉ text.toList

/-- An identifier has a first character, and only characters that may follow it. -/
def IsIdentifier (name : String) : Prop :=
  ∃ c rest, name.toList = c :: rest ∧ isIdentStart c = true ∧ ∀ d ∈ rest, isIdentRest d = true

/-- A gap is made of spaces and tabs. -/
def IsGap (text : String) : Prop :=
  ∀ c ∈ text.toList, c = ' ' ∨ c = '\t'

namespace Chars

/-- A run of characters of one sort is as long as it can be. -/
theorem span_eq_iff {p : Char → Bool} {s run rest : List Char} :
    s.takeWhile p = run ∧ s.dropWhile p = rest ↔
      (∀ c ∈ run, p c = true) ∧ s = run ++ rest ∧ ∀ c ∈ rest.head?, p c = false := by
  constructor
  · rintro ⟨rfl, rfl⟩
    refine ⟨fun c hc => List.mem_takeWhile_imp hc, List.takeWhile_append_dropWhile.symm,
      fun c hc => ?_⟩
    have hhead := List.head?_dropWhile_not p s
    rw [Option.mem_def.1 hc] at hhead
    exact hhead
  · rintro ⟨hrun, rfl, hrest⟩
    rw [List.takeWhile_append_of_pos hrun, List.dropWhile_append_of_pos hrun]
    cases rest with
    | nil => simp
    | cons c rest => simp [hrest c (by simp)]

theorem prefix_toList_iff {lead line : String} :
    lead.toList <+: line.toList ↔ ∃ rest, line = lead ++ rest := by
  constructor
  · rintro ⟨rest, hrest⟩
    exact ⟨String.ofList rest, by rw [← String.toList_inj]; simp [hrest]⟩
  · rintro ⟨rest, rfl⟩
    exact ⟨rest.toList, by simp⟩

/-- The text that is read goes up to the first of the characters, or to the end. -/
theorem until?_eq_some_iff {stops s rest : List Char} {text : String} :
    until? stops s = some (text, rest) ↔ text ≠ "" ∧ (∀ c ∈ text.toList, c ∉ stops) ∧
      s = text.toList ++ rest ∧ ∀ c ∈ rest.head?, c ∈ stops := by
  have hspan := @span_eq_iff (fun c => !stops.contains c) s text.toList rest
  simp only [Bool.not_eq_true', Bool.not_eq_false', List.contains_eq_mem, decide_eq_false_iff_not,
    decide_eq_true_eq] at hspan
  simp only [until?, Option.ite_none_left_eq_some, Option.some.injEq, Prod.mk.injEq,
    List.contains_eq_mem, List.isEmpty_iff]
  constructor
  · rintro ⟨hne, rfl, hrest⟩
    exact ⟨by simpa using hne, hspan.1 ⟨by simp, hrest⟩⟩
  · rintro ⟨hne, htext⟩
    obtain ⟨htake, hdrop⟩ := hspan.2 htext
    rw [htake, hdrop, String.ofList_toList]
    exact ⟨by simpa using hne, rfl, rfl⟩

theorem literal?_eq_some_iff {s rest : List Char} {text : String} :
    literal? s = some (text, rest) ↔
      IsLiteral text ∧ s = text.toList ++ rest ∧ ∀ c ∈ rest.head?, c = '"' := by
  simp only [literal?, until?_eq_some_iff, List.mem_singleton, IsLiteral, List.forall_mem_ne',
    and_assoc]

theorem closedLiteral?_eq_some_iff {lead text : String} {s : List Char} :
    closedLiteral? lead s = some text ↔ IsLiteral text ∧ s = (lead ++ text ++ "\">").toList := by
  simp only [closedLiteral?, Option.bind_eq_bind, Option.bind_eq_some_iff, Prod.exists,
    after?_eq_some_iff, literal?_eq_some_iff, Option.ite_none_right_eq_some, Option.some.injEq,
    List.isEmpty_iff]
  constructor
  · rintro ⟨_, rfl, _, _, ⟨htext, rfl, -⟩, _, rfl, rfl, rfl⟩
    exact ⟨htext, by simp⟩
  · rintro ⟨htext, rfl⟩
    exact ⟨text.toList ++ "\">".toList, by simp, text, "\">".toList, ⟨htext, rfl, by simp⟩, [],
      by simp, rfl, rfl⟩

theorem expression?_eq_some_iff {lead text : String} {s : List Char} :
    expression? lead s = some text ↔ text ≠ "" ∧ s = (lead ++ text ++ "\">").toList := by
  simp only [expression?, Option.bind_eq_bind, Option.bind_eq_some_iff, after?_eq_some_iff,
    before?_eq_some_iff, Option.ite_none_left_eq_some, Option.some.injEq, List.isEmpty_iff]
  constructor
  · rintro ⟨_, rfl, expression, rfl, hne, rfl⟩
    exact ⟨by simpa using hne, by simp⟩
  · rintro ⟨hne, rfl⟩
    exact ⟨text.toList ++ "\">".toList, by simp, text.toList, rfl, by simpa using hne, by simp⟩

/-- The identifier that is read is as long as it can be. -/
theorem identifier?_eq_some_iff {name : String} {s rest : List Char} :
    identifier? s = some (name, rest) ↔ IsIdentifier name ∧ s = name.toList ++ rest ∧
      ∀ c ∈ rest.head?, isIdentRest c = false := by
  constructor
  · intro h
    cases s with
    | nil => cases h
    | cons c s =>
      simp only [identifier?, Option.ite_none_right_eq_some, Option.some.injEq,
        Prod.mk.injEq] at h
      obtain ⟨hc, rfl, hdrop⟩ := h
      obtain ⟨hrun, hsplit, hrest⟩ := span_eq_iff.1 ⟨rfl, hdrop⟩
      exact ⟨⟨c, s.takeWhile isIdentRest, by simp, hc, hrun⟩, by simp [← hsplit], hrest⟩
  · rintro ⟨⟨c, tail, hname, hc, htail⟩, rfl, hrest⟩
    obtain ⟨htake, hdrop⟩ := span_eq_iff.2 ⟨htail, rfl, hrest⟩
    rw [hname, List.cons_append, identifier?, if_pos hc, htake, hdrop, ← hname,
      String.ofList_toList]

theorem isIdentRest_of_isGap {c : Char} (h : isGap c = true) : isIdentRest c = false := by
  simp only [isGap, Bool.or_eq_true, beq_iff_eq] at h
  rcases h with rfl | rfl <;> decide

theorem isGap_iff {text : String} : IsGap text ↔ ∀ c ∈ text.toList, isGap c = true := by
  simp [IsGap, isGap]

/-- An identifier, a gap and the character that ends the gap. -/
theorem identifier?_gap_iff {name : String} {s r : List Char} {c : Char} (hgap : isGap c = false)
    (hrest : isIdentRest c = false) :
    (∃ rest, identifier? s = some (name, rest) ∧ rest.dropWhile isGap = c :: r) ↔
      IsIdentifier name ∧ ∃ gap, IsGap gap ∧ s = (name ++ gap).toList ++ c :: r := by
  constructor
  · rintro ⟨rest, hname, hdrop⟩
    obtain ⟨hident, rfl, -⟩ := identifier?_eq_some_iff.1 hname
    obtain ⟨hrun, hsplit, -⟩ := span_eq_iff.1 ⟨rfl, hdrop⟩
    refine ⟨hident, String.ofList (rest.takeWhile isGap), isGap_iff.2 (by simpa using hrun), ?_⟩
    rw [String.toList_append, String.toList_ofList, List.append_assoc, ← hsplit]
  · rintro ⟨hident, gap, hg, rfl⟩
    rw [isGap_iff] at hg
    refine ⟨gap.toList ++ c :: r, identifier?_eq_some_iff.2 ⟨hident, by simp, fun d hd => ?_⟩,
      (span_eq_iff.2 ⟨hg, rfl, by simpa using hgap⟩).2⟩
    cases hchars : gap.toList with
    | nil =>
      obtain rfl : c = d := by simpa [hchars] using hd
      exact hrest
    | cons e tail =>
      obtain rfl : e = d := by simpa [hchars] using hd
      exact isIdentRest_of_isGap (hg e (by simp [hchars]))

theorem callParts?_eq_some_iff {name : String} {s arguments : List Char} :
    callParts? s = some (name, arguments) ↔ IsIdentifier name ∧
      ∃ gap, IsGap gap ∧ s = (name ++ gap).toList ++ '(' :: (arguments ++ [')']) := by
  rw [← identifier?_gap_iff (by decide) (by decide)]
  simp only [callParts?, Option.bind_eq_bind, Option.bind_eq_some_iff, Option.pure_def,
    Option.some.injEq, Prod.mk.injEq, Prod.exists, after?_eq_some_iff, before?_eq_some_iff]
  constructor
  · rintro ⟨_, rest, hname, inner, hopen, _, rfl, rfl, rfl⟩
    exact ⟨rest, hname, hopen⟩
  · rintro ⟨rest, hname, hopen⟩
    exact ⟨name, rest, hname, _, hopen, arguments, rfl, rfl, rfl⟩

end Chars

/-! ## Directives spelled out -/

namespace Directive

/-- How a line is written that is the directive. No line is written as a raw line, which is one only
inside an addon block, and none as the unrecognized directive. -/
def Spelled (line : String) : Directive → Prop
  | printLiteral text => IsLiteral text ∧ line = "<print^set.index=\"" ++ text ++ "\">"
  | printExpr expression => expression ≠ "" ∧ line = "<print^set.incode=\"" ++ expression ++ "\">"
  | errorLiteral text => IsLiteral text ∧ line = "<error^set.index=\"" ++ text ++ "\">"
  | errorExpr expression => expression ≠ "" ∧ line = "<error^set.incode=\"" ++ expression ++ "\">"
  | alert text => IsLiteral text ∧ line = "<alert^class=\"" ++ text ++ "\">"
  | prompt target title =>
    IsIdentifier target ∧ IsLiteral title ∧ ∃ word ∈ ["title", "başlık"],
      line = "<prompt^set.index=\"" ++ target ++ "\"&" ++ word ++ "=\"" ++ title ++ "\">"
  | style selector property value =>
    IsLiteral selector ∧ IsLiteral property ∧ ':' ∉ property.toList ∧ IsLiteral value ∧
      line = "<ui.e^selector=\"" ++ selector ++ "\"&css=\"" ++ property ++ ":" ++ value ++ "\">"
  | assign target expression =>
    IsIdentifier target ∧ expression ≠ "" ∧ ∃ gap text, IsGap gap ∧ trim text = expression ∧
      line = "<set^" ++ target ++ gap ++ "=" ++ text ++ ">"
  | ifThen condition => condition ≠ "" ∧ line = "<if^set.incode=\"" ++ condition ++ "\">"
  | elseIf condition => condition ≠ "" ∧ line = "<else^if^set.incode=\"" ++ condition ++ "\">"
  | otherwise => line = "<else^set>"
  | endIf => line = "<end^if>"
  | forLoop header => header ≠ "" ∧ line = "<for^set.incode=\"" ++ header ++ "\">"
  | whileLoop condition => condition ≠ "" ∧ line = "<while^set.incode=\"" ++ condition ++ "\">"
  | endLoop => line = "<end^loop>"
  | addonEnter addon => ∃ rest, line = addon.enterMark ++ rest
  | addonExit addon => ∃ rest, line = addon.exitMark ++ rest
  | importUnit name =>
    IsLiteral name ∧ (∃ stem, stem ≠ "" ∧ name = stem ++ ".z") ∧
      line = "<import^z=\"" ++ name ++ "\">"
  | definitionStart => line = "<command^crt>"
  | definitionEnd => line = "<cmd^add>"
  | call name arguments =>
    IsIdentifier name ∧ ∃ gap, IsGap gap ∧ line = name ++ gap ++ "(" ++ arguments ++ ")"
  | comment text => text = line ∧ ∃ rest, line = "//" ++ rest ∨ line = "#" ++ rest
  | addonRaw _ | unrecognized => False

end Directive

/-! ## Exact rules -/

namespace Rule

/-- The rule reads a line as a directive of its kind if and only if the line is spelled so. -/
def Exact (r : Rule) : Prop :=
  ∀ line d, r.read line.toList = some d ↔ d.kind = r.kind ∧ d.Spelled line

theorem exact_exactly {text : String} {d : Directive} (hkind : ∀ d', d'.kind = d.kind → d' = d)
    (hspelled : ∀ line, d.Spelled line ↔ line = text) : (exactly text d).Exact := by
  intro line d'
  simp only [exactly, Option.ite_none_right_eq_some, Option.some.injEq, String.toList_inj]
  constructor
  · rintro ⟨hline, rfl⟩
    exact ⟨rfl, (hspelled line).2 hline⟩
  · rintro ⟨hk, hline⟩
    obtain rfl := hkind d' hk
    exact ⟨(hspelled line).1 hline, rfl⟩

theorem exact_map {α : Type} {kind : Kind} {read? : List Char → Option α} {directive : α → Directive}
    (hkind : ∀ d, d.kind = kind ↔ ∃ a, directive a = d)
    (hread : ∀ line a, read? line.toList = some a ↔ (directive a).Spelled line) :
    (Rule.mk kind fun s => (read? s).map directive).Exact := by
  intro line d
  simp only [Option.map_eq_some_iff, hread, hkind]
  constructor
  · rintro ⟨a, ha, rfl⟩
    exact ⟨⟨a, rfl⟩, ha⟩
  · rintro ⟨⟨a, rfl⟩, ha⟩
    exact ⟨a, ha, rfl⟩

theorem exact_literal {kind : Kind} {lead : String} {directive : String → Directive}
    (hkind : ∀ d, d.kind = kind ↔ ∃ text, directive text = d)
    (hspelled : ∀ line text, (directive text).Spelled line ↔
      IsLiteral text ∧ line = lead ++ text ++ "\">") : (literal kind lead directive).Exact :=
  exact_map hkind fun line text => by
    rw [Chars.closedLiteral?_eq_some_iff, String.toList_inj, hspelled]

theorem exact_expression {kind : Kind} {lead : String} {directive : String → Directive}
    (hkind : ∀ d, d.kind = kind ↔ ∃ text, directive text = d)
    (hspelled : ∀ line text, (directive text).Spelled line ↔
      text ≠ "" ∧ line = lead ++ text ++ "\">") : (expression kind lead directive).Exact :=
  exact_map hkind fun line text => by
    rw [Chars.expression?_eq_some_iff, String.toList_inj, hspelled]

theorem exact_marked {kind : Kind} {mark : Addon → String} {directive : Addon → Directive}
    (hkind : ∀ d, d.kind = kind ↔ ∃ a, directive a = d)
    (hspelled : ∀ line a, (directive a).Spelled line ↔ ∃ rest, line = mark a ++ rest)
    (hmarks : ∀ a b, (mark a).toList <+: (mark b).toList → a = b) :
    (marked kind mark directive).Exact := by
  intro line d
  have hstarts : ∀ a, (directive a).Spelled line ↔ (mark a).toList <+: line.toList := by
    intro a
    rw [hspelled, Chars.prefix_toList_iff]
  simp only [marked, Option.map_eq_some_iff, hkind]
  constructor
  · rintro ⟨m, hm, rfl⟩
    obtain ⟨a, -, rfl⟩ := List.mem_map.1 (List.mem_of_find?_eq_some hm)
    exact ⟨⟨a, rfl⟩, (hstarts a).2 (by simpa using List.find?_some hm)⟩
  · rintro ⟨⟨a, rfl⟩, ha⟩
    rw [hstarts] at ha
    have ham : (a, (mark a).toList) ∈ Addon.all.map fun a => (a, (mark a).toList) :=
      List.mem_map.2 ⟨a, by cases a <;> decide, rfl⟩
    cases hfind : (Addon.all.map fun a => (a, (mark a).toList)).find?
        fun m => m.2.isPrefixOf line.toList with
    | none => exact absurd (by simpa using ha) (List.find?_eq_none.1 hfind _ ham)
    | some m =>
      obtain ⟨b, -, rfl⟩ := List.mem_map.1 (List.mem_of_find?_eq_some hfind)
      have hb : (mark b).toList <+: line.toList := by simpa using List.find?_some hfind
      refine ⟨_, rfl, ?_⟩
      rcases List.prefix_or_prefix_of_prefix ha hb with h | h
      · rw [hmarks a b h]
      · rw [hmarks b a h]

theorem isUnitName_iff {name : String} :
    isUnitName name = true ↔ ∃ stem, stem ≠ "" ∧ name = stem ++ ".z" := by
  simp only [isUnitName, Option.any_eq_true, Chars.before?_eq_some_iff]
  constructor
  · rintro ⟨stem, hname, hstem⟩
    refine ⟨String.ofList stem, by simpa using hstem, ?_⟩
    rw [← String.toList_inj, hname]
    simp
  · rintro ⟨stem, hstem, rfl⟩
    exact ⟨stem.toList, String.toList_append, by simpa using hstem⟩

/-- The title of a question, behind either of the two words for it. -/
theorem title_eq_some_iff {title : String} {s : List Char} :
    (Chars.closedLiteral? "\"&title=\"" s <|> Chars.closedLiteral? "\"&başlık=\"" s) = some title ↔
      IsLiteral title ∧ ∃ word ∈ ["title", "başlık"],
        s = ("\"&" ++ word ++ "=\"" ++ title ++ "\">").toList := by
  rw [Option.orElse_eq_orElse, Option.orElse_eq_or, Option.or_eq_some_iff]
  simp only [Chars.closedLiteral?_eq_some_iff]
  constructor
  · rintro (⟨htitle, rfl⟩ | ⟨-, htitle, rfl⟩)
    · exact ⟨htitle, "title", by simp, rfl⟩
    · exact ⟨htitle, "başlık", by simp, rfl⟩
  · rintro ⟨htitle, word, hword, rfl⟩
    simp only [List.mem_cons, List.not_mem_nil, or_false] at hword
    rcases hword with rfl | rfl
    · exact Or.inl ⟨htitle, rfl⟩
    · refine Or.inr ⟨Option.eq_none_iff_forall_ne_some.2 fun other hother => ?_, htitle, rfl⟩
      obtain ⟨-, h⟩ := Chars.closedLiteral?_eq_some_iff.1 hother
      simp at h

theorem exact_prompt : prompt.Exact := by
  intro line d
  simp only [prompt, Option.bind_eq_bind, Option.bind_eq_some_iff, Option.pure_def,
    Option.some.injEq, Prod.exists, Chars.after?_eq_some_iff, Chars.identifier?_eq_some_iff,
    title_eq_some_iff]
  constructor
  · rintro ⟨s, hs, target, rest, ⟨htarget, rfl, -⟩, title, ⟨htitle, word, hword, rfl⟩, rfl⟩
    refine ⟨rfl, htarget, htitle, word, hword, ?_⟩
    rw [← String.toList_inj, hs]
    simp
  · rintro ⟨hk, hspelled⟩
    cases d <;> cases hk
    rename_i target title
    obtain ⟨htarget, htitle, word, hword, rfl⟩ := hspelled
    refine ⟨(target ++ ("\"&" ++ word ++ "=\"" ++ title ++ "\">")).toList, by simp, target, _,
      ⟨htarget, String.toList_append, ?_⟩, title, ⟨htitle, word, hword, rfl⟩, rfl⟩
    intro c hc
    obtain rfl : '"' = c := by simpa using hc
    decide

theorem exact_style : style.Exact := by
  intro line d
  simp only [style, Option.bind_eq_bind, Option.bind_eq_some_iff, Option.pure_def,
    Option.some.injEq, Prod.exists, Chars.after?_eq_some_iff, Chars.literal?_eq_some_iff,
    Chars.until?_eq_some_iff, Chars.closedLiteral?_eq_some_iff]
  constructor
  · rintro ⟨_, hline, selector, _, ⟨hselector, rfl, -⟩, _, rfl, property, _,
      ⟨hproperty, hstops, rfl, -⟩, value, ⟨hvalue, rfl⟩, rfl⟩
    simp only [List.mem_cons, List.not_mem_nil, or_false, not_or, forall₂_and,
      List.forall_mem_ne'] at hstops
    refine ⟨rfl, hselector, ⟨hproperty, hstops.2⟩, hstops.1, hvalue, ?_⟩
    rw [← String.toList_inj, hline]
    simp
  · rintro ⟨hk, hspelled⟩
    cases d <;> cases hk
    rename_i selector property value
    obtain ⟨hselector, ⟨hproperty, hquote⟩, hcolon, hvalue, rfl⟩ := hspelled
    have hstops : ∀ c ∈ property.toList, c ∉ [':', '"'] := by
      simpa [forall₂_and, List.forall_mem_ne'] using ⟨hcolon, hquote⟩
    exact ⟨(selector ++ ("\"&css=\"" ++ property ++ ":" ++ value ++ "\">")).toList, by simp,
      selector, _, ⟨hselector, String.toList_append, by simp⟩,
      (property ++ (":" ++ value ++ "\">")).toList, by simp,
      property, _, ⟨hproperty, hstops, String.toList_append, by simp⟩,
      value, ⟨hvalue, rfl⟩, rfl⟩

theorem exact_assign : assign.Exact := by
  intro line d
  simp only [assign, Option.bind_eq_bind, Option.bind_eq_some_iff, Option.pure_def,
    Option.ite_none_left_eq_some, Option.some.injEq, Prod.exists, Chars.after?_eq_some_iff,
    Chars.before?_eq_some_iff]
  constructor
  · rintro ⟨s, hs, target, rest, hname, _, hopen, text, rfl, hne, rfl⟩
    obtain ⟨htarget, gap, hgap, rfl⟩ :=
      (Chars.identifier?_gap_iff (c := '=') (by decide) (by decide)).1 ⟨rest, hname, hopen⟩
    refine ⟨rfl, htarget, ?_, gap, String.ofList text, hgap, ?_, ?_⟩
    · simpa using hne
    · rw [trim, String.toList_ofList]
    · rw [← String.toList_inj, hs]
      simp
  · rintro ⟨hk, hspelled⟩
    cases d <;> cases hk
    obtain ⟨htarget, hne, gap, text, hgap, rfl, rfl⟩ := hspelled
    obtain ⟨rest, hname, hopen⟩ :=
      (Chars.identifier?_gap_iff (c := '=') (r := text.toList ++ ">".toList) (by decide)
        (by decide)).2 ⟨htarget, gap, hgap, rfl⟩
    exact ⟨_, by simp [String.toList_append], _, rest, hname, _, hopen, text.toList, rfl,
      by simpa [trim] using hne, rfl⟩

theorem exact_importUnit : importUnit.Exact := by
  refine exact_map (fun d => by cases d <;> simp [Directive.kind]) fun line name => ?_
  rw [Option.filter_eq_some_iff, Chars.closedLiteral?_eq_some_iff, String.toList_inj,
    isUnitName_iff]
  exact ⟨fun ⟨⟨hname, hline⟩, hstem⟩ => ⟨hname, hstem, hline⟩,
    fun ⟨hname, hstem, hline⟩ => ⟨⟨hname, hline⟩, hstem⟩⟩

theorem exact_comment : comment.Exact := by
  intro line d
  have hstart : ∀ lead, (Chars.after? lead line.toList).isSome = true ↔
      ∃ rest, line = lead ++ rest := by
    intro lead
    rw [Option.isSome_iff_exists, ← Chars.prefix_toList_iff]
    exact exists_congr fun rest => Chars.after?_eq_some_iff.trans eq_comm
  simp only [comment, Option.ite_none_right_eq_some, Option.some.injEq, Bool.or_eq_true, hstart,
    ← exists_or, String.ofList_toList]
  constructor
  · rintro ⟨hline, rfl⟩
    exact ⟨rfl, rfl, hline⟩
  · rintro ⟨hk, hspelled⟩
    cases d <;> cases hk
    exact ⟨hspelled.2, congrArg Directive.comment hspelled.1.symm⟩

theorem exact_call : call.Exact := by
  refine exact_map (fun d => ?_) fun line parts => ?_
  · cases d <;> simp [Directive.kind]
    rename_i name arguments
    exact ⟨arguments.toList, String.ofList_toList⟩
  · obtain ⟨name, arguments⟩ := parts
    rw [Chars.callParts?_eq_some_iff]
    refine and_congr_right fun _ => exists_congr fun gap => and_congr_right fun _ => ?_
    rw [← String.toList_inj]
    simp

end Rule

open Rule in
/-- Every rule of the table is exact. -/
theorem exact_of_mem_rules : ∀ r ∈ rules, r.Exact := by
  simp only [rules, List.forall_mem_cons, List.not_mem_nil, false_implies, implies_true, and_true]
  refine ⟨exact_marked ?_ (fun _ _ => Iff.rfl) fun a b => by cases a <;> cases b <;> decide,
    exact_marked ?_ (fun _ _ => Iff.rfl) fun a b => by cases a <;> cases b <;> decide,
    exact_exactly ?_ fun _ => Iff.rfl, exact_exactly ?_ fun _ => Iff.rfl,
    exact_literal ?_ fun _ _ => Iff.rfl, exact_expression ?_ fun _ _ => Iff.rfl,
    exact_literal ?_ fun _ _ => Iff.rfl, exact_expression ?_ fun _ _ => Iff.rfl,
    exact_literal ?_ fun _ _ => Iff.rfl, exact_prompt, exact_style, exact_assign,
    exact_expression ?_ fun _ _ => Iff.rfl, exact_expression ?_ fun _ _ => Iff.rfl,
    exact_exactly ?_ fun _ => Iff.rfl, exact_exactly ?_ fun _ => Iff.rfl,
    exact_expression ?_ fun _ _ => Iff.rfl, exact_expression ?_ fun _ _ => Iff.rfl,
    exact_exactly ?_ fun _ => Iff.rfl, exact_importUnit, exact_comment, exact_call⟩
  all_goals
    intro d
    cases d <;> simp [Directive.kind]

/-! ## How lines open -/

namespace Kind

/-- The texts one of which a line of the kind starts with, for all kinds but calls. -/
def leads : Kind → List String
  | printLiteral => ["<print^set.index=\""]
  | printExpr => ["<print^set.incode=\""]
  | errorLiteral => ["<error^set.index=\""]
  | errorExpr => ["<error^set.incode=\""]
  | alert => ["<alert^class=\""]
  | prompt => ["<prompt^set.index=\""]
  | style => ["<ui.e^selector=\""]
  | assign => ["<set^"]
  | ifThen => ["<if^set.incode=\""]
  | elseIf => ["<else^if^set.incode=\""]
  | otherwise => ["<else^set>"]
  | endIf => ["<end^if>"]
  | forLoop => ["<for^set.incode=\""]
  | whileLoop => ["<while^set.incode=\""]
  | endLoop => ["<end^loop>"]
  | addonEnter => Addon.all.map Addon.enterMark
  | addonExit => Addon.all.map Addon.exitMark
  | importUnit => ["<import^z=\""]
  | definitionStart => ["<command^crt>"]
  | definitionEnd => ["<cmd^add>"]
  | comment => ["//", "#"]
  | call | addonRaw | unrecognized => []

/-- The text starts as a line of the kind does. -/
def Opens (k : Kind) (line : String) : Prop :=
  (∃ lead ∈ k.leads, ∃ rest, line = lead ++ rest) ∨
    k = .call ∧ ∃ c ∈ line.toList.head?, isIdentStart c = true

/-- No lead starts the lead of another kind. -/
theorem eq_of_lead_starts {k k' : Kind} {lead lead' : String} (h : lead ∈ k.leads)
    (h' : lead' ∈ k'.leads) (hstarts : lead.toList <+: lead'.toList) : k = k' := by
  have key : ∀ k ∈ all, ∀ k' ∈ all, ∀ lead ∈ k.leads, ∀ lead' ∈ k'.leads,
      lead.toList <+: lead'.toList → k = k' := by
    decide +kernel
  exact key k (mem_all k) k' (mem_all k') lead h lead' h' hstarts

/-- No lead starts like an identifier. -/
theorem isIdentStart_eq_false_of_lead {k : Kind} {lead rest : String} {c : Char}
    (h : lead ∈ k.leads) (hc : c ∈ (lead ++ rest).toList.head?) : isIdentStart c = false := by
  have key : ∀ k ∈ all, ∀ lead ∈ k.leads, lead.toList.head?.map isIdentStart = some false := by
    decide +kernel
  obtain ⟨c', hc', hstart⟩ := Option.map_eq_some_iff.1 (key k (mem_all k) lead h)
  obtain rfl : c' = c := by
    simpa [String.toList_append, List.head?_append, hc'] using hc
  exact hstart

theorem Opens.unique {k k' : Kind} {line : String} (h : k.Opens line) (h' : k'.Opens line) :
    k = k' := by
  rcases h with ⟨lead, hlead, hline⟩ | ⟨rfl, c, hc, hstart⟩
  · rcases h' with ⟨lead', hlead', hline'⟩ | ⟨rfl, c, hc, hstart⟩
    · rw [← Chars.prefix_toList_iff] at hline hline'
      rcases List.prefix_or_prefix_of_prefix hline hline' with hstarts | hstarts
      · exact eq_of_lead_starts hlead hlead' hstarts
      · exact (eq_of_lead_starts hlead' hlead hstarts).symm
    · obtain ⟨rest, rfl⟩ := hline
      simp [isIdentStart_eq_false_of_lead hlead hc] at hstart
  · rcases h' with ⟨lead', hlead', rest', rfl⟩ | ⟨rfl, -⟩
    · simp [isIdentStart_eq_false_of_lead hlead' hc] at hstart
    · rfl

end Kind

namespace Directive

variable {line : String} {d d' : Directive}

theorem Spelled.opens (h : d.Spelled line) : d.kind.Opens line := by
  cases d with
  | addonRaw text | unrecognized => cases h
  | printLiteral text | errorLiteral text | alert text | printExpr text | errorExpr text
  | ifThen text | elseIf text | forLoop text | whileLoop text =>
    obtain ⟨-, rfl⟩ := h
    exact Or.inl ⟨_, List.mem_singleton_self _, _, String.append_assoc⟩
  | otherwise | endIf | endLoop | definitionStart | definitionEnd =>
    obtain rfl := h
    exact Or.inl ⟨_, List.mem_singleton_self _, "", String.append_empty.symm⟩
  | addonEnter a | addonExit a =>
    obtain ⟨rest, rfl⟩ := h
    exact Or.inl ⟨_, List.mem_map_of_mem (by cases a <;> decide), rest, rfl⟩
  | prompt target title =>
    obtain ⟨-, -, word, -, rfl⟩ := h
    exact Or.inl ⟨_, List.mem_singleton_self _, target ++ "\"&" ++ word ++ "=\"" ++ title ++ "\">",
      by simp only [String.append_assoc]⟩
  | style selector property value =>
    obtain ⟨-, -, -, -, rfl⟩ := h
    exact Or.inl ⟨_, List.mem_singleton_self _,
      selector ++ "\"&css=\"" ++ property ++ ":" ++ value ++ "\">", by simp only [String.append_assoc]⟩
  | assign target expression =>
    obtain ⟨-, -, gap, text, -, -, rfl⟩ := h
    exact Or.inl ⟨_, List.mem_singleton_self _, target ++ gap ++ "=" ++ text ++ ">",
      by simp only [String.append_assoc]⟩
  | importUnit name =>
    obtain ⟨-, -, rfl⟩ := h
    exact Or.inl ⟨_, List.mem_singleton_self _, _, String.append_assoc⟩
  | comment text =>
    obtain ⟨-, rest, rfl | rfl⟩ := h
    · exact Or.inl ⟨"//", by simp [kind, Kind.leads], rest, rfl⟩
    · exact Or.inl ⟨"#", by simp [kind, Kind.leads], rest, rfl⟩
  | call name arguments =>
    obtain ⟨⟨c, rest, hname, hstart, -⟩, gap, -, rfl⟩ := h
    exact Or.inr ⟨rfl, c, by simp [hname], hstart⟩

/-- A line is spelled like directives of one kind only. -/
theorem Spelled.kind_unique (h : d.Spelled line) (h' : d'.Spelled line) : d.kind = d'.kind :=
  h.opens.unique h'.opens

/-! ## Reading a line -/

/-- A line that a rule reads is spelled as the directive that it is. -/
theorem spelled_of_ofText (h : ofText line ≠ .unrecognized) : (ofText line).Spelled line := by
  cases hread : rules.findSome? (·.read line.toList) with
  | none => simp [ofText, hread] at h
  | some d =>
    obtain ⟨r, hr, hd⟩ := List.exists_of_findSome?_eq_some hread
    have hof : ofText line = d := by simp [ofText, hread]
    rw [hof]
    exact ((exact_of_mem_rules r hr line d).1 hd).2

/-- There is a rule for every kind of which lines can be spelled. -/
theorem Spelled.exists_rule (h : d.Spelled line) : ∃ r ∈ rules, r.kind = d.kind := by
  have key : ∀ k ∈ Kind.all, k = .addonRaw ∨ k = .unrecognized ∨ k ∈ rules.map Rule.kind := by
    decide
  rcases key d.kind (Kind.mem_all _) with hk | hk | hk
  · cases d <;> cases hk
    cases h
  · cases d <;> cases hk
    cases h
  · exact List.mem_map.1 hk

/-- A line that is spelled as a directive is read so, whichever rule reads it. -/
theorem Spelled.ofText_eq (h : d.Spelled line) : ofText line = d := by
  obtain ⟨r, hr, hk⟩ := h.exists_rule
  have hread : r.read line.toList = some d := (exact_of_mem_rules r hr line d).2 ⟨hk.symm, h⟩
  cases hfind : rules.findSome? (·.read line.toList) with
  | none => simp [List.findSome?_eq_none_iff.1 hfind r hr] at hread
  | some d' =>
    obtain ⟨r', hr', hread'⟩ := List.exists_of_findSome?_eq_some hfind
    obtain ⟨hk', h'⟩ := (exact_of_mem_rules r' hr' line d').1 hread'
    have hd : r'.read line.toList = some d :=
      (exact_of_mem_rules r' hr' line d).2 ⟨(h.kind_unique h').trans hk', h⟩
    obtain rfl : d' = d := Option.some.inj (hread'.symm.trans hd)
    simp [ofText, hfind]

theorem ofText_eq_iff (hd : d ≠ .unrecognized) : ofText line = d ↔ d.Spelled line :=
  ⟨fun h => h ▸ spelled_of_ofText (h ▸ hd), Spelled.ofText_eq⟩

/-- A line is read as a directive if and only if it is spelled so, and as unrecognized if and only
if it is spelled like no directive. -/
theorem ofText_eq_iff_spelled (line : String) (d : Directive) :
    ofText line = d ↔ d.Spelled line ∨ d = .unrecognized ∧ ∀ d', ¬Spelled line d' := by
  by_cases hd : d = .unrecognized
  · subst hd
    constructor
    · intro h
      refine Or.inr ⟨rfl, fun d' h' => ?_⟩
      obtain rfl := h'.ofText_eq.symm.trans h
      exact h'
    · rintro (h | ⟨-, h⟩)
      · cases h
      · by_contra hne
        exact h _ (spelled_of_ofText hne)
  · rw [ofText_eq_iff hd]
    simp [hd]

end Directive

end ZScript
