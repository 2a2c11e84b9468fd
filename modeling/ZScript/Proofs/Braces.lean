import Mathlib.Algebra.Ring.Int.Defs
import ZScript.Proofs.CodeLines

/-!
# Braces in the code and statements in the script

The code of a conditional or a loop opens a brace, the code of its end closes one, and a branch closes
one and opens the next (`Directive.braces`). If the lines have no braces of their own, these are all
the braces of the code, in order (`Script.filter_isBrace_code`).

Whether braces are balanced depends on them alone (`Chars.balanced_filter_iff`). Both the braces of a
text and the statements of a script are followed by a number that starts at the depth of what stands
before them, and the two numbers agree after every directive (`Chars.staysOpen_flatMap_braces`). A
branch goes down by one and up again within its line, and this is why something has to be open there.
-/

namespace ZScript

/-! ## Balanced braces -/

/-- Whether a character is a brace. -/
def isBrace (c : Char) : Bool :=
  c == '\x7b' || c == '\x7d'

namespace Chars

/-- Every prefix has at least as many opening braces as closing ones, and the text has as many. -/
def Balanced (s : List Char) : Prop :=
  (∀ p, p <+: s → p.count '\x7d' ≤ p.count '\x7b') ∧ s.count '\x7b' = s.count '\x7d'

/-- The number of braces that a text opens and does not close. It is negative if more are closed. -/
def openBraces (s : List Char) : Int :=
  s.count '\x7b' - s.count '\x7d'

/-- Where `n` braces are open before a text, no prefix of it closes more than are open. -/
def StaysOpen (n : Int) (s : List Char) : Prop :=
  ∀ p, p <+: s → 0 ≤ n + openBraces p

variable {n : Int} {c : Char} {s t : List Char}

theorem balanced_iff : Balanced s ↔ StaysOpen 0 s ∧ openBraces s = 0 := by
  have hcount : ∀ p : List Char, 0 ≤ 0 + openBraces p ↔ p.count '\x7d' ≤ p.count '\x7b' := by
    intro p
    unfold openBraces
    omega
  have htotal : openBraces s = 0 ↔ s.count '\x7b' = s.count '\x7d' := by
    unfold openBraces
    omega
  simp only [Balanced, StaysOpen, hcount, htotal]

theorem openBraces_append (s t : List Char) :
    openBraces (s ++ t) = openBraces s + openBraces t := by
  simp only [openBraces, List.count_append]
  omega

theorem openBraces_cons (c : Char) (s : List Char) :
    openBraces (c :: s) = openBraces [c] + openBraces s :=
  openBraces_append [c] s

theorem staysOpen_nil : StaysOpen n [] ↔ 0 ≤ n := by
  simp [StaysOpen, openBraces]

theorem staysOpen_cons : StaysOpen n (c :: s) ↔ 0 ≤ n ∧ StaysOpen (n + openBraces [c]) s := by
  constructor
  · intro h
    refine ⟨by simpa [openBraces] using h [] (List.nil_prefix ..), fun p hp => ?_⟩
    have hp' := h (c :: p) (List.cons_prefix_cons.2 ⟨rfl, hp⟩)
    rwa [openBraces_cons, ← Int.add_assoc] at hp'
  · rintro ⟨hn, h⟩ p hp
    rcases List.prefix_cons_iff.1 hp with rfl | ⟨q, rfl, hq⟩
    · simpa [openBraces] using hn
    · rw [openBraces_cons, ← Int.add_assoc]
      exact h q hq

theorem StaysOpen.nonneg (h : StaysOpen n s) : 0 ≤ n := by
  simpa [openBraces] using h [] (List.nil_prefix ..)

theorem staysOpen_append :
    StaysOpen n (s ++ t) ↔ StaysOpen n s ∧ StaysOpen (n + openBraces s) t := by
  induction s generalizing n with
  | nil =>
    rw [List.nil_append, staysOpen_nil, openBraces, List.count_nil, List.count_nil]
    simpa using StaysOpen.nonneg
  | cons c s ih =>
    rw [List.cons_append, staysOpen_cons, staysOpen_cons, ih, openBraces_cons c s, and_assoc,
      Int.add_assoc]

theorem StaysOpen.mono {m : Int} (h : StaysOpen n s) (hm : n ≤ m) : StaysOpen m s := by
  intro p hp
  have hp' := h p hp
  omega

/-- Only the braces of a text count. -/
theorem openBraces_filter (s : List Char) : openBraces (s.filter isBrace) = openBraces s := by
  simp [openBraces, List.count_filter, isBrace]

theorem staysOpen_filter_iff : StaysOpen n (s.filter isBrace) ↔ StaysOpen n s := by
  induction s generalizing n with
  | nil => rfl
  | cons c s ih =>
    cases hc : isBrace c with
    | true => rw [List.filter_cons_of_pos hc, staysOpen_cons, staysOpen_cons, ih]
    | false =>
      have hzero : openBraces [c] = 0 := by
        rw [← openBraces_filter]
        simp [hc, openBraces]
      rw [List.filter_cons_of_neg (by simp [hc]), staysOpen_cons, hzero, Int.add_zero, ih]
      exact ⟨fun h => ⟨h.nonneg, h⟩, And.right⟩

theorem balanced_filter_iff : Balanced (s.filter isBrace) ↔ Balanced s := by
  rw [balanced_iff, balanced_iff, staysOpen_filter_iff, openBraces_filter]

/-- Balanced braces are balanced between two braces. -/
theorem Balanced.between (h : Balanced s) : Balanced ('\x7b' :: (s ++ ['\x7d'])) := by
  obtain ⟨hopen, htotal⟩ := balanced_iff.1 h
  refine balanced_iff.2 ⟨?_, ?_⟩
  · rw [staysOpen_cons, staysOpen_append, htotal, staysOpen_cons, staysOpen_nil]
    exact ⟨Int.le_refl 0, hopen.mono (by decide), by decide⟩
  · rw [openBraces_cons, openBraces_append, htotal]
    decide

end Chars

/-! ## Nested statements -/

namespace Directive

/-- The braces that a directive writes. -/
def braces : Directive → List Char
  | ifThen _ | forLoop _ | whileLoop _ => ['\x7b']
  | endIf | endLoop => ['\x7d']
  | elseIf _ | otherwise => ['\x7d', '\x7b']
  | _ => []

/-- By how many a directive raises the number of open statements. -/
def opens : Directive → Int
  | ifThen _ | forLoop _ | whileLoop _ => 1
  | endIf | endLoop => -1
  | _ => 0

/-- Whether a directive is a further branch of a conditional. -/
def isBranch : Directive → Bool
  | elseIf _ | otherwise => true
  | _ => false

end Directive

/-- The number of statements that directives leave open. It is negative if more are closed. -/
def openStatements (ds : List Directive) : Int :=
  (ds.map Directive.opens).sum

/-- Statements are closed only where some are open, every branch stands in one, and none is left
open. -/
structure WellNested (ds : List Directive) : Prop where
  nonneg : ∀ before, before <+: ds → 0 ≤ openStatements before
  branch : ∀ before d after, ds = before ++ d :: after → d.isBranch = true →
    1 ≤ openStatements before
  closed : openStatements ds = 0

/-- The same of directives with `n` open statements before them, which may leave some open. -/
structure NestedFrom (n : Int) (ds : List Directive) : Prop where
  nonneg : ∀ before, before <+: ds → 0 ≤ n + openStatements before
  branch : ∀ before d after, ds = before ++ d :: after → d.isBranch = true →
    1 ≤ n + openStatements before

theorem wellNested_iff {ds : List Directive} :
    WellNested ds ↔ NestedFrom 0 ds ∧ openStatements ds = 0 := by
  constructor
  · intro h
    exact ⟨⟨by simpa using h.nonneg, by simpa using h.branch⟩, h.closed⟩
  · rintro ⟨h, hclosed⟩
    exact ⟨by simpa using h.nonneg, by simpa using h.branch, hclosed⟩

section

variable {n : Int} {d : Directive} {ds : List Directive}

theorem openStatements_cons : openStatements (d :: ds) = d.opens + openStatements ds := by
  simp [openStatements]

theorem NestedFrom.start_nonneg (h : NestedFrom n ds) : 0 ≤ n := by
  simpa [openStatements] using h.nonneg [] (List.nil_prefix ..)

theorem nestedFrom_nil : NestedFrom n [] ↔ 0 ≤ n :=
  ⟨NestedFrom.start_nonneg, fun h => ⟨by simpa [openStatements] using h, by simp⟩⟩

theorem nestedFrom_cons : NestedFrom n (d :: ds) ↔
    0 ≤ n ∧ (d.isBranch = true → 1 ≤ n) ∧ NestedFrom (n + d.opens) ds := by
  constructor
  · intro h
    refine ⟨h.start_nonneg,
      fun hd => by simpa [openStatements] using h.branch [] d ds rfl hd,
      fun before hbefore => ?_, fun before d' after hds hd' => ?_⟩
    · have hcons := h.nonneg (d :: before) (List.cons_prefix_cons.2 ⟨rfl, hbefore⟩)
      rwa [openStatements_cons, ← Int.add_assoc] at hcons
    · have hcons := h.branch (d :: before) d' after (by rw [hds]; rfl) hd'
      rwa [openStatements_cons, ← Int.add_assoc] at hcons
  · rintro ⟨hn, hd, h⟩
    refine ⟨fun before hbefore => ?_, fun before d' after hds hd' => ?_⟩
    · rcases List.prefix_cons_iff.1 hbefore with rfl | ⟨rest, rfl, hrest⟩
      · simpa [openStatements] using hn
      · rw [openStatements_cons, ← Int.add_assoc]
        exact h.nonneg rest hrest
    · rcases List.cons_eq_append_iff.1 hds with ⟨rfl, hfirst⟩ | ⟨rest, rfl, hrest⟩
      · obtain ⟨rfl, -⟩ := List.cons.inj hfirst
        simpa [openStatements] using hd hd'
      · rw [openStatements_cons, ← Int.add_assoc]
        exact h.branch rest d' after hrest hd'

instance decidableNestedFrom : (n : Int) → (ds : List Directive) → Decidable (NestedFrom n ds)
  | _, [] => decidable_of_iff _ nestedFrom_nil.symm
  | n, d :: ds =>
    have := decidableNestedFrom (n + d.opens) ds
    decidable_of_iff _ nestedFrom_cons.symm

instance (ds : List Directive) : Decidable (WellNested ds) :=
  decidable_of_iff _ wellNested_iff.symm

theorem Directive.openBraces_braces (d : Directive) : Chars.openBraces d.braces = d.opens := by
  cases d <;> rfl

/-- The braces of a directive close none that is not open if the directive may stand there. -/
theorem Directive.staysOpen_braces (d : Directive) :
    Chars.StaysOpen n d.braces ↔ 0 ≤ n ∧ (d.isBranch = true → 1 ≤ n) ∧ 0 ≤ n + d.opens := by
  have hopen : Chars.openBraces ['\x7b'] = 1 := rfl
  have hclose : Chars.openBraces ['\x7d'] = -1 := rfl
  cases d with
  | ifThen | forLoop | whileLoop | endIf | endLoop =>
    simp [braces, isBranch, opens, Chars.staysOpen_cons, Chars.staysOpen_nil, hopen, hclose]
  | elseIf | otherwise =>
    simp only [braces, isBranch, opens, Chars.staysOpen_cons, Chars.staysOpen_nil, hopen, hclose,
      forall_const]
    omega
  | _ => simp [braces, isBranch, opens, Chars.staysOpen_nil]

/-- The braces of directives and their statements are open and closed together. -/
theorem Chars.staysOpen_flatMap_braces :
    Chars.StaysOpen n (ds.flatMap Directive.braces) ↔ NestedFrom n ds := by
  induction ds generalizing n with
  | nil => rw [List.flatMap_nil, staysOpen_nil, nestedFrom_nil]
  | cons d ds ih =>
    rw [List.flatMap_cons, staysOpen_append, d.staysOpen_braces, d.openBraces_braces, ih,
      nestedFrom_cons]
    -- What may stand behind the directive starts at its depth, so this is not negative.
    constructor
    · rintro ⟨⟨hn, hd, -⟩, h⟩
      exact ⟨hn, hd, h⟩
    · rintro ⟨hn, hd, h⟩
      exact ⟨⟨hn, hd, h.start_nonneg⟩, h⟩

theorem Chars.openBraces_flatMap_braces :
    Chars.openBraces (ds.flatMap Directive.braces) = openStatements ds := by
  induction ds with
  | nil => rfl
  | cons d ds ih =>
    rw [List.flatMap_cons, openBraces_append, d.openBraces_braces, ih, openStatements_cons]

theorem Chars.balanced_flatMap_braces :
    Chars.Balanced (ds.flatMap Directive.braces) ↔ WellNested ds := by
  rw [balanced_iff, staysOpen_flatMap_braces, openBraces_flatMap_braces, wellNested_iff]

end

/-! ## The braces of the code -/

/-- The text has no braces. -/
def Braceless (text : String) : Prop :=
  ∀ c ∈ text.toList, isBrace c = false

instance (text : String) : Decidable (Braceless text) :=
  List.decidableBAll _ text.toList

theorem Braceless.filter_eq {text : String} (h : Braceless text) :
    text.toList.filter isBrace = [] :=
  List.filter_eq_nil_iff.2 fun c hc => by simp [h c hc]

theorem isBrace_of_isUpper {c : Char} (h : c.isUpper = true) : isBrace c = false := by
  cases hc : isBrace c with
  | false => rfl
  | true =>
    simp only [isBrace, Bool.or_eq_true, beq_iff_eq] at hc
    rcases hc with rfl | rfl <;> exact absurd h (by decide)

theorem braceless_camelCase {property : String} (h : Braceless property) :
    Braceless (camelCase property) := by
  intro c hc
  rcases mem_camelCase hc with hc | hc
  · exact h c hc
  · exact isBrace_of_isUpper hc

theorem braceless_commentText {text : String} (h : Braceless text) :
    Braceless (commentText text) := by
  intro c hc
  rcases mem_commentText hc with hc | hc
  · exact h c hc
  · have hmark : Braceless "// " := by decide
    exact hmark c hc

namespace Directive

/-- A directive without braces in its texts writes its own braces only. -/
theorem filter_isBrace_toJavaScript? {d : Directive} {js : String}
    (htexts : ∀ text ∈ d.texts, Braceless text) (h : d.toJavaScript? = some js) :
    js.toList.filter isBrace = d.braces := by
  cases d with
  | printLiteral text | printExpr text | errorLiteral text | errorExpr text | alert text
  | ifThen text | elseIf text | forLoop text | whileLoop text =>
    obtain rfl := Option.some.inj h
    have htext := (htexts text (List.mem_singleton_self _)).filter_eq
    simp only [String.toList_append, List.filter_append, htext]
    rfl
  | prompt target text | assign target text =>
    obtain rfl := Option.some.inj h
    have htarget := (htexts target (by simp [texts])).filter_eq
    have htext := (htexts text (by simp [texts])).filter_eq
    simp only [String.toList_append, List.filter_append, htarget, htext]
    rfl
  | style selector property value =>
    obtain rfl := Option.some.inj h
    have hselector := (htexts selector (by simp [texts])).filter_eq
    have hproperty := (braceless_camelCase (htexts property (by simp [texts]))).filter_eq
    have hvalue := (htexts value (by simp [texts])).filter_eq
    simp only [String.toList_append, List.filter_append, hselector, hproperty, hvalue]
    rfl
  | otherwise | endIf | endLoop =>
    obtain rfl := Option.some.inj h
    rfl
  | comment text =>
    obtain rfl := Option.some.inj h
    exact (braceless_commentText (htexts text (List.mem_singleton_self _))).filter_eq
  | addonRaw text =>
    obtain rfl := Option.some.inj h
    exact (htexts text (List.mem_singleton_self _)).filter_eq
  | addonEnter | addonExit | importUnit | definitionStart | definitionEnd | call | unrecognized =>
    cases h

theorem braces_of_toJavaScript?_eq_none {d : Directive} (h : d.toJavaScript? = none) :
    d.braces = [] := by
  cases d with
  | addonEnter | addonExit | importUnit | definitionStart | definitionEnd | call | unrecognized => rfl
  | _ => cases h

theorem braces_of_isMark {d : Directive} (h : d.isMark = true) : d.braces = [] := by
  cases d with
  | addonEnter | addonExit => rfl
  | _ => cases h

end Directive

namespace Script

/-- The directives of the lines of a stream that stand outside addon blocks. -/
def outside (lines : List Line) : List Directive :=
  (Addon.placed none lines).filterMap fun p =>
    if p.1 = none then some (Directive.ofText p.2.text) else none

theorem filter_isBrace_translation {line : Line} {block : Option Addon} (h : Braceless line.text) :
    (translation (line, Directive.within block line.text)).toList.filter isBrace =
      (Directive.within block line.text).braces := by
  cases hjs : (Directive.within block line.text).toJavaScript? with
  | none =>
    rw [Directive.braces_of_toJavaScript?_eq_none hjs]
    simp only [translation, hjs, Option.getD_none, String.toList_append, List.filter_append,
      h.filter_eq]
    rfl
  | some js =>
    simp only [translation, hjs, Option.getD_some]
    exact Directive.filter_isBrace_toJavaScript?
      (fun text htext c hc => h c (Directive.mem_of_mem_texts htext hc)) hjs

/-- Inside addon blocks no directive writes braces. -/
theorem braces_within (block : Option Addon) (line : String) :
    (Directive.within block line).braces =
      (if block = none then some (Directive.ofText line) else none).toList.flatMap
        Directive.braces := by
  cases block with
  | none => simp [Directive.within]
  | some a =>
    rcases Directive.within_some_cases a line with ⟨-, hd⟩ | ⟨-, hd⟩ | ⟨-, hd⟩ <;> rw [hd] <;> rfl

/-- The code has the braces of the directives outside addon blocks, in order, if the lines have
none. -/
theorem filter_isBrace_code {lines : List Line} (h : ∀ line ∈ lines, Braceless line.text) :
    (ofLines lines).code.toList.filter isBrace = (outside lines).flatMap Directive.braces := by
  have hcode : (ofLines lines).code.toList.filter isBrace =
      (ofLines lines).codeLines.flatMap fun text => text.toList.filter isBrace := by
    by_cases hone : (ofLines lines).codeLines = [""]
    · simp [code, hone]
    · rw [code_eq_join_of_ne hone]
      simp [String.toList_join, List.flatMap_map, List.filter_flatMap, isBrace]
  rw [hcode, codeLines, lines_ofLines, read_eq_map_placed, List.filterMap_map, outside,
    List.filterMap_eq_flatMap_toList, List.filterMap_eq_flatMap_toList, List.flatMap_assoc,
    List.flatMap_assoc]
  refine List.flatMap_congr fun p hp => ?_
  have hline : Braceless p.2.text := by
    refine h p.2 ?_
    rw [← Addon.map_snd_placed none lines]
    exact List.mem_map_of_mem hp
  rw [← braces_within]
  cases hmark : (Directive.within p.1 p.2.text).isMark with
  | true => simp [codeLine?, hmark, Directive.braces_of_isMark hmark]
  | false =>
    rw [← filter_isBrace_translation hline]
    simp [codeLine?, hmark, translation]

end Script

theorem filter_isBrace_wrapInClosure {entry : String} (h : Braceless entry) (code : String) :
    (wrapInClosure entry code).toList.filter isBrace =
      '\x7b' :: (code.toList.filter isBrace ++ ['\x7d']) := by
  have hopen : "(function() \x7b // ".toList.filter isBrace = ['\x7b'] := by decide
  have hclose : "\x7d)(); // ".toList.filter isBrace = ['\x7d'] := by decide
  have hfeed : "\n".toList.filter isBrace = [] := by decide
  unfold wrapInClosure
  simp only [String.toList_append, List.filter_append, h.filter_eq, hopen, hclose, hfeed,
    List.append_nil, List.cons_append, List.nil_append]

/-- If no line has braces, those of the code are balanced if and only if the statements of the
directives outside addon blocks are well nested. Where the braces of a code are balanced, they are so
in the closure of an entry whose name has no braces. -/
theorem braces_balanced_iff :
    (∀ (policy : Policy) (lines : List Line) (code : String),
      (∀ line ∈ lines, Braceless line.text) → compile policy lines = .ok code →
        (Chars.Balanced code.toList ↔ WellNested (Script.outside lines))) ∧
    ∀ (config : Config) (entry : String) (lines : List Line) (code : String),
      Braceless entry → compile config.policy lines = .ok code → Chars.Balanced code.toList →
        ∃ wrapped, compileEntry { config with wrap := true } entry lines = .ok wrapped ∧
          Chars.Balanced wrapped.toList := by
  refine ⟨fun policy lines code hlines hcode => ?_, fun config entry lines code hentry hcode h => ?_⟩
  · rw [← (compile_eq_ok_iff.1 hcode).2, ← Chars.balanced_filter_iff,
      Script.filter_isBrace_code hlines, Chars.balanced_flatMap_braces]
  · refine ⟨wrapInClosure entry code, by simp [compileEntry, hcode, Config.finish, Except.map], ?_⟩
    rw [← Chars.balanced_filter_iff, filter_isBrace_wrapInClosure hentry]
    exact (Chars.balanced_filter_iff.2 h).between

/-- A conditional with two branches, in the first of which an addon block has a raw end of one. -/
def rawEnd : List Line :=
  [⟨"<if^set.incode=\"a\">", ⟨"m", 1, 1⟩, none⟩, ⟨"<addon^index/set^js>", ⟨"m", 2, 1⟩, none⟩,
    ⟨"<end^if>", ⟨"m", 3, 1⟩, none⟩, ⟨"<addon^js>", ⟨"m", 4, 1⟩, none⟩,
    ⟨"<else^set>", ⟨"m", 5, 1⟩, none⟩, ⟨"<end^if>", ⟨"m", 6, 1⟩, none⟩]

/-- A branch with no conditional around it. -/
def loneBranch : List Line :=
  [⟨"<else^set>", ⟨"m", 1, 1⟩, none⟩]

theorem braces_balanced_iff_rawEnd :
    (∃ code wrapped, compile .strict rawEnd = .ok code ∧ Chars.Balanced code.toList ∧
      compileEntry ⟨.strict, true, {}⟩ "m" rawEnd = .ok wrapped ∧
        Chars.Balanced wrapped.toList) ∧
    ∃ code, compile .strict loneBranch = .ok code ∧
      code.toList.count '\x7b' = code.toList.count '\x7d' ∧ ¬Chars.Balanced code.toList := by
  obtain ⟨hiff, hwrapped⟩ := braces_balanced_iff
  have hcode : compile .strict rawEnd =
      .ok "if (a) \x7b\n<end^if>\n\x7d else \x7b\n\x7d\n" := by rfl
  have hlone : compile .strict loneBranch = .ok "\x7d else \x7b\n" := by rfl
  have hbalanced := (hiff _ _ _ (by decide) hcode).2 (by decide)
  obtain ⟨wrapped, hwrap, hclosure⟩ := hwrapped {} "m" _ _ (by decide) hcode hbalanced
  refine ⟨⟨_, wrapped, hcode, hbalanced, hwrap, hclosure⟩, _, hlone, by decide, fun h => ?_⟩
  exact absurd ((hiff _ _ _ (by decide) hlone).1 h) (by decide)

end ZScript
