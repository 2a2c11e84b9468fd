import ZScript.Proofs.AddonBlocks
import ZScript.Proofs.StyleNames

/-!
# The lines of the code

The code of a stream has the translations of its lines that are no marks (`Script.unmarked`,
`Script.codeLines_eq_map_translation`). A translation has only characters of its line and printable
ones of ASCII (`Script.mem_translation`). So lines without line feeds have translations without line
feeds, and these are got back by cutting the code at its line feeds (`Script.splitOn_code`).

A stream that leaves no addon block open is compiled as if nothing followed it, and what follows it
as if nothing stood before it, but that its lines are counted on (`Script.unmarked_append`,
`Script.unrecognized_append`). This also settles what the two policies do with a line that has no
translation, for such a line stands outside addon blocks : the strict policy fails with the first one
(`compile_strict_of_first`), and the lenient policy writes a comment in the place of each
(`code_of_untranslatable`).
-/

namespace ZScript

/-! ## The characters of a translation -/

/-- The printable characters of ASCII. -/
def IsPrintable (c : Char) : Prop :=
  ' ' ≤ c ∧ c ≤ '~'

instance (c : Char) : Decidable (IsPrintable c) :=
  inferInstanceAs (Decidable (_ ∧ _))

/-- Every character of the text is printable. -/
def Printable (text : String) : Prop :=
  ∀ c ∈ text.toList, IsPrintable c

instance (text : String) : Decidable (Printable text) :=
  List.decidableBAll _ text.toList

namespace Chars

theorem isPrintable_of_isUpper {c : Char} (h : c.isUpper = true) : IsPrintable c := by
  obtain ⟨hlow, hhigh⟩ := isUpper_iff.1 h
  have hrange : 32 ≤ c.toNat ∧ c.toNat ≤ 126 := by omega
  exact hrange

end Chars

theorem mem_commentText {text : String} {c : Char} (h : c ∈ (commentText text).toList) :
    c ∈ text.toList ∨ c ∈ "// ".toList := by
  unfold commentText at h
  split at h
  · rename_i s hs
    rw [String.toList_append, List.mem_append] at h
    rcases h with h | h
    · exact Or.inr h
    · have hmem : c ∈ s := List.dropWhile_subset isBlank (by simpa [Chars.trimStart] using h)
      exact Or.inl (by simp [hs, hmem])
  · exact Or.inl h

namespace Directive

/-- The texts of its line that a directive puts into its code. -/
def texts : Directive → List String
  | printLiteral text | printExpr text | errorLiteral text | errorExpr text | alert text
  | ifThen text | elseIf text | forLoop text | whileLoop text | comment text | addonRaw text => [text]
  | prompt target title => [target, title]
  | style selector property value => [selector, property, value]
  | assign target expression => [target, expression]
  | otherwise | endIf | endLoop | addonEnter _ | addonExit _ | importUnit _ | definitionStart
  | definitionEnd | call _ _ | unrecognized => []

variable {block : Option Addon} {line text : String} {d : Directive} {c : Char}

theorem Spelled.mem_of_mem_texts (h : d.Spelled line) (ht : text ∈ d.texts)
    (hc : c ∈ text.toList) : c ∈ line.toList := by
  cases d with
  | printLiteral | printExpr | errorLiteral | errorExpr | alert | ifThen | elseIf | forLoop
  | whileLoop =>
    obtain ⟨-, rfl⟩ := h
    obtain rfl := List.mem_singleton.1 ht
    simp [hc]
  | prompt target title =>
    obtain ⟨-, -, word, -, rfl⟩ := h
    rcases List.mem_pair.1 ht with rfl | rfl <;> simp [hc]
  | style selector property value =>
    obtain ⟨-, -, -, -, rfl⟩ := h
    simp only [texts, List.mem_cons, List.not_mem_nil, or_false] at ht
    rcases ht with rfl | rfl | rfl <;> simp [hc]
  | assign target expression =>
    obtain ⟨-, -, gap, inner, -, rfl, rfl⟩ := h
    rcases List.mem_pair.1 ht with rfl | rfl
    · simp [hc]
    · have hinner : c ∈ inner.toList := Chars.mem_of_mem_trim (by simpa [trim] using hc)
      simp [hinner]
  | comment =>
    obtain ⟨rfl, -⟩ := h
    obtain rfl := List.mem_singleton.1 ht
    exact hc
  | addonRaw => cases h
  | _ => cases ht

/-- The texts that a line puts into its code hold only characters of the line. -/
theorem mem_of_mem_texts (ht : text ∈ (within block line).texts) (hc : c ∈ text.toList) :
    c ∈ line.toList := by
  cases block with
  | none =>
    refine (spelled_of_ofText fun hd => ?_).mem_of_mem_texts ht hc
    rw [within, hd] at ht
    cases ht
  | some a =>
    rcases within_some_cases a line with ⟨-, hd⟩ | ⟨-, hd⟩ | ⟨-, hd⟩ <;> rw [hd] at ht
    · cases ht
    · cases ht
    · rwa [← List.mem_singleton.1 ht]

/-- What the code of a directive has beside its texts is printable. -/
theorem mem_toJavaScript? {js : String} (h : d.toJavaScript? = some js) (hc : c ∈ js.toList) :
    (∃ text ∈ d.texts, c ∈ text.toList) ∨ IsPrintable c := by
  have hfixed : ∀ fixed : String, Printable fixed → c ∈ fixed.toList →
      (∃ text ∈ d.texts, c ∈ text.toList) ∨ IsPrintable c := fun _ hall hmem => Or.inr (hall c hmem)
  cases d with
  | printLiteral | printExpr | errorLiteral | errorExpr | alert | ifThen | elseIf | forLoop
  | whileLoop =>
    obtain rfl := Option.some.inj h
    simp only [String.toList_append, List.mem_append] at hc
    rcases hc with (hc | hc) | hc
    · exact hfixed _ (by decide) hc
    · exact Or.inl ⟨_, List.mem_singleton_self _, hc⟩
    · exact hfixed _ (by decide) hc
  | prompt target text | assign target text =>
    obtain rfl := Option.some.inj h
    simp only [String.toList_append, List.mem_append] at hc
    rcases hc with (((hc | hc) | hc) | hc) | hc
    · exact hfixed _ (by decide) hc
    · exact Or.inl ⟨target, by simp [texts], hc⟩
    · exact hfixed _ (by decide) hc
    · exact Or.inl ⟨text, by simp [texts], hc⟩
    · exact hfixed _ (by decide) hc
  | style selector property value =>
    obtain rfl := Option.some.inj h
    simp only [String.toList_append, List.mem_append] at hc
    rcases hc with (((((hc | hc) | hc) | hc) | hc) | hc) | hc
    · exact hfixed _ (by decide) hc
    · exact Or.inl ⟨selector, by simp [texts], hc⟩
    · exact hfixed _ (by decide) hc
    · rcases mem_camelCase hc with hc | hc
      · exact Or.inl ⟨property, by simp [texts], hc⟩
      · exact Or.inr (Chars.isPrintable_of_isUpper hc)
    · exact hfixed _ (by decide) hc
    · exact Or.inl ⟨value, by simp [texts], hc⟩
    · exact hfixed _ (by decide) hc
  | otherwise | endIf | endLoop =>
    obtain rfl := Option.some.inj h
    exact hfixed _ (by decide) hc
  | comment text =>
    obtain rfl := Option.some.inj h
    rcases mem_commentText hc with hc | hc
    · exact Or.inl ⟨text, List.mem_singleton_self _, hc⟩
    · exact hfixed _ (by decide) hc
  | addonRaw text =>
    obtain rfl := Option.some.inj h
    exact Or.inl ⟨text, List.mem_singleton_self _, hc⟩
  | addonEnter | addonExit | importUnit | definitionStart | definitionEnd | call | unrecognized =>
    cases h

end Directive

namespace Script

/-! ## Translations -/

/-- The lines of a stream that are no marks of addon blocks, each with what it says. -/
def unmarked (lines : List Line) : List (Line × Directive) :=
  (read none lines).filter fun p => !p.2.isMark

/-- The code for a line that is no mark : that of its directive, or else a comment. -/
def translation (p : Line × Directive) : String :=
  p.2.toJavaScript?.getD ("// error: " ++ p.1.text)

variable {lines xs ys : List Line}

theorem codeLines_eq_map_translation (lines : List Line) :
    (ofLines lines).codeLines = (unmarked lines).map translation := by
  rw [codeLines, lines_ofLines, unmarked, ← List.filterMap_eq_map, List.filterMap_filter]
  refine List.filterMap_congr fun p _ => ?_
  cases hmark : p.2.isMark <;> simp [codeLine?, translation, hmark]

theorem exists_placed_of_mem_unmarked {p : Line × Directive} (h : p ∈ unmarked lines) :
    p.1 ∈ lines ∧ ∃ block, p.2 = Directive.within block p.1.text := by
  have hread := (List.mem_filter.1 h).1
  rw [read_eq_map_placed] at hread
  obtain ⟨q, hq, rfl⟩ := List.mem_map.1 hread
  refine ⟨?_, q.1, rfl⟩
  rw [← Addon.map_snd_placed none lines]
  exact List.mem_map_of_mem hq

/-- What a translation has beside characters of its line is printable. -/
theorem mem_translation {p : Line × Directive} (hp : p ∈ unmarked lines) {c : Char}
    (hc : c ∈ (translation p).toList) : c ∈ p.1.text.toList ∨ IsPrintable c := by
  obtain ⟨-, block, hd⟩ := exists_placed_of_mem_unmarked hp
  cases hjs : p.2.toJavaScript? with
  | none =>
    rw [translation, hjs, Option.getD_none, String.toList_append, List.mem_append] at hc
    rcases hc with hc | hc
    · have hall : Printable "// error: " := by decide
      exact Or.inr (hall c hc)
    · exact Or.inl hc
  | some js =>
    rw [translation, hjs, Option.getD_some] at hc
    refine (Directive.mem_toJavaScript? hjs hc).imp_left ?_
    rintro ⟨text, htext, hmem⟩
    rw [hd] at htext
    exact Directive.mem_of_mem_texts htext hmem

theorem lineFeed_notMem_translation (h : ∀ line ∈ lines, '\n' ∉ line.text.toList)
    {p : Line × Directive} (hp : p ∈ unmarked lines) : '\n' ∉ (translation p).toList := by
  intro hc
  rcases mem_translation hp hc with hc | hc
  · exact h _ (exists_placed_of_mem_unmarked hp).1 hc
  · exact absurd hc (by decide)

/-! ## Cutting the code -/

theorem toList_code (h : ∀ line ∈ lines, line.text ≠ "") : (ofLines lines).code.toList =
    ((unmarked lines).map fun p => (translation p).toList).flatMap (· ++ ['\n']) := by
  rw [code_eq_join (codeLines_ne_empty h), codeLines_eq_map_translation]
  simp [String.toList_join, List.flatMap_map]

/-- The code is cut at its line feeds into the translations. Nothing follows the last line feed. -/
theorem splitOn_code (h : ∀ line ∈ lines, line.text ≠ "" ∧ '\n' ∉ line.text.toList) :
    (ofLines lines).code.toList.splitOn '\n' =
      ((unmarked lines).map fun p => (translation p).toList) ++ [[]] := by
  rw [toList_code fun line hline => (h line hline).1]
  refine Chars.splitOn_flatMap fun piece hpiece => ?_
  obtain ⟨p, hp, rfl⟩ := List.mem_map.1 hpiece
  exact lineFeed_notMem_translation (fun line hline => (h line hline).2) hp

theorem count_lineFeed_code (h : ∀ line ∈ lines, line.text ≠ "" ∧ '\n' ∉ line.text.toList) :
    (ofLines lines).code.toList.count '\n' = (unmarked lines).length := by
  have hone : ∀ p ∈ unmarked lines, ((translation p).toList ++ ['\n']).count '\n' = 1 := by
    intro p hp
    have hfree := lineFeed_notMem_translation (fun line hline => (h line hline).2) hp
    rw [List.count_append, List.count_eq_zero.2 hfree, List.count_singleton_self]
  rw [toList_code fun line hline => (h line hline).1, List.flatMap_map, List.count_flatMap,
    Function.comp_def, List.map_congr_left hone]
  simp

theorem code_eq_empty_or_ends (s : Script) : s.code = "" ∨ ∃ body, s.code = body ++ "\n" := by
  by_cases hempty : ("\n".intercalate s.codeLines).isEmpty = true
  · have htext : "\n".intercalate s.codeLines = "" := String.isEmpty_iff.1 hempty
    exact Or.inl (by simp [code, htext])
  · exact Or.inr ⟨"\n".intercalate s.codeLines, by simp [code, hempty]⟩

/-! ## Streams one behind the other -/

theorem read_append (block : Option Addon) (xs ys : List Line) :
    read block (xs ++ ys) = read block xs ++ read (Addon.afterAll block xs) ys := by
  simp only [read_eq_map_placed, Addon.placed_append, List.map_append]

theorem unmarked_append (h : Addon.afterAll none xs = none) :
    unmarked (xs ++ ys) = unmarked xs ++ unmarked ys := by
  rw [unmarked, read_append, h, List.filter_append]
  rfl

end Script

/-- The line with `n` more lines before it. -/
def Unrecognized.behind (n : Nat) (u : Unrecognized) : Unrecognized :=
  { u with position := u.position + n }

namespace Script

variable {xs ys : List Line}

theorem unrecognized_append (h : Addon.afterAll none xs = none) :
    (ofLines (xs ++ ys)).unrecognized =
      (ofLines xs).unrecognized ++ (ofLines ys).unrecognized.map (Unrecognized.behind xs.length) := by
  simp only [unrecognized, lines_ofLines, read_append, h, List.zipIdx_append, List.filterMap_append,
    length_read]
  congr 1
  rw [Nat.add_comm, ← List.map_snd_add_zipIdx_eq_zipIdx, List.filterMap_map, List.map_filterMap]
  refine List.filterMap_congr fun p _ => ?_
  cases hcode : p.1.2.lacksCode <;> simp [hcode, Unrecognized.behind]

theorem code_append (h : Addon.afterAll none xs = none) (hxs : ∀ line ∈ xs, line.text ≠ "")
    (hys : ∀ line ∈ ys, line.text ≠ "") :
    (ofLines (xs ++ ys)).code = (ofLines xs).code ++ (ofLines ys).code := by
  have hall : ∀ line ∈ xs ++ ys, line.text ≠ "" := List.forall_mem_append.2 ⟨hxs, hys⟩
  rw [← String.toList_inj, String.toList_append, toList_code hall, toList_code hxs, toList_code hys,
    unmarked_append h, List.map_append, List.flatMap_append]

end Script

section

variable {policy : Policy} {xs ys : List Line}

/-- A compilation fails with the first line that has no code. -/
theorem compile_eq_error_iff {lines : List Line} {u : Unrecognized} :
    compile policy lines = .error u ↔
      policy = .strict ∧ ∃ us, (Script.ofLines lines).unrecognized = u :: us := by
  unfold compile Script.compile
  cases policy <;> cases (Script.ofLines lines).unrecognized <;> simp

theorem compile_append_of_ok (h : Addon.afterAll none xs = none)
    (hxs : ∀ line ∈ xs, line.text ≠ "") (hys : ∀ line ∈ ys, line.text ≠ "") {code code' : String}
    (hcode : compile policy xs = .ok code) (hcode' : compile policy ys = .ok code') :
    compile policy (xs ++ ys) = .ok (code ++ code') := by
  obtain ⟨hall, rfl⟩ := compile_eq_ok_iff.1 hcode
  obtain ⟨hall', rfl⟩ := compile_eq_ok_iff.1 hcode'
  refine compile_eq_ok_iff.2 ⟨fun hp => ?_, Script.code_append h hxs hys⟩
  rw [Script.unrecognized_append h, hall hp, hall' hp]
  rfl

theorem compile_append_of_error (h : Addon.afterAll none xs = none) {u : Unrecognized}
    (hu : compile policy xs = .error u) : compile policy (xs ++ ys) = .error u := by
  obtain ⟨hp, us, hus⟩ := compile_eq_error_iff.1 hu
  exact compile_eq_error_iff.2 ⟨hp, _, by rw [Script.unrecognized_append h, hus, List.cons_append]⟩

theorem compile_append_of_ok_error (h : Addon.afterAll none xs = none) {code : String}
    {u : Unrecognized} (hcode : compile policy xs = .ok code) (hu : compile policy ys = .error u) :
    compile policy (xs ++ ys) = .error (u.behind xs.length) := by
  obtain ⟨hp, us, hus⟩ := compile_eq_error_iff.1 hu
  have hall := (compile_eq_ok_iff.1 hcode).1 hp
  exact compile_eq_error_iff.2
    ⟨hp, _, by rw [Script.unrecognized_append h, hall, hus, List.nil_append, List.map_cons]⟩

end

/-- Of two streams of lines that are not empty, the first of which leaves no addon block open, the
codes come one behind the other. If the first fails so do the two, with the same line, and if only
the second fails then with the same line, counted on. The code of lines that are not empty and have no
line feeds is empty or ends with a line feed, and has one line for each line of the stream that is no
mark, which is the translation of that line. -/
theorem code_line_by_line :
    (∀ (policy : Policy) (xs ys : List Line), (∀ line ∈ xs ++ ys, line.text ≠ "") →
      Addon.afterAll none xs = none →
        (∀ code code', compile policy xs = .ok code → compile policy ys = .ok code' →
          compile policy (xs ++ ys) = .ok (code ++ code')) ∧
        (∀ u, compile policy xs = .error u → compile policy (xs ++ ys) = .error u) ∧
        ∀ code u, compile policy xs = .ok code → compile policy ys = .error u →
          compile policy (xs ++ ys) = .error (u.behind xs.length)) ∧
    ∀ (policy : Policy) (lines : List Line) (code : String),
      (∀ line ∈ lines, line.text ≠ "" ∧ '\n' ∉ line.text.toList) →
        compile policy lines = .ok code →
          (code = "" ∨ ∃ body, code = body ++ "\n") ∧
          code.toList.count '\n' = (Script.unmarked lines).length ∧
          ∀ k (hk : k < (Script.unmarked lines).length), (code.toList.splitOn '\n')[k]? =
            some (Script.translation (Script.unmarked lines)[k]).toList := by
  refine ⟨fun policy xs ys hne h => ?_, fun policy lines code hlines hcode => ?_⟩
  · obtain ⟨hxs, hys⟩ := List.forall_mem_append.1 hne
    exact ⟨fun _ _ => compile_append_of_ok h hxs hys, fun _ => compile_append_of_error h,
      fun _ _ => compile_append_of_ok_error h⟩
  · obtain ⟨-, rfl⟩ := compile_eq_ok_iff.1 hcode
    refine ⟨Script.code_eq_empty_or_ends _, Script.count_lineFeed_code hlines, fun k hk => ?_⟩
    rw [Script.splitOn_code hlines, List.getElem?_append_left (by simpa using hk)]
    simp [hk]

/-- A comment in an addon block. -/
def rawComment : List Line :=
  [⟨"<addon^index/set^js>", ⟨"m", 1, 1⟩, none⟩, ⟨"# kept", ⟨"m", 2, 1⟩, none⟩,
    ⟨"<addon^js>", ⟨"m", 3, 1⟩, none⟩]

/-- An assignment and a call. -/
def leftCall : List Line :=
  [⟨"<set^x=1>", ⟨"m", 4, 1⟩, none⟩, ⟨"f(2)", ⟨"m", 5, 1⟩, none⟩]

theorem code_line_by_line_leftCall :
    compile .lenient (rawComment ++ leftCall) = .ok "# kept\nlet x = 1;\n// error: f(2)\n" ∧
    compile .strict (rawComment ++ leftCall) =
      .error ⟨⟨"f(2)", ⟨"m", 5, 1⟩, none⟩, 5, .call⟩ ∧
    compile .strict (leftCall ++ rawComment) =
      .error ⟨⟨"f(2)", ⟨"m", 5, 1⟩, none⟩, 2, .call⟩ ∧
    ("let x = 1;\n// error: f(2)\n".toList.splitOn '\n')[1]? = some "// error: f(2)".toList := by
  obtain ⟨happend, hlines⟩ := code_line_by_line
  have hraw : ∀ policy, compile policy rawComment = .ok "# kept\n" := by
    intro policy
    cases policy <;> rfl
  have hleft : compile .lenient leftCall = .ok "let x = 1;\n// error: f(2)\n" := by rfl
  have herror : compile .strict leftCall = .error ⟨⟨"f(2)", ⟨"m", 5, 1⟩, none⟩, 2, .call⟩ := by rfl
  obtain ⟨hok, -, -⟩ := happend .lenient rawComment leftCall (by decide) (by decide)
  obtain ⟨-, -, hcounted⟩ := happend .strict rawComment leftCall (by decide) (by decide)
  obtain ⟨-, hsame, -⟩ := happend .strict leftCall rawComment (by decide) (by decide)
  obtain ⟨-, -, hcut⟩ := hlines .lenient leftCall _ (by decide) hleft
  exact ⟨hok _ _ (hraw _) hleft, hcounted _ _ (hraw _) herror, hsame _ herror, hcut 1 (by decide)⟩

/-! ## Lines without a translation -/

/-- The kinds of the lines that have no translation. -/
def Kind.untranslatable : List Kind :=
  [importUnit, definitionStart, definitionEnd, call, unrecognized]

theorem Directive.lacksCode_iff {d : Directive} :
    d.lacksCode = true ↔ d.kind ∈ Kind.untranslatable := by
  cases d <;> simp [lacksCode, isMark, toJavaScript?, kind, Kind.untranslatable]

/-- The kind of a line behind the given ones, in the addon block that they leave open. -/
def Line.kindBehind (before : List Line) (line : Line) : Kind :=
  (Directive.within (Addon.afterAll none before) line.text).kind

/-- Every line of the stream has a translation. -/
def Translatable (lines : List Line) : Prop :=
  ∀ before line after, lines = before ++ line :: after →
    line.kindBehind before ∉ Kind.untranslatable

theorem exists_of_not_translatable {lines : List Line} (h : ¬Translatable lines) :
    ∃ before line after, lines = before ++ line :: after ∧
      line.kindBehind before ∈ Kind.untranslatable := by
  simpa only [Translatable, not_forall, not_not, exists_prop] using h

/-- Of the lines that have no translation one is the first. -/
theorem exists_first_untranslatable (lines : List Line) (h : ¬Translatable lines) :
    ∃ before line after, lines = before ++ line :: after ∧ Translatable before ∧
      line.kindBehind before ∈ Kind.untranslatable := by
  obtain ⟨before, line, after, hlines, hkind⟩ := exists_of_not_translatable h
  by_cases hbefore : Translatable before
  · exact ⟨before, line, after, hlines, hbefore, hkind⟩
  · obtain ⟨before', line', after', rfl, hfirst, hkind'⟩ :=
      exists_first_untranslatable before hbefore
    exact ⟨before', line', after' ++ line :: after, by simp [hlines], hfirst, hkind'⟩
termination_by lines.length
decreasing_by simp [hlines]

theorem translatable_iff {lines : List Line} :
    Translatable lines ↔ (Script.ofLines lines).unrecognized = [] := by
  constructor
  · intro h
    refine List.eq_nil_iff_forall_not_mem.2 fun u hu => ?_
    obtain ⟨i, hi, hcode, -⟩ := Script.mem_unrecognized_iff.1 hu
    exact h (lines.take i) lines[i] (lines.drop (i + 1)) (by simp) (Directive.lacksCode_iff.1 hcode)
  · rintro h before line after rfl hkind
    have hmem : ⟨line, before.length + 1, line.kindBehind before⟩ ∈
        (Script.ofLines (before ++ line :: after)).unrecognized :=
      Script.mem_unrecognized_iff.2 ⟨before.length, by simp, by
        simpa using Directive.lacksCode_iff.2 hkind, by simp [Line.kindBehind]⟩
    simp [h] at hmem

namespace Directive

variable {block : Option Addon} {line : String}

theorem toJavaScript?_of_untranslatable {d : Directive} (h : d.kind ∈ Kind.untranslatable) :
    d.isMark = false ∧ d.toJavaScript? = none := by
  simpa [lacksCode] using lacksCode_iff.2 h

theorem blockAfter_of_not_isMark {d : Directive} (h : d.isMark = false) :
    d.blockAfter block = block := by
  cases d with
  | addonEnter | addonExit => cases h
  | _ => rfl

/-- A line that has no translation stands outside addon blocks. -/
theorem block_of_untranslatable (h : (within block line).kind ∈ Kind.untranslatable) :
    block = none := by
  cases block with
  | none => rfl
  | some a =>
    rcases within_some_cases a line with ⟨-, hd⟩ | ⟨-, hd⟩ | ⟨-, hd⟩ <;>
      simp [hd, kind, Kind.untranslatable] at h

end Directive

section

variable {before after : List Line} {line : Line}

theorem Line.afterAll_of_untranslatable (h : line.kindBehind before ∈ Kind.untranslatable) :
    Addon.afterAll none before = none ∧ Addon.afterAll none [line] = none := by
  have hblock := Directive.block_of_untranslatable h
  rw [kindBehind, hblock] at h
  exact ⟨hblock, Directive.blockAfter_of_not_isMark (Directive.toJavaScript?_of_untranslatable h).1⟩

/-- The strict policy fails with the first line that has no translation. -/
theorem compile_strict_of_first (hbefore : Translatable before)
    (h : line.kindBehind before ∈ Kind.untranslatable) :
    compile .strict (before ++ line :: after) =
      .error ⟨line, before.length + 1, line.kindBehind before⟩ := by
  obtain ⟨hblock, hline⟩ := Line.afterAll_of_untranslatable h
  have hcode := Directive.lacksCode_iff.2 h
  have hone : compile .strict [line] = .error ⟨line, 1, line.kindBehind before⟩ := by
    refine compile_eq_error_iff.2 ⟨rfl, [], ?_⟩
    rw [hblock] at hcode
    simp [Script.unrecognized, Script.lines_ofLines, Script.read, hcode, Line.kindBehind, hblock]
  have hfirst : compile .strict before = .ok (Script.ofLines before).code :=
    compile_eq_ok_iff.2 ⟨fun _ => translatable_iff.1 hbefore, rfl⟩
  have hrest : compile .strict (line :: after) = .error ⟨line, 1, line.kindBehind before⟩ :=
    compile_append_of_error hline hone
  rw [compile_append_of_ok_error hblock hfirst hrest, Unrecognized.behind, Nat.add_comm]

/-- The code of the lenient policy has a comment in the place of a line that has no translation. -/
theorem code_of_untranslatable (h : line.kindBehind before ∈ Kind.untranslatable) :
    (Script.ofLines (before ++ line :: after)).code =
      String.join ((Script.unmarked before).map (Script.translation · ++ "\n")) ++
        ("// error: " ++ line.text ++ "\n") ++
          String.join ((Script.unmarked after).map (Script.translation · ++ "\n")) := by
  obtain ⟨hblock, hline⟩ := Line.afterAll_of_untranslatable h
  rw [Line.kindBehind, hblock] at h
  obtain ⟨hmark, hjs⟩ := Directive.toJavaScript?_of_untranslatable h
  have hunmarked : Script.unmarked (before ++ line :: after) = Script.unmarked before ++
      (line, Directive.within none line.text) :: Script.unmarked after := by
    rw [Script.unmarked_append hblock, ← List.singleton_append, Script.unmarked_append hline]
    simp [Script.unmarked, Script.read, hmark]
  have htranslation : Script.translation (line, Directive.within none line.text) =
      "// error: " ++ line.text := by
    simp [Script.translation, hjs]
  rw [Script.code_eq_join_of_ne, Script.codeLines_eq_map_translation, hunmarked]
  · simp [htranslation, Function.comp_def, String.append_assoc]
  · intro hempty
    have hmem : "// error: " ++ line.text ∈ [""] := by
      rw [← hempty, Script.codeLines_eq_map_translation, hunmarked]
      simp [htranslation]
    simp [String.append_eq_empty_iff] at hmem

end

/-- The lenient policy succeeds with every stream. The strict policy succeeds if and only if every
line has a translation, and gives the same code. Otherwise it fails with the first line that has
none, and the code of the lenient policy has a comment with the text of the line in its place. -/
theorem policies_agree (lines : List Line) : ∃ code,
    compile .lenient lines = .ok code ∧
    ((∃ code', compile .strict lines = .ok code') ↔ Translatable lines) ∧
    (∀ code', compile .strict lines = .ok code' → code' = code) ∧
    (¬Translatable lines → ∃ before line after, lines = before ++ line :: after ∧
      Translatable before ∧ line.kindBehind before ∈ Kind.untranslatable ∧
        compile .strict lines = .error ⟨line, before.length + 1, line.kindBehind before⟩) ∧
    ∀ before line after, lines = before ++ line :: after →
      line.kindBehind before ∈ Kind.untranslatable →
        code = String.join ((Script.unmarked before).map (Script.translation · ++ "\n")) ++
          ("// error: " ++ line.text ++ "\n") ++
            String.join ((Script.unmarked after).map (Script.translation · ++ "\n")) := by
  have hstrict : ∀ code, compile .strict lines = .ok code ↔
      Translatable lines ∧ (Script.ofLines lines).code = code := by
    intro code
    rw [compile_eq_ok_iff, translatable_iff]
    simp
  refine ⟨(Script.ofLines lines).code, compile_eq_ok_iff.2 ⟨by simp, rfl⟩, by simp [hstrict],
    fun code' hcode' => ((hstrict code').1 hcode').2.symm, fun h => ?_, ?_⟩
  · obtain ⟨before, line, after, rfl, hbefore, hkind⟩ := exists_first_untranslatable lines h
    exact ⟨before, line, after, rfl, hbefore, hkind, compile_strict_of_first hbefore hkind⟩
  · rintro before line after rfl hkind
    exact code_of_untranslatable hkind

theorem policies_agree_leftCall : ¬Translatable (rawComment ++ leftCall) ∧
    compile .lenient (rawComment ++ leftCall) = .ok "# kept\nlet x = 1;\n// error: f(2)\n" ∧
    ∃ before line after, rawComment ++ leftCall = before ++ line :: after ∧ Translatable before ∧
      compile .strict (rawComment ++ leftCall) =
        .error ⟨line, before.length + 1, line.kindBehind before⟩ := by
  obtain ⟨code, hcode, -, -, hfirst, hcomment⟩ := policies_agree (rawComment ++ leftCall)
  have hlines : rawComment ++ leftCall =
      (rawComment ++ [⟨"<set^x=1>", ⟨"m", 4, 1⟩, none⟩]) ++ ⟨"f(2)", ⟨"m", 5, 1⟩, none⟩ :: [] := rfl
  have hkind : Line.kindBehind (rawComment ++ [⟨"<set^x=1>", ⟨"m", 4, 1⟩, none⟩])
      ⟨"f(2)", ⟨"m", 5, 1⟩, none⟩ ∈ Kind.untranslatable := by decide
  have hnot : ¬Translatable (rawComment ++ leftCall) := fun h => h _ _ _ hlines hkind
  have htext : code = "# kept\nlet x = 1;\n// error: f(2)\n" := by
    rw [hcomment _ _ _ hlines hkind]
    decide
  obtain ⟨before, line, after, heq, hbefore, -, herror⟩ := hfirst hnot
  exact ⟨hnot, htext ▸ hcode, before, line, after, heq, hbefore, herror⟩

end ZScript
