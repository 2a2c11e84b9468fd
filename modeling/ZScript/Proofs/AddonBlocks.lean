import ZScript.Proofs.Sessions

/-!
# Raw lines of addon blocks

A line inside an addon block is raw unless it is a mark of that block. Three loops follow the blocks
of a stream: extraction, every pass of expansion, and the compiler. `Addon.raw` picks the raw lines
of a stream whose lines are given with the blocks they stand in, and each loop is shown to keep
them : extraction takes out lines outside addon blocks only (`Extraction.step_cases`,
`Extraction.raw_residual`), a pass that puts in no mark rewrites such lines only
(`MacroTable.raw_onePass`), and the compiler reads as raw what is raw (`Script.raw_ofLines`).

The code is one piece of text for each line that is no mark, each ended by a line feed, if no line is
empty (`Script.code_eq_join`). Hence raw lines are in the code as they are in the bundle
(`addon_blocks_verbatim`).
-/

namespace ZScript

/-! ## Raw lines -/

namespace Addon

/-- The line, if it stands in an addon block and is no mark of that block. -/
def raw? : Option Addon × Line → Option Line
  | (some a, line) => if a.Marks line.text then none else some line
  | (none, _) => none

/-- The raw lines among lines that are given with the addon blocks they stand in. -/
def raw (lines : List (Option Addon × Line)) : List Line :=
  lines.filterMap raw?

theorem raw?_eq (p : Option Addon × Line) : raw? p =
    if (Directive.within p.1 p.2.text).kind = .addonRaw then some p.2 else none := by
  obtain ⟨_ | a, line⟩ := p
  · simp [raw?, Directive.kind_within_eq_addonRaw_iff]
  · simp [raw?, Directive.kind_within_eq_addonRaw_iff]

theorem raw_append (xs ys : List (Option Addon × Line)) : raw (xs ++ ys) = raw xs ++ raw ys :=
  List.filterMap_append

theorem raw_cons_none (line : Line) (rest : List (Option Addon × Line)) :
    raw ((none, line) :: rest) = raw rest :=
  rfl

theorem mem_of_mem_raw {lines : List (Option Addon × Line)} {line : Line} (h : line ∈ raw lines) :
    line ∈ lines.map Prod.snd := by
  obtain ⟨p, hp, hraw⟩ := List.mem_filterMap.1 h
  rw [raw?_eq, Option.ite_none_right_eq_some] at hraw
  exact List.mem_map.2 ⟨p, hp, Option.some.inj hraw.2⟩

end Addon

namespace Script

/-- The lines that a script keeps as they stand. -/
def raw (s : Script) : List Line :=
  s.lines.toList.filterMap fun p => if p.2.kind = .addonRaw then some p.1 else none

/-- The compiler keeps the raw lines of a stream. -/
theorem raw_ofLines (lines : List Line) :
    (ofLines lines).raw = Addon.raw (Addon.placed none lines) := by
  rw [raw, lines_ofLines, read_eq_map_placed, List.filterMap_map, Addon.raw]
  congr 1
  funext p
  rw [Addon.raw?_eq]
  rfl

end Script

/-! ## Raw lines in expansion -/

namespace MacroTable

variable {table : MacroTable}

/-- A call is not raw, and neither are the lines that it stands for. -/
theorem raw_rewrite (p : Option Addon × Line) :
    Addon.raw (table.rewrite p) = (Addon.raw? p).toList := by
  obtain ⟨block, line⟩ := p
  unfold rewrite
  split
  · cases hraw : Addon.raw? (block, line) <;> simp [Addon.raw, hraw]
  · rename_i m arguments hcall
    obtain rfl : block = none := by
      cases block with
      | none => rfl
      | some a => cases hcall
    simp [Addon.raw, Addon.raw?]

/-- A pass that puts in no mark keeps the raw lines. -/
theorem raw_onePass {lines : List Line}
    (h : ∀ line ∈ table.putIn none lines, ¬Addon.IsMark line.text) :
    Addon.raw (Addon.placed none (table.onePass none lines)) =
      Addon.raw (Addon.placed none lines) := by
  rw [placed_onePass h, Addon.raw, List.filterMap_flatMap, Addon.raw,
    List.filterMap_eq_flatMap_toList]
  exact List.flatMap_congr fun p _ => raw_rewrite p

theorem raw_afterPasses {n : Nat} {lines : List Line} (h : table.PutsInNoMark n lines) :
    Addon.raw (Addon.placed none (table.afterPasses n lines)) =
      Addon.raw (Addon.placed none lines) := by
  induction n generalizing lines with
  | zero => rfl
  | succ n ih =>
    obtain ⟨hfirst, hrest⟩ := h.succ
    exact (ih hrest).trans (raw_onePass hfirst)

end MacroTable

/-! ## Raw lines in extraction -/

/-- The addon block that the reading of a stream stands in. There is none in a definition block. -/
def ExtractionState.block : ExtractionState → Option Addon
  | outside block => block
  | started _ | inside _ _ => none

namespace Extraction

/-- The lines of a stream, each with the addon block in which extraction comes to it. -/
def seenFrom : ExtractionState × Extraction → List Line → List (Option Addon × Line)
  | _, [] => []
  | r, line :: rest => (r.1.block, line) :: seenFrom (step r line) rest

/-- The lines of a stream, each with the addon block in which extraction of the stream sees it. -/
def seen (lines : List Line) : List (Option Addon × Line) :=
  seenFrom (.outside none, {}) lines

theorem map_snd_seenFrom (r : ExtractionState × Extraction) (lines : List Line) :
    (seenFrom r lines).map Prod.snd = lines := by
  induction lines generalizing r with
  | nil => rfl
  | cons line rest ih => simp [seenFrom, ih]

/-- A line is left in the stream, and then it starts no definition block and addon blocks are
followed, or it is taken out, and then no addon block is open before it and after it. -/
theorem step_cases (r : ExtractionState × Extraction) (line : Line) :
    ((Directive.within r.1.block line.text).kind ≠ .definitionStart ∧
        (step r line).1.block = Addon.after r.1.block line.text ∧
          (step r line).2.residual = r.2.residual.push line) ∨
      r.1.block = none ∧ (step r line).1.block = none ∧ (step r line).2.residual = r.2.residual := by
  obtain ⟨state, x⟩ := r
  cases state with
  | outside block =>
    cases block with
    | none =>
      cases hd : Directive.within none line.text with
      | definitionStart => exact Or.inr ⟨rfl, by simp [step, hd, ExtractionState.block]⟩
      | comment text => exact Or.inr ⟨rfl, by simp [step, hd, ExtractionState.block]⟩
      | _ =>
        exact Or.inl (by
          simp [step, hd, ExtractionState.block, Addon.after, Directive.blockAfter, keep,
            Directive.kind])
    | some a =>
      refine Or.inl ?_
      rcases Directive.within_some_cases a line.text with ⟨-, hd⟩ | ⟨-, hd⟩ | ⟨-, hd⟩ <;>
        simp [step, hd, ExtractionState.block, Addon.after, Directive.blockAfter, keep,
          Directive.kind]
  | started start =>
    refine Or.inr ⟨rfl, ?_⟩
    simp only [step]
    split
    · exact ⟨rfl, rfl⟩
    · split <;> exact ⟨rfl, rfl⟩
  | inside signature body =>
    refine Or.inr ⟨rfl, ?_⟩
    simp only [step]
    split
    · exact ⟨rfl, residual_register x signature body⟩
    · split <;> exact ⟨rfl, rfl⟩

theorem residual_finish (r : ExtractionState × Extraction) :
    (finish r).residual = r.2.residual := by
  obtain ⟨state, x⟩ := r
  cases state with
  | outside block => rfl
  | started start => rfl
  | inside signature body =>
    cases signature with
    | none => rfl
    | some s => exact residual_register _ (some s) body

/-- What is left of a stream has the raw lines that were seen, if the reading so far followed the
addon blocks of what it left. -/
theorem raw_foldl (r : ExtractionState × Extraction) (lines : List Line)
    (hr : Addon.afterAll none r.2.residual.toList = r.1.block) :
    Addon.raw (Addon.placed none (lines.foldl step r).2.residual.toList) =
      Addon.raw (Addon.placed none r.2.residual.toList) ++ Addon.raw (seenFrom r lines) := by
  induction lines generalizing r with
  | nil => simp [seenFrom, Addon.raw]
  | cons line rest ih =>
    rw [List.foldl_cons, seenFrom]
    rcases step_cases r line with ⟨-, hblock, hresidual⟩ | ⟨hbefore, hafter, hresidual⟩
    · rw [ih, hresidual, Array.toList_push, Addon.placed_append, hr, Addon.raw_append,
        List.append_assoc, ← Addon.raw_append]
      · rfl
      · rw [hresidual, hblock, Array.toList_push, Addon.afterAll_append, hr]
        rfl
    · rw [ih, hresidual, hbefore, Addon.raw_cons_none]
      rw [hresidual, hr, hbefore, hafter]

/-- The raw lines of what extraction leaves are those that it sees. -/
theorem raw_residual (lines : List Line) :
    Addon.raw (Addon.placed none (ofLines lines).residual.toList) = Addon.raw (seen lines) := by
  rw [ofLines, residual_finish, raw_foldl _ _ rfl]
  rfl

end Extraction

/-! ## The pieces of the code -/

theorem commentText_ne_empty {text : String} (h : text ≠ "") : commentText text ≠ "" := by
  unfold commentText
  split
  · simp [String.append_eq_empty_iff]
  · exact h

theorem Directive.toJavaScript?_ne_empty {d : Directive} {code : String}
    (htext : ∀ text, d = .comment text ∨ d = .addonRaw text → text ≠ "")
    (h : d.toJavaScript? = some code) : code ≠ "" := by
  cases d with
  | comment text =>
    obtain rfl := Option.some.inj h
    exact commentText_ne_empty (htext text (Or.inl rfl))
  | addonRaw text =>
    obtain rfl := Option.some.inj h
    exact htext text (Or.inr rfl)
  | addonEnter | addonExit | importUnit | definitionStart | definitionEnd | call | unrecognized =>
    cases h
  | _ =>
    obtain rfl := Option.some.inj h
    simp [String.append_eq_empty_iff]

/-- Texts that are joined by line feeds, with one more line feed, are each ended by one. -/
theorem intercalate_lineFeed (text : String) (texts : List String) :
    "\n".intercalate (text :: texts) ++ "\n" = String.join ((text :: texts).map (· ++ "\n")) := by
  induction texts generalizing text with
  | nil => simp
  | cons next texts ih =>
    rw [String.intercalate_cons_cons, String.append_assoc, ih, List.map_cons, String.join_cons,
      List.map_cons, List.map_cons, String.join_cons, String.join_cons]

namespace Script

/-- The pieces of the code, each with the line that it is for and what that line says. -/
def pieces (s : Script) : List ((Line × Directive) × String) :=
  s.lines.toList.filterMap fun p => (codeLine? p.1 p.2).map fun code => (p, code)

theorem map_fst_pieces (s : Script) :
    s.pieces.map Prod.fst = s.lines.toList.filter fun p => !p.2.isMark := by
  rw [pieces, List.map_filterMap, ← List.filterMap_eq_filter]
  congr 1
  funext p
  cases hmark : p.2.isMark <;> simp [codeLine?, hmark, Option.guard]

theorem map_snd_pieces (s : Script) : s.pieces.map Prod.snd = s.codeLines := by
  simp [pieces, codeLines, List.map_filterMap, Function.comp_def]

/-- The code lacks the line feed behind a piece only where an empty piece is all there is. -/
theorem code_eq_join_of_ne {s : Script} (h : s.codeLines ≠ [""]) :
    s.code = String.join (s.codeLines.map (· ++ "\n")) := by
  unfold code
  cases htexts : s.codeLines with
  | nil => simp
  | cons text texts =>
    have hne : ¬("\n".intercalate (text :: texts)).isEmpty := by
      cases texts with
      | nil =>
        have htext : text ≠ "" := fun e => h (by rw [htexts, e])
        simpa [String.isEmpty_iff] using htext
      | cons next texts => simp [String.isEmpty_iff, String.append_eq_empty_iff]
    simp only [hne]
    exact intercalate_lineFeed text texts

theorem code_eq_join {s : Script} (h : ∀ text ∈ s.codeLines, text ≠ "") :
    s.code = String.join (s.codeLines.map (· ++ "\n")) :=
  code_eq_join_of_ne fun htexts => h "" (by simp [htexts]) rfl

/-- A line that is not empty gives no empty code. -/
theorem codeLines_ne_empty {lines : List Line} (h : ∀ line ∈ lines, line.text ≠ "") :
    ∀ text ∈ (ofLines lines).codeLines, text ≠ "" := by
  intro text htext
  rw [codeLines, lines_ofLines, read_eq_map_placed] at htext
  obtain ⟨q, hq, hcode⟩ := List.mem_filterMap.1 htext
  obtain ⟨p, hp, rfl⟩ := List.mem_map.1 hq
  have hline : p.2.text ≠ "" := by
    refine h p.2 ?_
    rw [← Addon.map_snd_placed none lines]
    exact List.mem_map_of_mem hp
  rw [codeLine?, Option.ite_none_left_eq_some] at hcode
  obtain rfl := Option.some.inj hcode.2
  cases hjs : (Directive.within p.1 p.2.text).toJavaScript? with
  | none => simp [String.append_eq_empty_iff]
  | some js =>
    refine Directive.toJavaScript?_ne_empty (fun text htext => ?_) hjs
    rwa [Directive.text_of_within htext]

/-- The piece for a raw line is the line. -/
theorem raw_of_mem_pieces {lines : List Line} {e : (Line × Directive) × String}
    (he : e ∈ (ofLines lines).pieces) (hkind : e.1.2.kind = .addonRaw) :
    e.1.1 ∈ (ofLines lines).raw ∧ e.2 = e.1.1.text := by
  obtain ⟨q, hq, hpiece⟩ := List.mem_filterMap.1 he
  obtain ⟨code, hcode, rfl⟩ := Option.map_eq_some_iff.1 hpiece
  refine ⟨List.mem_filterMap.2 ⟨q, hq, if_pos hkind⟩, ?_⟩
  rw [lines_ofLines, read_eq_map_placed] at hq
  obtain ⟨⟨block, line⟩, -, rfl⟩ := List.mem_map.1 hq
  obtain ⟨a, rfl, hmarks⟩ := Directive.kind_within_eq_addonRaw_iff.1 hkind
  simpa [codeLine?, Directive.within_of_not_marks hmarks, Directive.isMark,
    Directive.toJavaScript?, eq_comm] using hcode

end Script

theorem keeps_nonempty (table : MacroTable) : table.Keeps fun line => line.text ≠ "" := by
  intro block call m arguments _ _ line hline
  obtain ⟨template, -, text, hne, -, rfl⟩ := Macro.mem_linesAt_iff.1 hline
  simpa using hne

/-! ## From the bundle to the code -/

/-- Where no mark of an addon is put in, the compiler keeps as they stand just the lines that
extraction of the bundle sees inside addon blocks and that are no marks of those blocks. The code is a
piece for each line that is no mark, and the piece for such a line is its text, on a line of its own. -/
theorem addon_blocks_verbatim {lib : Library} {entry : String} {b : Bundle} {table : MacroTable}
    {limits : Limits} {out : List Line} (hb : bundle lib entry = .ok b)
    (hmarks : table.PutsInNoMark limits.passes (Extraction.ofLines b.lines).residual.toList)
    (hout : expand table limits (Extraction.ofLines b.lines).residual.toList = .ok out) :
    (Script.ofLines out).raw = Addon.raw (Extraction.seen b.lines) ∧
      ∀ policy code, compile policy out = .ok code →
        ∃ pieces : List ((Line × Directive) × String),
          pieces.map Prod.fst = (Script.ofLines out).lines.toList.filter (fun p => !p.2.isMark) ∧
            code = String.join (pieces.map fun e => e.2 ++ "\n") ∧
              ∀ e ∈ pieces, e.1.2.kind = .addonRaw → e.2 = e.1.1.text ∧ '\n' ∉ e.2.toList := by
  have hclean := clean_of_mem_bundle hb
  have hraw : (Script.ofLines out).raw = Addon.raw (Extraction.seen b.lines) := by
    obtain ⟨-, rfl⟩ := expand_eq_ok hout
    rw [Script.raw_ofLines, MacroTable.raw_afterPasses hmarks, Extraction.raw_residual]
  refine ⟨hraw, fun policy code hcode => ⟨(Script.ofLines out).pieces, Script.map_fst_pieces _, ?_,
    fun e he hkind => ?_⟩⟩
  · have hresidual : ∀ line ∈ (Extraction.ofLines b.lines).residual.toList, line.text ≠ "" := by
      intro line hline
      have hdrawn := (Extraction.drawn_ofLines hclean).1 line (by simpa using hline)
      simpa using hdrawn.nonempty
    have hne := Script.codeLines_ne_empty (forall_mem_expand (keeps_nonempty table) hresidual hout)
    rw [← (compile_eq_ok_iff.1 hcode).2, Script.code_eq_join hne, ← Script.map_snd_pieces,
      List.map_map]
    rfl
  · obtain ⟨hmem, htext⟩ := Script.raw_of_mem_pieces he hkind
    rw [hraw] at hmem
    have hline := Addon.mem_of_mem_raw hmem
    rw [Extraction.seen, Extraction.map_snd_seenFrom] at hline
    exact ⟨htext, htext ▸ (hclean _ hline).unbroken⟩

/-- A unit with a call inside an addon block and one behind it. The block also holds a comment, the
start of a definition block and a mark of the other addon. -/
def shieldingBlock : Library :=
  .ofFiles ⟨[⟨"m", "<command^crt>\nf(n)\n<set^x=n>\n<cmd^add>\n<addon^index/set^js>\n# kept\n" ++
    "<command^crt>\n  f(1)\n<addon^html>\n<addon^js>\nf(2)"⟩]⟩

theorem addon_blocks_verbatim_shieldingBlock : ∃ b out code,
    bundle shieldingBlock "m" = .ok b ∧
      expand (Extraction.ofLines b.lines).table ⟨1, 9⟩ (Extraction.ofLines b.lines).residual.toList =
          .ok out ∧
        compile .strict out = .ok code ∧
          code = "# kept\n<command^crt>\nf(1)\n<addon^html>\nlet x = 2;\n" ∧
            (Script.ofLines out).raw = Addon.raw (Extraction.seen b.lines) ∧
              (Script.ofLines out).raw.map Line.text =
                  ["# kept", "<command^crt>", "f(1)", "<addon^html>"] ∧
                ∃ pieces : List ((Line × Directive) × String),
                  code = String.join (pieces.map fun e => e.2 ++ "\n") ∧
                    ∀ e ∈ pieces, e.1.2.kind = .addonRaw →
                      e.2 = e.1.1.text ∧ '\n' ∉ e.2.toList := by
  have hrun : ((bundle shieldingBlock "m").toOption.map fun b =>
      (decide ((Extraction.ofLines b.lines).table.PutsInNoMark 1
          (Extraction.ofLines b.lines).residual.toList),
        (expand (Extraction.ofLines b.lines).table ⟨1, 9⟩
          (Extraction.ofLines b.lines).residual.toList).toOption.map fun out =>
            ((Script.ofLines out).raw.map Line.text, (compile .strict out).toOption))) =
      some (true, some (["# kept", "<command^crt>", "f(1)", "<addon^html>"],
        some "# kept\n<command^crt>\nf(1)\n<addon^html>\nlet x = 2;\n")) := by
    decide +kernel
  simp only [Option.map_eq_some_iff, toOption_eq_some_iff, Prod.mk.injEq,
    decide_eq_true_eq] at hrun
  obtain ⟨b, hb, hmarks, out, hout, htexts, hcode⟩ := hrun
  obtain ⟨hraw, hpieces⟩ := @addon_blocks_verbatim _ _ _ _ ⟨1, 9⟩ _ hb hmarks hout
  obtain ⟨pieces, -, hjoin, hverbatim⟩ := hpieces _ _ hcode
  exact ⟨b, out, _, hb, hout, hcode, rfl, hraw, htexts, pieces, hjoin, hverbatim⟩

end ZScript
