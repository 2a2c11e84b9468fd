import ZScript.Proofs.AddonBlocks
import ZScript.Proofs.Provenance

/-!
# Imports and starts of definitions that reach the compiler

Bundling replaces the import lines and extraction takes out the definition blocks, yet a line of
either kind can reach the compiler : a macro can put it in, or put in a mark of an addon that moves
the end of a block before it (`leftovers_reach_compiler`).

There is no other way. A line that no macro gave is a line of the bundle that extraction left
(`MacroTable.mem_or_putIn_of_expand`), and so no import. `Addon.untouched` lists such lines, each in
its addon block, as long as no line that a macro gave opens or closes a block. A pass only takes
lines from that list (`MacroTable.untouched_onePass`), so that the blocks in it are those of the
stream that extraction left, where no line starts a definition block
(`Extraction.not_definitionStart_of_mem_placed`).

What gets through is not translated. It has no code, so that a strict run fails and a lenient one
writes it as a comment (`leftovers_put_in`).
-/

namespace ZScript

/-! ## Lines that no macro gave -/

namespace Addon

/-- The lines of a stream that no macro gave, each with the addon block that is open before it, as
long as no line that a macro gave opens or closes a block. -/
def untouched : Option Addon → List Line → List (Option Addon × Line)
  | _, [] => []
  | block, line :: rest =>
    if line.expandedFrom = none then (block, line) :: untouched (Addon.after block line.text) rest
    else if Addon.after block line.text = block then untouched block rest else []

variable {block : Option Addon} {line : Line} {lines rest : List Line}

theorem untouched_sublist_placed : (untouched block lines).Sublist (placed block lines) := by
  induction lines generalizing block with
  | nil => exact .slnil
  | cons line rest ih =>
    rw [untouched, placed]
    split
    · exact ih.cons_cons _
    · split
      · rename_i hafter
        rw [hafter]
        exact ih.cons _
      · exact List.nil_sublist _

/-- Behind lines that macros gave the list goes on, unless one of them opens or closes a block. -/
theorem untouched_append (hlines : ∀ line ∈ lines, line.expandedFrom ≠ none) :
    untouched block (lines ++ rest) = [] ∨
      afterAll block lines = block ∧ untouched block (lines ++ rest) = untouched block rest := by
  induction lines with
  | nil => exact Or.inr ⟨rfl, rfl⟩
  | cons line lines ih =>
    obtain ⟨hline, hlines⟩ := List.forall_mem_cons.1 hlines
    rw [List.cons_append, untouched, if_neg hline, afterAll_cons]
    split
    · rename_i hafter
      rw [hafter]
      exact ih hlines
    · exact Or.inl rfl

/-- A line that no macro gave is in the list, in its own block, if no line before it that a macro
gave opens or closes a block. -/
theorem mem_untouched {i : Nat} (hline : lines[i]? = some line) (hfrom : line.expandedFrom = none)
    (hgiven : ∀ j < i, ∀ l, lines[j]? = some l → l.expandedFrom ≠ none →
      afterAll block (lines.take (j + 1)) = afterAll block (lines.take j)) :
    (afterAll block (lines.take i), line) ∈ untouched block lines := by
  induction lines generalizing block i with
  | nil => simp at hline
  | cons first rest ih =>
    cases i with
    | zero =>
      obtain rfl : first = line := by simpa using hline
      simp [untouched, hfrom]
    | succ i =>
      have hrest : (afterAll (after block first.text) (rest.take i), line) ∈
          untouched (after block first.text) rest := by
        refine ih (by simpa using hline) fun j hj l hl hl' => ?_
        simpa using hgiven (j + 1) (by omega) l (by simpa using hl) hl'
      rw [List.take_succ_cons, afterAll_cons, untouched]
      split
      · exact List.mem_cons_of_mem _ hrest
      · rename_i hfirst
        have hafter : after block first.text = block := by
          simpa using hgiven 0 (by omega) first rfl hfirst
        rw [if_pos hafter]
        rwa [hafter] at hrest ⊢

end Addon

namespace MacroTable

variable {table : MacroTable} {block : Option Addon} {lines out : List Line}

/-- A macro of the table gave the line. -/
def PutIn (table : MacroTable) (line : Line) : Prop :=
  ∃ name ∈ table.names, line.expandedFrom = some name

/-- A pass takes lines from those that no macro gave, and leaves the others in their blocks, as long
as it puts in no line that opens or closes one. -/
theorem untouched_onePass :
    (Addon.untouched block (table.onePass block lines)).Sublist (Addon.untouched block lines) := by
  induction lines generalizing block with
  | nil => exact .slnil
  | cons line rest ih =>
    rw [onePass]
    split
    · rw [Addon.untouched, Addon.untouched]
      split
      · exact ih.cons_cons _
      · split
        · rename_i hafter
          rw [hafter]
          exact ih
        · exact .slnil
    · rename_i m arguments hcall
      have hgiven : ∀ l ∈ m.linesAt line arguments, l.expandedFrom ≠ none := by
        intro l hl
        obtain ⟨template, -, text, -, -, rfl⟩ := Macro.mem_linesAt_iff.1 hl
        simp
      rcases Addon.untouched_append hgiven with hnil | ⟨hblock, heq⟩
      · rw [hnil]
        exact List.nil_sublist _
      · rw [heq, hblock, Addon.untouched, after_of_called? hcall, if_pos rfl]
        split
        · exact ih.cons _
        · exact ih

theorem untouched_afterPasses (n : Nat) :
    (Addon.untouched none (table.afterPasses n lines)).Sublist (Addon.untouched none lines) := by
  induction n generalizing lines with
  | zero => exact List.Sublist.refl _
  | succ n ih => exact ih.trans untouched_onePass

/-- A line of an expanded stream is a line of the stream, or a macro gave it. -/
theorem mem_or_putIn_of_expand {limits : Limits} (h : expand table limits lines = .ok out)
    {line : Line} (hline : line ∈ out) : line ∈ lines ∨ table.PutIn line := by
  obtain ⟨source, hsource, group, hgroup, hmem⟩ := (spread_expand h).exists_of_mem hline
  rcases hgroup with rfl | ⟨-, hgiven⟩
  · obtain rfl := List.mem_singleton.1 hmem
    exact Or.inl hsource
  · exact Or.inr (hgiven line hmem).2

end MacroTable

/-! ## What extraction leaves -/

namespace Extraction

/-- The reading of a stream so far followed the addon blocks of what it left, and left no line that
starts a definition block. -/
structure Cleared (r : ExtractionState × Extraction) : Prop where
  block : Addon.afterAll none r.2.residual.toList = r.1.block
  starts : ∀ p ∈ Addon.placed none r.2.residual.toList,
    (Directive.within p.1 p.2.text).kind ≠ .definitionStart

theorem Cleared.step {r : ExtractionState × Extraction} (h : Cleared r) (line : Line) :
    Cleared (step r line) := by
  rcases step_cases r line with ⟨hstart, hblock, hresidual⟩ | ⟨hbefore, hafter, hresidual⟩
  · constructor
    · rw [hresidual, Array.toList_push, Addon.afterAll_append, h.block, hblock]
      rfl
    · rw [hresidual, Array.toList_push, Addon.placed_append, h.block, List.forall_mem_append]
      exact ⟨h.starts, by simpa [Addon.placed] using hstart⟩
  · constructor
    · rw [hresidual, h.block, hbefore, hafter]
    · rw [hresidual]
      exact h.starts

theorem Cleared.foldl {r : ExtractionState × Extraction} (h : Cleared r) (lines : List Line) :
    Cleared (lines.foldl Extraction.step r) := by
  induction lines generalizing r with
  | nil => exact h
  | cons line rest ih => exact ih (h.step line)

/-- No line that extraction leaves starts a definition block, in the addon block in which it stands
in what is left. -/
theorem not_definitionStart_of_mem_placed {lines : List Line} :
    ∀ p ∈ Addon.placed none (ofLines lines).residual.toList,
      (Directive.within p.1 p.2.text).kind ≠ .definitionStart := by
  have hstart : Cleared (.outside none, {}) := ⟨rfl, by simp [Addon.placed]⟩
  rw [ofLines, residual_finish]
  exact (hstart.foldl lines).starts

end Extraction

/-! ## What reaches the compiler -/

/-- What is an import to the compiler is one to the bundler. -/
theorem Line.importRequest?_ne_none {line : Line} {block : Option Addon}
    (h : (Directive.within block line.text).kind = .importUnit) : line.importRequest? ≠ none := by
  cases block with
  | none =>
    cases hd : Directive.ofText line.text <;> rw [Directive.within, hd] at h <;> cases h
    simp [importRequest?, hd]
  | some a =>
    rcases Directive.within_some_cases a line.text with ⟨-, hd⟩ | ⟨-, hd⟩ | ⟨-, hd⟩ <;>
      rw [hd] at h <;> cases h

/-- Imports and starts of definition blocks have no code. -/
theorem Directive.lacksCode_of_kind {d : Directive}
    (h : d.kind = .importUnit ∨ d.kind = .definitionStart) : d.lacksCode = true := by
  cases d <;> simp_all [kind, lacksCode, isMark, toJavaScript?]

namespace Session.Hands

variable {lib : Library} {config : Config} {s : Session} {entry : String} {b : Bundle}
  {lines : List Line}

/-- A line that was not given by a macro is a line of a unit, and no import line. -/
theorem putIn_or_plain (hs : s.Reached lib config) (h : s.Hands lib entry b lines) {line : Line}
    (hline : line ∈ lines) : (s.run lib entry).2.macros.PutIn line ∨
      line.expandedFrom = none ∧ line.importRequest? = none := by
  refine (MacroTable.mem_or_putIn_of_expand h.expand_eq hline).symm.imp_right fun hleft => ?_
  have hb := hs.sound.bundle_eq_ok h.bundled
  obtain ⟨-, text, -, hinlined⟩ := bundle_eq_ok_iff.1 hb
  have hplain : ∀ l ∈ b.lines, l.expandedFrom = none ∧ l.importRequest? = none := fun l hl =>
    ⟨(Line.readFrom_of_mem_bundle hb l hl).expandedFrom_eq, hinlined.importRequest?_eq_none l hl⟩
  exact (Extraction.drawn_ofLines hplain).1 line (by simpa using hleft)

/-- A line that is an import to the compiler was given by a macro. -/
theorem putIn_of_import (hs : s.Reached lib config) (h : s.Hands lib entry b lines) {line : Line}
    {block : Option Addon} (hline : line ∈ lines)
    (himport : (Directive.within block line.text).kind = .importUnit) :
    (s.run lib entry).2.macros.PutIn line := by
  rcases h.putIn_or_plain hs hline with hgiven | ⟨-, hplain⟩
  · exact hgiven
  · exact absurd hplain (Line.importRequest?_ne_none himport)

/-- A line that starts a definition block to the compiler was given by a macro, or a line before it
that was opens or closes an addon block. -/
theorem putIn_of_definitionStart (hs : s.Reached lib config) (h : s.Hands lib entry b lines)
    {i : Nat} {line : Line} (hline : lines[i]? = some line)
    (hstart : (Directive.within (Addon.afterAll none (lines.take i)) line.text).kind =
      .definitionStart) :
    (s.run lib entry).2.macros.PutIn line ∨
      ∃ j < i, ∃ mark, lines[j]? = some mark ∧ (s.run lib entry).2.macros.PutIn mark ∧
        Addon.afterAll none (lines.take (j + 1)) ≠ Addon.afterAll none (lines.take j) := by
  rcases h.putIn_or_plain hs (List.mem_of_getElem? hline) with hgiven | ⟨hfrom, -⟩
  · exact Or.inl hgiven
  · refine Or.inr (Classical.byContradiction fun hno => ?_)
    have hsteps : ∀ j < i, ∀ l, lines[j]? = some l → l.expandedFrom ≠ none →
        Addon.afterAll none (lines.take (j + 1)) = Addon.afterAll none (lines.take j) := by
      intro j hj l hl hl'
      have hgiven := (h.putIn_or_plain hs (List.mem_of_getElem? hl)).resolve_right fun h => hl' h.1
      exact Decidable.byContradiction fun hne => hno ⟨j, hj, l, hl, hgiven, hne⟩
    have hmem := Addon.mem_untouched hline hfrom hsteps
    generalize Addon.afterAll none (lines.take i) = block at hmem hstart
    rw [(expand_eq_ok h.expand_eq).2] at hmem
    have hplaced := Addon.untouched_sublist_placed.subset
      ((MacroTable.untouched_afterPasses _).subset hmem)
    exact Extraction.not_definitionStart_of_mem_placed _ hplaced hstart

/-- A line without code makes a strict run fail. -/
theorem exists_unrecognized (h : s.Hands lib entry b lines) (hpolicy : s.config.policy = .strict)
    {u : Unrecognized} (hu : u ∈ (Script.ofLines lines).unrecognized) :
    ∃ u', (s.run lib entry).1 = .error (.unrecognized u') := by
  rw [h.run_eq]
  cases hcode : compileEntry s.config b.entry lines with
  | error u' => exact ⟨u', rfl⟩
  | ok code =>
    obtain ⟨flat, hflat, -⟩ := map_eq_ok_iff.1 hcode
    simp [(compile_eq_ok_iff.1 hflat).1 hpolicy] at hu

/-- A lenient run succeeds with all that is handed over. -/
theorem exists_compilation (h : s.Hands lib entry b lines) (hpolicy : s.config.policy = .lenient) :
    ∃ c, (s.run lib entry).1 = .ok c ∧ c.lines = lines := by
  have hcode : ZScript.compile s.config.policy lines = .ok (Script.ofLines lines).code :=
    compile_eq_ok_iff.2 ⟨by simp [hpolicy], rfl⟩
  rw [h.run_eq, compileEntry, hcode]
  exact ⟨_, rfl, rfl⟩

end Session.Hands

/-- A line that is an import to the compiler was given by a macro. One that starts a definition
block to the compiler was given by a macro, or a line before it that was opens or closes an addon
block. Neither is translated : a strict run fails, and a lenient one writes the line as a comment.
-/
theorem leftovers_put_in {lib : Library} {config : Config} {s : Session} {entry : String}
    {b : Bundle} {lines : List Line} (hs : s.Reached lib config) (h : s.Hands lib entry b lines) :
    ∀ i line d, (Script.ofLines lines).lines[i]? = some (line, d) →
      (d.kind = .importUnit → (s.run lib entry).2.macros.PutIn line) ∧
      (d.kind = .definitionStart → (s.run lib entry).2.macros.PutIn line ∨
        ∃ j < i, ∃ mark, lines[j]? = some mark ∧ (s.run lib entry).2.macros.PutIn mark ∧
          (Script.ofLines (lines.take (j + 1))).block ≠ (Script.ofLines (lines.take j)).block) ∧
      (d.kind = .importUnit ∨ d.kind = .definitionStart →
        (config.policy = .strict → ∃ u, (s.run lib entry).1 = .error (.unrecognized u)) ∧
        (config.policy = .lenient → ∃ c, (s.run lib entry).1 = .ok c ∧ c.lines = lines ∧
          "// error: " ++ line.text ∈ (Script.ofLines c.lines).codeLines)) := by
  intro i line d hread
  obtain ⟨hline, rfl⟩ := Script.getElem?_lines_ofLines.1 hread
  simp only [Script.block_ofLines]
  refine ⟨h.putIn_of_import hs (List.mem_of_getElem? hline), h.putIn_of_definitionStart hs hline,
    fun hkind => ⟨fun hpolicy => ?_, fun hpolicy => ?_⟩⟩
  · obtain ⟨hi, rfl⟩ := List.getElem?_eq_some_iff.1 hline
    rw [← hs.sound.config_eq] at hpolicy
    exact h.exists_unrecognized hpolicy
      (Script.mem_unrecognized_iff.2 ⟨i, hi, Directive.lacksCode_of_kind hkind, rfl⟩)
  · rw [← hs.sound.config_eq] at hpolicy
    obtain ⟨c, hc, rfl⟩ := h.exists_compilation hpolicy
    have hmem := Array.mem_toList_iff.2 (Array.mem_of_getElem? hread)
    refine ⟨c, hc, rfl, List.mem_filterMap.2 ⟨_, hmem, ?_⟩⟩
    have hcode := Directive.lacksCode_of_kind hkind
    simp only [Directive.lacksCode, Bool.and_eq_true, Bool.not_eq_true', Option.isNone_iff_eq_none]
      at hcode
    simp [Script.codeLine?, hcode.1, hcode.2]

/-- A macro that opens an addon block, called before a block of the other addon. The mark that this
block holds as a raw line then ends the block that the macro opens. -/
def movedBlock : FileSet :=
  ⟨[⟨"m", "<command^crt>\nopen()\n<addon^index/set^html>\n<cmd^add>\nopen()\n" ++
    "<addon^index/set^js>\n<addon^html>\n<command^crt>"⟩]⟩

/-- The last line of that unit. -/
def movedStart : Line :=
  ⟨"<command^crt>", ⟨"m", 8, 1⟩, none⟩

/-- The lines that a lenient run hands to the compiler, as the compiler reads them. -/
theorem exists_hands_of_lenient {files : FileSet} {entry : String} {read : Array (Line × Directive)}
    (h : (compileProject { policy := .lenient } files entry).toOption.map
      (fun c => (Script.ofLines c.lines).lines) = some read) : ∃ b lines,
      Session.Hands (.ofFiles files) { config := { policy := .lenient } } entry b lines ∧
        (Script.ofLines lines).lines = read := by
  simp only [Option.map_eq_some_iff, toOption_eq_some_iff] at h
  obtain ⟨c, hc, hread⟩ := h
  exact ⟨c.bundle, c.lines, Session.hands_of_run hc, hread⟩

theorem read_movedBlock : (compileProject { policy := .lenient } movedBlock "m").toOption.map
    (fun c => (Script.ofLines c.lines).lines) = some
      #[(⟨"<addon^index/set^html>", ⟨"m", 5, 1⟩, some "open"⟩, .addonEnter .html),
        (⟨"<addon^index/set^js>", ⟨"m", 6, 1⟩, none⟩, .addonRaw "<addon^index/set^js>"),
        (⟨"<addon^html>", ⟨"m", 7, 1⟩, none⟩, .addonExit .html),
        (movedStart, .definitionStart)] := by
  decide +kernel

theorem leftovers_put_in_movedBlock : ∃ b lines,
    Session.Hands (.ofFiles movedBlock) { config := { policy := .lenient } } "m" b lines ∧
      (Script.ofLines lines).lines[3]? = some (movedStart, .definitionStart) ∧
      (∃ j < 3,
        (Script.ofLines (lines.take (j + 1))).block ≠ (Script.ofLines (lines.take j)).block) ∧
      "// error: <command^crt>" ∈ (Script.ofLines lines).codeLines := by
  obtain ⟨b, lines, hands, hread⟩ := exists_hands_of_lenient read_movedBlock
  have hlast : (Script.ofLines lines).lines[3]? = some (movedStart, .definitionStart) := by
    rw [hread]
    rfl
  obtain ⟨-, hstart, hguard⟩ := leftovers_put_in .new hands 3 _ _ hlast
  obtain ⟨c, -, rfl, hcode⟩ := (hguard (Or.inr rfl)).2 rfl
  refine ⟨b, _, hands, hlast, ?_, hcode⟩
  rcases hstart rfl with ⟨name, -, hname⟩ | ⟨j, hj, mark, -, -, hne⟩
  · cases hname
  · exact ⟨j, hj, hne⟩

/-- A macro that gives its argument, called with an import and with the start of a definition. -/
def echoedLines : FileSet :=
  ⟨[⟨"m", "<command^crt>\nsame(x)\nx\n<cmd^add>\nsame(<import^z=\"a.z\">)\nsame(<command^crt>)"⟩]⟩

theorem read_echoedLines : (compileProject { policy := .lenient } echoedLines "m").toOption.map
    (fun c => (Script.ofLines c.lines).lines) = some
      #[(⟨"<import^z=\"a.z\">", ⟨"m", 5, 1⟩, some "same"⟩, .importUnit "a.z"),
        (⟨"<command^crt>", ⟨"m", 6, 1⟩, some "same"⟩, .definitionStart)] := by
  decide +kernel

/-- Imports and starts of definitions do reach the compiler, and a start of a definition need not be
given by a macro. -/
theorem leftovers_reach_compiler :
    (¬∀ (files : FileSet) (entry : String) (config : Config) (b : Bundle) (lines : List Line),
      Session.Hands (.ofFiles files) { config } entry b lines →
        ∀ p ∈ (Script.ofLines lines).lines, p.2.kind ≠ .importUnit) ∧
    (¬∀ (files : FileSet) (entry : String) (config : Config) (b : Bundle) (lines : List Line),
      Session.Hands (.ofFiles files) { config } entry b lines →
        ∀ p ∈ (Script.ofLines lines).lines, p.2.kind ≠ .definitionStart) ∧
    ¬∀ (files : FileSet) (entry : String) (config : Config) (b : Bundle) (lines : List Line),
      Session.Hands (.ofFiles files) { config } entry b lines →
        ∀ p ∈ (Script.ofLines lines).lines, p.2.kind = .definitionStart →
          p.1.expandedFrom ≠ none := by
  obtain ⟨b, lines, hands, hread⟩ := exists_hands_of_lenient read_echoedLines
  obtain ⟨b', lines', hands', hread'⟩ := exists_hands_of_lenient read_movedBlock
  refine ⟨fun h => ?_, fun h => ?_, fun h => ?_⟩
  · exact h _ _ _ b lines hands _ (Array.mem_of_getElem? (i := 0) (by rw [hread]; rfl)) rfl
  · exact h _ _ _ b lines hands _ (Array.mem_of_getElem? (i := 1) (by rw [hread]; rfl)) rfl
  · exact h _ _ _ b' lines' hands' _ (Array.mem_of_getElem? (i := 3) (by rw [hread']; rfl)) rfl rfl

end ZScript
