import ZScript.Proofs.Bundling
import ZScript.Proofs.Directives
import ZScript.Proofs.Expansion
import ZScript.Proofs.Extraction
import ZScript.Proofs.Substitution
import ZScript.Proofs.Texts
import ZScript.Session

/-!
# Runs of a session

`Session.run_stages` says what a run gives and which macros the session then has, from the results
of its stages. On the way from the units to the code every line is clean (`Line.Clean`) : bundling
hands on lines of units, extraction lines of the bundle, and a call stands for trimmed texts made of
characters of templates and arguments, so of no line feed (`keeps_clean`). That holds in every
session that steps make from a new one, whatever they were (`Session.Reached.sound`). The lines that
are compiled can therefore be joined to a text and read again, with the same code
(`compileFlat_join`).

The compiler follows addon blocks as the expander does, so where it sees none open, it sees no call
of a macro that is filed (`MacroTable.Expanded.name_notMem`).
-/

namespace ZScript

namespace Session

/-! ## What a run gives -/

/-- The macros of a session after a stream is expanded in it. -/
def macrosAfter (s : Session) (lines : List Line) : MacroTable :=
  s.macros.insertAll (Extraction.ofLines lines).table.entries

/-- The result of a run, from those of its stages, and the macros that it leaves. -/
theorem run_stages (lib : Library) (s : Session) (entry : String) :
    ((run lib s entry).1 =
      match (s.bundler.bundle lib entry).1 with
      | .error fault => .error (.imports fault)
      | .ok b =>
        match ZScript.expand (s.macrosAfter b.lines) s.config.limits
            (Extraction.ofLines b.lines).residual.toList with
        | .error overflow => .error (.expansion overflow)
        | .ok lines =>
          match compileEntry s.config b.entry lines with
          | .error line => .error (.unrecognized line)
          | .ok code => .ok ⟨b, s.macrosAfter b.lines, lines, code⟩) ∧
    ∀ b, (s.bundler.bundle lib entry).1 = .ok b →
      (run lib s entry).2.macros = s.macrosAfter b.lines := by
  rcases hb : s.bundler.bundle lib entry with ⟨fault | b, bundler⟩
  · simp [run, bundle, hb]
  · simp only [run, bundle, hb, expand, compile, ZScript.expand, macrosAfter, Except.ok.injEq,
      forall_eq']
    cases (Expansion.run (s.macros.insertAll (Extraction.ofLines b.lines).table.entries)
      s.config.limits (Extraction.ofLines b.lines).residual.toList).result with
    | error overflow => exact ⟨rfl, rfl⟩
    | ok lines =>
      simp only [compileEntry, ZScript.compile]
      cases ((Script.ofLines lines).compile s.config.policy).map (s.config.finish b.entry) with
      | error line => exact ⟨rfl, rfl⟩
      | ok code => exact ⟨rfl, rfl⟩

/-- A run succeeds if each of its stages does. -/
theorem run_eq_ok_iff {lib : Library} {s : Session} {entry : String} {c : Compilation} :
    (run lib s entry).1 = .ok c ↔ (s.bundler.bundle lib entry).1 = .ok c.bundle ∧
      c.macros = s.macrosAfter c.bundle.lines ∧
        ZScript.expand c.macros s.config.limits
          (Extraction.ofLines c.bundle.lines).residual.toList = .ok c.lines ∧
          compileEntry s.config c.bundle.entry c.lines = .ok c.code := by
  rw [(run_stages lib s entry).1]
  obtain ⟨b', macros, lines', code'⟩ := c
  dsimp only
  constructor
  · intro h
    split at h
    · cases h
    · rename_i b hb
      split at h
      · cases h
      · rename_i lines hlines
        split at h
        · cases h
        · rename_i code hcode
          obtain ⟨rfl, rfl, rfl, rfl⟩ := Compilation.mk.inj (Except.ok.inj h)
          exact ⟨hb, rfl, hlines, hcode⟩
  · rintro ⟨hb, rfl, hlines, hcode⟩
    simp only [hb, hlines, hcode]

/-- A run hands lines to the compiler : those of a bundle, expanded with the macros of the session. -/
structure Hands (lib : Library) (s : Session) (entry : String) (b : Bundle) (lines : List Line) :
    Prop where
  bundled : (s.bundle lib entry).1 = .ok b
  expanded : ((s.bundle lib entry).2.expand b.lines).1 = .ok lines

/-- The lines that are handed over were expanded with the macros that the run leaves. -/
theorem Hands.expand_eq {lib : Library} {s : Session} {entry : String} {b : Bundle}
    {lines : List Line} (h : s.Hands lib entry b lines) :
    ZScript.expand (run lib s entry).2.macros s.config.limits
      (Extraction.ofLines b.lines).residual.toList = .ok lines := by
  rw [(run_stages lib s entry).2 b h.bundled]
  exact h.expanded

/-- A run that hands over lines ends as their compilation does. -/
theorem Hands.run_eq {lib : Library} {s : Session} {entry : String} {b : Bundle}
    {lines : List Line} (h : s.Hands lib entry b lines) : (run lib s entry).1 =
      match compileEntry s.config b.entry lines with
      | .error line => .error (.unrecognized line)
      | .ok code => .ok ⟨b, (run lib s entry).2.macros, lines, code⟩ := by
  have hb : (s.bundler.bundle lib entry).1 = .ok b := h.bundled
  have hlines := h.expand_eq
  rw [(run_stages lib s entry).2 b hb] at hlines ⊢
  rw [(run_stages lib s entry).1, hb]
  simp only [hlines]

/-- A run that succeeds compiled the lines that it handed over. -/
theorem hands_of_run {lib : Library} {s : Session} {entry : String} {c : Compilation}
    (h : (run lib s entry).1 = .ok c) : s.Hands lib entry c.bundle c.lines := by
  obtain ⟨hb, hmacros, hlines, -⟩ := run_eq_ok_iff.1 h
  rw [hmacros] at hlines
  exact ⟨hb, hlines⟩

/-- A run that fails in its last stage handed over lines that could not be compiled. -/
theorem hands_of_unrecognized {lib : Library} {s : Session} {entry : String} {u : Unrecognized}
    (h : (run lib s entry).1 = .error (.unrecognized u)) : ∃ b lines,
      s.Hands lib entry b lines ∧ ZScript.compile s.config.policy lines = .error u := by
  rw [(run_stages lib s entry).1] at h
  split at h
  · cases h
  · rename_i b hb
    split at h
    · cases h
    · rename_i lines hlines
      split at h
      · rename_i line hline
        obtain rfl : line = u := by simpa using h
        refine ⟨b, lines, ⟨hb, hlines⟩, ?_⟩
        cases hcompile : ZScript.compile s.config.policy lines with
        | error line' => simpa [compileEntry, hcompile, Except.map] using hline
        | ok code => simp [compileEntry, hcompile, Except.map] at hline
      · cases h

/-- A run that fails in its last stage : the lines were expanded with the macros it leaves. -/
theorem run_eq_unrecognized {lib : Library} {s : Session} {entry : String} {u : Unrecognized}
    (h : (run lib s entry).1 = .error (.unrecognized u)) : ∃ residual lines,
      ZScript.expand (run lib s entry).2.macros s.config.limits residual = .ok lines ∧
        ZScript.compile s.config.policy lines = .error u := by
  obtain ⟨b, lines, hlines, hcompile⟩ := hands_of_unrecognized h
  exact ⟨_, lines, hlines.expand_eq, hcompile⟩

end Session

/-! ## Lines of a run are clean -/

/-- No template of the macros holds a line feed. -/
def MacroTable.Unbroken (table : MacroTable) : Prop :=
  ∀ m ∈ table.entries, ∀ template ∈ m.body, '\n' ∉ template.toList

/-- A clean call of a macro without line feeds stands for clean lines. -/
theorem keeps_clean {table : MacroTable} (h : table.Unbroken) :
    table.Keeps Line.Clean := by
  intro block call m arguments hcall hm line hline
  obtain ⟨parsed, hparsed, hfind, rfl⟩ := MacroTable.called?_eq_some hm
  have hmem : m ∈ table.entries := List.mem_of_find?_eq_some hfind
  obtain ⟨template, htemplate, text, hne, rfl, rfl⟩ := Macro.mem_linesAt_iff.1 hline
  refine Line.clean_of_trim rfl ?_ fun hfeed => ?_
  · simpa [trim] using hne
  · rcases mem_instantiate hfeed with hfeed | ⟨argument, hargument, hfeed⟩
    · exact h m hmem template htemplate hfeed
    · exact hcall.unbroken (Call.mem_of_mem_arguments hparsed hargument hfeed)

/-- The lines of a bundle are lines of units. -/
theorem clean_of_mem_bundle {lib : Library} {entry : String} {b : Bundle}
    (hb : bundle lib entry = .ok b) : ∀ line ∈ b.lines, line.Clean := by
  intro line hline
  obtain ⟨reached, text, -, -, hmem⟩ := (bundle_eq_ok_iff.1 hb).2.exists_mem_ofUnit hline
  exact Line.clean_of_mem_ofUnit hmem

namespace Session

/-- The sessions that steps on a library make from a new one. A stream that is expanded is that of a
bundle, be it of this library or of another one. -/
inductive Reached (lib : Library) (config : Config) : Session → Prop
  | new : Reached lib config { config }
  | bundle {s : Session} (entry : String) : Reached lib config s →
      Reached lib config (s.bundle lib entry).2
  | expand {s : Session} {other : Library} {entry : String} {b : Bundle} : Reached lib config s →
      ZScript.bundle other entry = .ok b → Reached lib config (s.expand b.lines).2
  | compile {s : Session} (entry : String) (lines : List Line) : Reached lib config s →
      Reached lib config (s.compile entry lines).2

/-- What the steps of a session keep. -/
structure Sound (lib : Library) (config : Config) (s : Session) : Prop where
  config_eq : s.config = config
  settled : Settled lib {} s.bundler.finished
  unbroken : s.macros.Unbroken

variable {lib : Library} {config : Config} {s : Session}

theorem unbroken_macrosAfter {lines : List Line} (h : s.macros.Unbroken)
    (hlines : ∀ line ∈ lines, line.Clean) : (s.macrosAfter lines).Unbroken := by
  intro m hm template htemplate
  rcases Catalog.mem_insertAll hm with hm | hm
  · exact h m hm template htemplate
  · obtain ⟨line, hline, rfl⟩ := (Extraction.drawn_ofLines hlines).2 m hm template htemplate
    exact hline.unbroken

/-- Every session that steps make is sound. -/
theorem Reached.sound (h : Reached lib config s) : s.Sound lib config := by
  induction h with
  | new => exact ⟨rfl, Settled.nil lib {}, by simp [MacroTable.Unbroken, Catalog.empty]⟩
  | bundle entry _ ih =>
    exact ⟨ih.config_eq, (Bundler.bundle_faithful ih.settled entry).2, ih.unbroken⟩
  | expand _ hb ih =>
    exact ⟨ih.config_eq, ih.settled, unbroken_macrosAfter ih.unbroken (clean_of_mem_bundle hb)⟩
  | compile entry lines _ ih => exact ⟨ih.config_eq, ih.settled, ih.unbroken⟩

/-- In a sound session a bundle is what a bundler of its own makes. -/
theorem Sound.bundle_eq_ok (h : s.Sound lib config) {entry : String} {b : Bundle}
    (hb : (s.bundler.bundle lib entry).1 = .ok b) : ZScript.bundle lib entry = .ok b := by
  rw [bundle_eq_uncached, ← (Bundler.bundle_faithful h.settled entry).1, hb]

/-- In a sound session the lines that are compiled are clean. -/
theorem Sound.clean_of_run (h : s.Sound lib config) {entry : String} {c : Compilation}
    (hc : (run lib s entry).1 = .ok c) : ∀ line ∈ c.lines, line.Clean := by
  obtain ⟨hb, hmacros, hlines, -⟩ := run_eq_ok_iff.1 hc
  have hclean := clean_of_mem_bundle (h.bundle_eq_ok hb)
  refine forall_mem_expand (keeps_clean ?_) ?_ hlines
  · rw [hmacros]
    exact unbroken_macrosAfter h.unbroken hclean
  · simpa using (Extraction.drawn_ofLines hclean).1

end Session

/-- Lines that are clean give, joined to a text, the code they give as they are. -/
theorem compileFlat_join {config : Config} {lines : List Line} {code : String}
    (hclean : ∀ line ∈ lines, line.Clean) (h : compile config.policy lines = .ok code) :
    compileFlat config (Line.join lines) = .ok code := by
  refine compile_eq_ok_of_texts_eq ?_ h
  have htexts : ((lines.zipIdx 1).map Prod.fst).map Line.text = lines.map Line.text := by
    rw [List.zipIdx_map_fst]
  rw [Line.ofUnit_join flatUnit hclean, ← htexts, List.map_map, List.map_map]
  rfl

/-- The lines that a run compiles can be joined to a text : it compiles on its own, and what the run
gives is its code, in a closure for the entry unit if closures are asked for. -/
theorem flat_agreement {lib : Library} {config : Config} {s : Session} {entry : String}
    {c : Compilation} (hs : s.Reached lib config) (hc : (s.run lib entry).1 = .ok c) :
    ∃ flat, compileFlat config (Line.join c.lines) = .ok flat ∧
      c.code = if config.wrap then wrapInClosure c.bundle.entry flat else flat := by
  have hclean := hs.sound.clean_of_run hc
  obtain ⟨-, -, -, hcode⟩ := Session.run_eq_ok_iff.1 hc
  rw [hs.sound.config_eq, compileEntry] at hcode
  obtain ⟨flat, hflat, hfinish⟩ := map_eq_ok_iff.1 hcode
  exact ⟨flat, compileFlat_join hclean hflat, hfinish.symm⟩

/-- A unit that calls a macro of the unit it imports. -/
def importedMacro : FileSet :=
  ⟨[⟨"m", "<import^z=\"f.z\">\n  f(1)"⟩, ⟨"f.z", "<command^crt>\nf(n)\n<set^x=n>\n<cmd^add>"⟩]⟩

theorem flat_agreement_importedMacro : ∃ c,
    compileProject { wrap := true } importedMacro "m" = .ok c ∧
      c.lines.map Line.text = ["<set^x=1>"] ∧
        ∃ flat, compileFlat { wrap := true } (Line.join c.lines) = .ok flat ∧
          c.code = wrapInClosure c.bundle.entry flat := by
  have hrun : (compileProject { wrap := true } importedMacro "m").toOption.map
      (fun c => c.lines.map Line.text) = some ["<set^x=1>"] := by
    decide +kernel
  cases hc : compileProject { wrap := true } importedMacro "m" with
  | error fault => simp [hc, Except.toOption] at hrun
  | ok c =>
    refine ⟨c, rfl, by simpa [hc, Except.toOption] using hrun, ?_⟩
    simpa using flat_agreement .new hc

/-! ## No call is left -/

/-- In an expanded stream the compiler sees no call of a macro of the table outside addon blocks. -/
theorem MacroTable.Expanded.name_notMem {table : MacroTable} {lines : List Line}
    (h : table.Expanded none lines) {i : Nat} (hi : i < lines.length)
    (hblock : (Script.ofLines (lines.take i)).block = none) {call : Call}
    (hcall : Call.parse? lines[i].text = some call) : call.name ∉ table.names := by
  rw [Script.block_ofLines] at hblock
  exact Catalog.find?_eq_none_iff.1 (MacroTable.called?_eq_none_iff.1 (h i hi) hblock call hcall)

/-- What expansion gives is a fixpoint as the compiler reads it : where no addon block is open, no
line calls a macro of the table, and expanding again changes nothing, whatever the limits. So a call
that a run could not compile is one of a macro that the session does not have. -/
theorem expansion_fixpoint :
    (∀ (table : MacroTable) (limits : Limits) (lines out : List Line),
      expand table limits lines = .ok out →
        (∀ i, ∀ hi : i < out.length, (Script.ofLines (out.take i)).block = none →
          ∀ call, Call.parse? out[i].text = some call → call.name ∉ table.names) ∧
        ∀ limits', expand table limits' out = .ok out) ∧
    ∀ (lib : Library) (s : Session) (entry : String) (u : Unrecognized),
      (s.run lib entry).1 = .error (.unrecognized u) → u.kind = .call →
        ∃ call, Call.parse? u.line.text = some call ∧
          call.name ∉ (s.run lib entry).2.macros.names := by
  refine ⟨fun table limits lines out hout => ?_, fun lib s entry u hu hkind => ?_⟩
  · have hexpanded := expanded_of_expand hout
    exact ⟨fun i hi hblock call hcall => hexpanded.name_notMem hi hblock hcall,
      expand_of_expanded hexpanded⟩
  · obtain ⟨residual, lines, hlines, hcompile⟩ := Session.run_eq_unrecognized hu
    obtain ⟨i, hi, -, rfl⟩ :=
      Script.mem_unrecognized_iff.1 (mem_unrecognized_of_compile_eq_error hcompile)
    obtain ⟨hblock, call, hcall⟩ := Directive.exists_call_of_kind hkind
    rw [← Script.block_ofLines] at hblock
    exact ⟨call, hcall, (expanded_of_expand hlines).name_notMem hi hblock hcall⟩

/-- The call `f(1)`. -/
def callOfF : Line :=
  ⟨"f(1)", ⟨"m", 1, 1⟩, none⟩

/-- A macro `f(n)` with a call in its body. -/
def tableOfF : MacroTable :=
  ⟨[⟨"f", ["n"], ["<set^x=n>", "g(n)"], ⟨"m", 1, 1⟩⟩]⟩

/-- A call of `f` is expanded where `f` is filed, and not compiled where it is not. -/
theorem expansion_fixpoint_callOfF :
    (∃ out, expand tableOfF {} [callOfF] = .ok out ∧ out.map Line.text = ["<set^x=1>", "g(1)"] ∧
      expand tableOfF ⟨0, 0⟩ out = .ok out) ∧
    ∃ u call, (Session.run (.ofFiles ⟨[⟨"m", "f(1)"⟩]⟩) {} "m").1 = .error (.unrecognized u) ∧
      Call.parse? u.line.text = some call ∧
        call.name ∉ (Session.run (.ofFiles ⟨[⟨"m", "f(1)"⟩]⟩) {} "m").2.macros.names := by
  have hexpand : expand tableOfF {} [callOfF] =
      .ok [callOfF.instantiated "f" "<set^x=1>", callOfF.instantiated "f" "g(1)"] := by
    decide +kernel
  have hrun : (Session.run (.ofFiles ⟨[⟨"m", "f(1)"⟩]⟩) {} "m").1 =
      .error (.unrecognized ⟨callOfF, 1, .call⟩) := by
    decide +kernel
  obtain ⟨-, hagain⟩ := expansion_fixpoint.1 _ _ _ _ hexpand
  obtain ⟨call, hcall, hname⟩ := expansion_fixpoint.2 _ _ _ _ hrun rfl
  exact ⟨⟨_, hexpand, rfl, hagain _⟩, _, call, hrun, hcall, hname⟩

end ZScript
