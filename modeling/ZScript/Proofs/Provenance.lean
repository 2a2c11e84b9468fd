import Mathlib.Data.List.Forall2
import ZScript.Proofs.Sessions

/-!
# Where lines come from

Expansion replaces each line of a stream by a group of lines, which may be empty, and keeps the
groups in order. `Spread` says that a stream is made of groups in some relation to the lines of
another stream; if the relation holds of a line by itself and of a call with the lines it stands for,
and goes through groups of groups, then it holds between a stream and its expansion
(`MacroTable.spread_afterPasses`).

With `MacroTable.StandsFor` for the relation this tells, for each line that a run hands to the
compiler, from which line of which unit it comes (`line_provenance`).
-/

namespace ZScript

/-! ## Groups of lines -/

/-- The second stream is made of one group for each line of the first, in order. -/
def Spread (R : Line → List Line → Prop) (lines out : List Line) : Prop :=
  ∃ groups, List.Forall₂ R lines groups ∧ out = groups.flatten

namespace Spread

variable {R : Line → List Line → Prop} {line : Line} {lines mid out group : List Line}

theorem nil : Spread R [] [] :=
  ⟨[], .nil, rfl⟩

theorem cons {rest : List Line} (h : R line group) (hrest : Spread R rest out) :
    Spread R (line :: rest) (group ++ out) := by
  obtain ⟨groups, hgroups, rfl⟩ := hrest
  exact ⟨group :: groups, .cons h hgroups, rfl⟩

theorem of_singleton (h : Spread R [line] out) : R line out := by
  obtain ⟨groups, hgroups, rfl⟩ := h
  obtain ⟨group, others, hgroup, hothers, rfl⟩ := List.forall₂_cons_left_iff.1 hgroups
  obtain rfl := List.forall₂_nil_left_iff.1 hothers
  simpa using hgroup

/-- The groups of a stream in two parts are those of the parts. -/
theorem of_append {xs ys : List Line} (h : Spread R (xs ++ ys) out) :
    ∃ out₁ out₂, Spread R xs out₁ ∧ Spread R ys out₂ ∧ out = out₁ ++ out₂ := by
  obtain ⟨groups, hgroups, rfl⟩ := h
  have hxs := List.forall₂_take xs.length hgroups
  have hys := List.forall₂_drop xs.length hgroups
  rw [List.take_left] at hxs
  rw [List.drop_left] at hys
  exact ⟨_, _, ⟨_, hxs, rfl⟩, ⟨_, hys, rfl⟩, by rw [← List.flatten_append, List.take_append_drop]⟩

/-- A relation that goes through groups of groups is handed on from stream to stream. -/
theorem trans (hR : ∀ line group out, R line group → Spread R group out → R line out)
    (h : Spread R lines mid) (h' : Spread R mid out) : Spread R lines out := by
  obtain ⟨groups, hgroups, rfl⟩ := h
  induction hgroups generalizing out with
  | nil =>
    obtain ⟨groups', hgroups', rfl⟩ := h'
    obtain rfl := List.forall₂_nil_left_iff.1 hgroups'
    exact nil
  | cons hgroup _ ih =>
    obtain ⟨out₁, out₂, h₁, h₂, rfl⟩ := of_append h'
    exact cons (hR _ _ _ hgroup h₁) (ih h₂)

/-- A line of the second stream is in the group of a line of the first. -/
theorem exists_of_mem (h : Spread R lines out) {l : Line} (hl : l ∈ out) :
    ∃ line ∈ lines, ∃ group, R line group ∧ l ∈ group := by
  obtain ⟨groups, hgroups, rfl⟩ := h
  induction hgroups with
  | nil => simp at hl
  | @cons line group rest _ hgroup _ ih =>
    rcases List.mem_append.1 hl with hl | hl
    · exact ⟨line, by simp, group, hgroup, hl⟩
    · obtain ⟨line', hline', hgroup'⟩ := ih hl
      exact ⟨line', by simp [hline'], hgroup'⟩

end Spread

namespace MacroTable

variable {table : MacroTable} {R : Line → List Line → Prop}

theorem spread_onePass (hself : ∀ line, R line [line])
    (hcall : ∀ block line m arguments, table.called? block line = some (m, arguments) →
      R line (m.linesAt line arguments)) (block : Option Addon) (lines : List Line) :
    Spread R lines (table.onePass block lines) := by
  induction lines generalizing block with
  | nil => exact .nil
  | cons line rest ih =>
    unfold onePass
    split
    · exact .cons (hself line) (ih _)
    · rename_i m arguments hline
      exact .cons (hcall block line m arguments hline) (ih _)

/-- A relation that holds of a line by itself and of a call with the lines it stands for, and that
goes through groups of groups, holds between a stream and what passes make of it. -/
theorem spread_afterPasses (hself : ∀ line, R line [line])
    (hcall : ∀ block line m arguments, table.called? block line = some (m, arguments) →
      R line (m.linesAt line arguments))
    (hgroups : ∀ line group out, R line group → Spread R group out → R line out)
    (n : Nat) (lines : List Line) : Spread R lines (table.afterPasses n lines) := by
  induction n generalizing lines with
  | zero =>
    induction lines with
    | nil => exact .nil
    | cons line rest ih => exact .cons (hself line) ih
  | succ n ih => exact (spread_onePass hself hcall none lines).trans hgroups (ih _)

/-! ## What a line stands for -/

/-- The line is a call of a macro of the table. -/
def Calls (table : MacroTable) (line : Line) : Prop :=
  ∃ call, Call.parse? line.text = some call ∧ call.name ∈ table.names

/-- The group is the line alone, or the line is a call, and the group holds lines at its place that
come from macros of the table. -/
def StandsFor (table : MacroTable) (line : Line) (group : List Line) : Prop :=
  group = [line] ∨ table.Calls line ∧
    ∀ l ∈ group, l.origin = line.origin ∧ ∃ name ∈ table.names, l.expandedFrom = some name

theorem standsFor_linesAt {block : Option Addon} {line : Line} {m : Macro}
    {arguments : List String} (h : table.called? block line = some (m, arguments)) :
    table.StandsFor line (m.linesAt line arguments) := by
  obtain ⟨call, hcall, hfind, rfl⟩ := called?_eq_some h
  have hname : m.name = call.name := Catalog.name_of_find? hfind
  have hmem : call.name ∈ table.names := Catalog.mem_names_of_find? hfind
  refine Or.inr ⟨⟨call, hcall, hmem⟩, fun l hl => ?_⟩
  obtain ⟨template, -, text, -, -, rfl⟩ := Macro.mem_linesAt_iff.1 hl
  exact ⟨by simp, m.name, by rwa [hname], by simp⟩

theorem StandsFor.of_spread {line : Line} {group out : List Line} (h : table.StandsFor line group)
    (hout : Spread table.StandsFor group out) : table.StandsFor line out := by
  rcases h with rfl | ⟨hcalls, hgroup⟩
  · exact hout.of_singleton
  · refine Or.inr ⟨hcalls, fun l hl => ?_⟩
    obtain ⟨l', hl', group', hstands, hmem⟩ := hout.exists_of_mem hl
    obtain ⟨horigin, hfrom⟩ := hgroup l' hl'
    rcases hstands with rfl | ⟨-, hgroup'⟩
    · obtain rfl := List.mem_singleton.1 hmem
      exact ⟨horigin, hfrom⟩
    · obtain ⟨horigin', hfrom'⟩ := hgroup' l hmem
      exact ⟨horigin'.trans horigin, hfrom'⟩

end MacroTable

/-- An expanded stream is made of groups, one for each line of the stream. -/
theorem spread_expand {table : MacroTable} {limits : Limits} {lines out : List Line}
    (h : expand table limits lines = .ok out) : Spread table.StandsFor lines out := by
  obtain ⟨-, rfl⟩ := expand_eq_ok h
  exact MacroTable.spread_afterPasses (fun line => Or.inl rfl)
    (fun _ _ _ _ => MacroTable.standsFor_linesAt) (fun _ _ _ => MacroTable.StandsFor.of_spread)
    limits.passes lines

/-! ## The lines of a run -/

namespace Line

/-- The line was read, as it is, from a unit that the entry reaches. -/
def ReadFrom (lib : Library) (entry : String) (line : Line) : Prop :=
  ∃ root text, lib.resolve? entry = some root ∧ lib.Reaches root line.origin.unit ∧
    lib.source? line.origin.unit = some text ∧ line ∈ ofUnit line.origin.unit text

/-- The line stands where a line was read from a unit that the entry reaches. It is that line, or
comes from a macro, and then that line is a call. -/
def Traced (lib : Library) (entry : String) (table : MacroTable) (line : Line) : Prop :=
  ∃ source : Line, source.ReadFrom lib entry ∧ source.origin = line.origin ∧
    match line.expandedFrom with
    | none => line = source
    | some name => name ∈ table.names ∧ table.Calls source

theorem of_mem_ofUnit {unit text : String} {line : Line} (h : line ∈ ofUnit unit text) :
    line.origin.unit = unit ∧ line.expandedFrom = none := by
  obtain ⟨⟨raw, n⟩, -, hline⟩ := List.mem_filterMap.1 h
  obtain ⟨-, rfl⟩ := ofPhysical?_eq_some hline
  exact ⟨rfl, rfl⟩

theorem readFrom_of_mem_bundle {lib : Library} {entry : String} {b : Bundle}
    (hb : bundle lib entry = .ok b) : ∀ line ∈ b.lines, line.ReadFrom lib entry := by
  intro line hline
  obtain ⟨hroot, hinlining⟩ := bundle_eq_ok_iff.1 hb
  obtain ⟨unit, text, hreaches, hsource, hmem⟩ := hinlining.exists_mem_ofUnit hline
  obtain ⟨rfl, -⟩ := of_mem_ofUnit hmem
  exact ⟨b.entry, text, hroot, hreaches, hsource, hmem⟩

theorem ReadFrom.expandedFrom_eq {lib : Library} {entry : String} {line : Line}
    (h : line.ReadFrom lib entry) : line.expandedFrom = none := by
  obtain ⟨root, text, -, -, -, hmem⟩ := h
  exact (of_mem_ofUnit hmem).2

/-- A line in the group of a line that was read is traced to it. -/
theorem ReadFrom.traced {lib : Library} {entry : String} {table : MacroTable} {source line : Line}
    {group : List Line} (h : source.ReadFrom lib entry) (hgroup : table.StandsFor source group)
    (hline : line ∈ group) : line.Traced lib entry table := by
  rcases hgroup with rfl | ⟨hcalls, hgroup⟩
  · obtain rfl := List.mem_singleton.1 hline
    exact ⟨line, h, rfl, by rw [h.expandedFrom_eq]⟩
  · obtain ⟨horigin, name, hname, hfrom⟩ := hgroup line hline
    exact ⟨source, h, horigin.symm, by rw [hfrom]; exact ⟨hname, hcalls⟩⟩

end Line

/-- Every line that a run hands to the compiler is traced to a line of a unit that the entry reaches,
and the stream is made of one group for each line that extraction leaves. The lines that are compiled
are handed over, and so is a line that cannot be compiled. -/
theorem line_provenance {lib : Library} {config : Config} {s : Session} {entry : String}
    (hs : s.Reached lib config) :
    (∀ b lines, s.Hands lib entry b lines →
      (∀ line ∈ lines, line.Traced lib entry (s.run lib entry).2.macros) ∧
      ∃ groups, List.Forall₂ (s.run lib entry).2.macros.StandsFor
        (Extraction.ofLines b.lines).residual.toList groups ∧ lines = groups.flatten) ∧
    (∀ c, (s.run lib entry).1 = .ok c → s.Hands lib entry c.bundle c.lines) ∧
    ∀ u, (s.run lib entry).1 = .error (.unrecognized u) →
      ∃ b lines, s.Hands lib entry b lines ∧ u.line ∈ lines := by
  refine ⟨fun b lines h => ?_, fun c => Session.hands_of_run, fun u hu => ?_⟩
  · have hread := Line.readFrom_of_mem_bundle (hs.sound.bundle_eq_ok h.bundled)
    have hspread := spread_expand h.expand_eq
    refine ⟨fun line hline => ?_, hspread⟩
    obtain ⟨source, hsource, group, hgroup, hmem⟩ := hspread.exists_of_mem hline
    have hresidual := (Extraction.drawn_ofLines hread).1 source (by simpa using hsource)
    exact hresidual.traced hgroup hmem
  · obtain ⟨b, lines, h, hcompile⟩ := Session.hands_of_unrecognized hu
    obtain ⟨i, hi, -, rfl⟩ :=
      Script.mem_unrecognized_iff.1 (mem_unrecognized_of_compile_eq_error hcompile)
    exact ⟨b, lines, h, List.getElem_mem hi⟩

/-- A unit that calls a macro of the unit it imports, and one that no unit defines. -/
def unknownCall : Library :=
  .ofFiles ⟨[⟨"m", "<import^z=\"f.z\">\n  f(1)\n g(2)"⟩,
    ⟨"f.z", "<command^crt>\nf(n)\n<set^x=n>\n<cmd^add>"⟩]⟩

theorem line_provenance_unknownCall : ∃ u b lines,
    (Session.run unknownCall {} "m").1 = .error (.unrecognized u) ∧
      u.line = ⟨"g(2)", ⟨"m", 3, 2⟩, none⟩ ∧ Session.Hands unknownCall {} "m" b lines ∧
        u.line ∈ lines ∧
          ∀ line ∈ lines, line.Traced unknownCall "m" (Session.run unknownCall {} "m").2.macros := by
  have hrun : (Session.run unknownCall {} "m").1 =
      .error (.unrecognized ⟨⟨"g(2)", ⟨"m", 3, 2⟩, none⟩, 2, .call⟩) := by
    decide +kernel
  obtain ⟨htraced, -, hfault⟩ := @line_provenance unknownCall {} _ "m" .new
  obtain ⟨b, lines, hands, hmem⟩ := hfault _ hrun
  exact ⟨_, b, lines, hrun, rfl, hands, hmem, (htraced b lines hands).1⟩

end ZScript
