import ZScript.Proofs.SessionMacros
import ZScript.Proofs.Templates

/-!
# Expansions that come to an end

`expand` gives a result for all tables. With an empty parameter in the table, though, the loop over
a template may go on for ever, and then there is no result. `Macro.Ends` says that the loops for a
call end, it does not matter with which texts (`Macro.ends_iff`), and `Expansion.Meets` which calls
an expansion comes to : those before which all calls have ended. So an expansion ends if all the
calls do that it comes to, and then it gives what `expand` gives (`Expands`).

Without an empty parameter every expansion ends (`expands_of_noEmptyParameter`). Neither extraction
nor a session files one (`Extraction.noEmptyParameter_table`, `Session.noEmptyParameter_macros`).

A pass that puts in no mark comes to calls that the stream has outside addon blocks
(`Pass.Meets.mem_placed`), and to all of them if it ends (`Pass.Meets.of_mem_placed`). The induction
over a pass that ends is `Pass.induction_of_run`.
-/

namespace ZScript

/-! ## Calls that end -/

namespace Macro

/-- For a call with the arguments, the loops over the templates end with the instantiated
templates. -/
def Ends (m : Macro) (arguments : List String) : Prop :=
  ∀ template ∈ m.body, Template.Scan.Ends (Chars.bindings m.parameters arguments)
    ⟨[], template.toList⟩ (instantiate template m.parameters arguments).toList

/-- A loop that ends for a call ends with the instantiated template. -/
theorem ends_iff {m : Macro} {arguments : List String} : m.Ends arguments ↔
    ∀ template ∈ m.body, ∃ text, Template.Scan.Ends (Chars.bindings m.parameters arguments)
      ⟨[], template.toList⟩ text := by
  refine forall₂_congr fun template _ => ⟨fun h => ⟨_, h⟩, ?_⟩
  rintro ⟨text, h⟩
  exact h.eq_instantiate ▸ h

theorem ends_of_nonempty {m : Macro} (h : ∀ p ∈ m.parameters, p ≠ "") (arguments : List String) :
    m.Ends arguments :=
  fun template _ => Template.ends_instantiate h template arguments

end Macro

/-- A session files no macro with an empty parameter. -/
theorem Session.noEmptyParameter_macros (lib : Library) (config : Config) (steps : List Step) :
    (steps.foldl (after lib) { config }).macros.NoEmptyParameter := by
  refine List.foldlRecOn steps (after lib)
    (motive := fun s : Session => s.macros.NoEmptyParameter) ?_ fun s hs step _ => ?_
  · exact List.forall_mem_nil _
  cases step with
  | bundle entry => exact hs
  | compile entry lines => exact hs
  | expand b =>
    intro m hm
    rcases Catalog.mem_insertAll hm with hm | hm
    · exact hs m hm
    · exact Extraction.noEmptyParameter_table b.lines m hm

/-! ## The calls that are met -/

/-- A pass comes to a call. The calls before it have ended and left the stream short enough. -/
inductive Pass.Meets (table : MacroTable) (maxLines : Nat) :
    Pass → List Line → Line → Macro → List String → Prop
  | here {p : Pass} {call : Line} {rest : List Line} {m : Macro} {arguments : List String}
      (hcall : table.called? p.block call = some (m, arguments)) :
      Meets table maxLines p (call :: rest) call m arguments
  | keep {p : Pass} {line call : Line} {rest : List Line} {m : Macro} {arguments : List String}
      (hline : table.called? p.block line = none)
      (hrest : Meets table maxLines (p.keep line) rest call m arguments) :
      Meets table maxLines p (line :: rest) call m arguments
  | replace {p : Pass} {line call : Line} {rest : List Line} {m m' : Macro}
      {arguments arguments' : List String}
      (hline : table.called? p.block line = some (m', arguments')) (hends : m'.Ends arguments')
      (hsize : (p.replace (m'.linesAt line arguments')).size ≤ maxLines)
      (hrest : Meets table maxLines (p.replace (m'.linesAt line arguments')) rest call m
        arguments) :
      Meets table maxLines p (line :: rest) call m arguments

/-- All the calls end. -/
def AllEnd (met : Line → Macro → List String → Prop) : Prop :=
  ∀ call m arguments, met call m arguments → m.Ends arguments

/-- None of the calls that end stands for a mark of an addon. -/
def StandForNoMark (met : Line → Macro → List String → Prop) : Prop :=
  ∀ call m arguments, met call m arguments → m.Ends arguments →
    ∀ line ∈ m.linesAt call arguments, ¬Addon.IsMark line.text

/-- An expansion with `left` passes to go comes to a call, in the next pass or in a later one. -/
inductive Expansion.Meets (table : MacroTable) (limits : Limits) :
    Nat → List Line → Line → Macro → List String → Prop
  | here {left : Nat} {lines : List Line} {call : Line} {m : Macro} {arguments : List String}
      (hpass : Pass.Meets table limits.lines (.start lines) lines call m arguments) :
      Meets table limits (left + 1) lines call m arguments
  | later {left : Nat} {lines : List Line} {p : Pass} {call : Line} {m : Macro}
      {arguments : List String}
      (hends : AllEnd (Pass.Meets table limits.lines (.start lines) lines))
      (hrun : Pass.run table (limits.passes - left) limits.lines (.start lines) lines = .ok p)
      (hexpanded : p.expanded ≠ 0)
      (hlater : Meets table limits left p.output.toList call m arguments) :
      Meets table limits (left + 1) lines call m arguments

/-- The expansion of a stream ends, and gives the result. -/
def Expands (table : MacroTable) (limits : Limits) (lines : List Line)
    (result : Except Overflow (List Line)) : Prop :=
  AllEnd (Expansion.Meets table limits limits.passes lines) ∧ expand table limits lines = result

section

variable {table : MacroTable} {limits : Limits} {number maxLines left : Nat} {p q : Pass}
  {lines : List Line} {call line : Line} {m : Macro} {arguments : List String}

namespace Pass

theorem Meets.exists_called? (h : Meets table maxLines p lines call m arguments) :
    ∃ block, table.called? block call = some (m, arguments) := by
  induction h with
  | here hcall => exact ⟨_, hcall⟩
  | keep _ _ ih | replace _ _ _ _ ih => exact ih

theorem Meets.not_expanded (h : Meets table maxLines p lines call m arguments) :
    ¬table.Expanded p.block lines := by
  induction h with
  | here hcall | replace hcall => simp [MacroTable.expanded_cons, hcall]
  | keep _ _ ih => exact fun hexpanded => ih (MacroTable.expanded_cons.1 hexpanded).2

theorem Meets.mem_putIn (h : Meets table maxLines p lines call m arguments)
    (hline : line ∈ m.linesAt call arguments) : line ∈ table.putIn p.block lines := by
  induction h with
  | here hcall =>
    simp only [MacroTable.putIn, hcall]
    exact List.mem_append_left _ hline
  | keep hkept _ ih =>
    simp only [MacroTable.putIn, hkept]
    exact ih hline
  | replace hcall _ _ _ ih =>
    simp only [MacroTable.putIn, hcall]
    exact List.mem_append_right _ (ih hline)

/-- Neither a call nor the lines that take its place open or close a block. -/
theorem block_replace (hcall : table.called? p.block call = some (m, arguments))
    (hlines : ∀ line ∈ m.linesAt call arguments, ¬Addon.IsMark line.text) :
    (p.replace (m.linesAt call arguments)).block = Addon.after p.block call.text := by
  rw [MacroTable.after_of_called? hcall]
  exact Addon.afterAll_of_not_isMark hlines

/-- A call that a pass comes to stands outside the addon blocks of the stream. -/
theorem Meets.mem_placed (h : Meets table maxLines p lines call m arguments)
    (hmarks : StandForNoMark (Meets table maxLines p lines)) :
    (none, call) ∈ Addon.placed p.block lines ∧ table.called? none call = some (m, arguments) := by
  induction h with
  | here hcall =>
    have hblock := MacroTable.block_of_called? hcall
    rw [hblock] at hcall
    exact ⟨by simp [Addon.placed, hblock], hcall⟩
  | keep hline _ ih =>
    obtain ⟨hmem, hcall⟩ := ih fun _ _ _ h => hmarks _ _ _ (.keep hline h)
    exact ⟨List.mem_cons_of_mem _ hmem, hcall⟩
  | replace hline hends hsize _ ih =>
    obtain ⟨hmem, hcall⟩ := ih fun _ _ _ h => hmarks _ _ _ (.replace hline hends hsize h)
    rw [block_replace hline (hmarks _ _ _ (.here hline) hends)] at hmem
    exact ⟨List.mem_cons_of_mem _ hmem, hcall⟩

/-- What holds of a pass over a stream if it holds of the pass behind the first line, kept or
replaced, holds of every pass that ends. -/
@[elab_as_elim] theorem induction_of_run {motive : Pass → List Line → Prop}
    (hrun : run table number maxLines p lines = .ok q)
    (hends : AllEnd (Meets table maxLines p lines)) (nil : ∀ p, motive p [])
    (keep : ∀ p line rest, table.called? p.block line = none → motive (p.keep line) rest →
      motive p (line :: rest))
    (replace : ∀ p line rest m arguments, table.called? p.block line = some (m, arguments) →
      m.Ends arguments → (p.replace (m.linesAt line arguments)).size ≤ maxLines →
      motive (p.replace (m.linesAt line arguments)) rest → motive p (line :: rest)) :
    motive p lines := by
  induction lines generalizing p with
  | nil => exact nil p
  | cons line rest ih =>
    rcases run_cons_cases table number maxLines p line rest with
      ⟨hline, hnext⟩ | ⟨m, arguments, -, -, hnext⟩ | ⟨m, arguments, hline, hsize, hnext⟩
    · refine keep p line rest hline (ih (hnext.symm.trans hrun) ?_)
      exact fun _ _ _ h => hends _ _ _ (.keep hline h)
    · cases hnext.symm.trans hrun
    · have hend : m.Ends arguments := hends _ _ _ (.here hline)
      refine replace p line rest m arguments hline hend hsize (ih (hnext.symm.trans hrun) ?_)
      exact fun _ _ _ h => hends _ _ _ (.replace hline hend hsize h)

/-- A pass that ends comes to every call outside the addon blocks of the stream. -/
theorem Meets.of_mem_placed (hrun : run table number maxLines p lines = .ok q)
    (hends : AllEnd (Meets table maxLines p lines))
    (hmarks : StandForNoMark (Meets table maxLines p lines)) {block : Option Addon}
    (hmem : (block, call) ∈ Addon.placed p.block lines)
    (hcall : table.called? block call = some (m, arguments)) :
    Meets table maxLines p lines call m arguments := by
  revert hmarks hmem
  refine induction_of_run hrun hends ?_ ?_ ?_
  · intro p _ hmem
    cases hmem
  · intro p line rest hline ih hmarks hmem
    rcases List.mem_cons.1 hmem with hfirst | hmem
    · obtain ⟨rfl, rfl⟩ := Prod.mk.inj hfirst
      exact .here hcall
    · exact .keep hline (ih (fun _ _ _ h => hmarks _ _ _ (.keep hline h)) hmem)
  · intro p line rest m' arguments' hline hend hsize ih hmarks hmem
    rcases List.mem_cons.1 hmem with hfirst | hmem
    · obtain ⟨rfl, rfl⟩ := Prod.mk.inj hfirst
      exact .here hcall
    · rw [← block_replace hline (hmarks _ _ _ (.here hline) hend)] at hmem
      refine .replace hline hend hsize (ih (fun _ _ _ h => ?_) hmem)
      exact hmarks _ _ _ (.replace hline hend hsize h)

/-- A pass that ends puts in the lines of the calls that it comes to. -/
theorem Meets.of_mem_putIn (hrun : run table number maxLines p lines = .ok q)
    (hends : AllEnd (Meets table maxLines p lines)) (hmem : line ∈ table.putIn p.block lines) :
    ∃ call m arguments, Meets table maxLines p lines call m arguments ∧
      line ∈ m.linesAt call arguments := by
  revert hmem
  refine induction_of_run hrun hends ?_ ?_ ?_
  · intro p hmem
    cases hmem
  · intro p first rest hfirst ih hmem
    simp only [MacroTable.putIn, hfirst] at hmem
    obtain ⟨call, m, arguments, hmeets, hline⟩ := ih hmem
    exact ⟨call, m, arguments, .keep hfirst hmeets, hline⟩
  · intro p first rest m' arguments' hfirst hend hsize ih hmem
    simp only [MacroTable.putIn, hfirst] at hmem
    rcases List.mem_append.1 hmem with hline | hmem
    · exact ⟨first, m', arguments', .here hfirst, hline⟩
    · obtain ⟨call, m, arguments, hmeets, hline⟩ := ih hmem
      exact ⟨call, m, arguments, .replace hfirst hend hsize hmeets, hline⟩

end Pass

namespace Expansion

theorem Meets.exists_called? (h : Meets table limits left lines call m arguments) :
    ∃ block, table.called? block call = some (m, arguments) := by
  induction h with
  | here hpass => exact hpass.exists_called?
  | later _ _ _ _ ih => exact ih

theorem Meets.not_expanded (h : Meets table limits left lines call m arguments) :
    ¬table.Expanded none lines := by
  cases h with
  | here hpass => exact hpass.not_expanded
  | later _ hrun hexpanded _ => exact mt (Pass.expanded_iff_of_run hrun).2 hexpanded

/-- Behind a pass that ends, an expansion comes to the calls of the stream that the pass makes. -/
theorem Meets.of_onePass (hends : AllEnd (Pass.Meets table limits.lines (.start lines) lines))
    (hrun : Pass.run table (limits.passes - left) limits.lines (.start lines) lines = .ok p)
    (h : Meets table limits left (table.onePass none lines) call m arguments) :
    Meets table limits (left + 1) lines call m arguments := by
  refine .later hends hrun (fun hzero => ?_) (Pass.output_of_run_start hrun ▸ h)
  have hexpanded : table.Expanded none lines := (Pass.expanded_iff_of_run hrun).1 hzero
  rw [MacroTable.onePass_of_expanded hexpanded] at h
  exact h.not_expanded hexpanded

theorem allEnd_succ_iff
    (hrun : Pass.run table (limits.passes - left) limits.lines (.start lines) lines = .ok p) :
    AllEnd (Meets table limits (left + 1) lines) ↔
      AllEnd (Pass.Meets table limits.lines (.start lines) lines) ∧
        AllEnd (Meets table limits left (table.onePass none lines)) := by
  constructor
  · intro h
    have hends : AllEnd (Pass.Meets table limits.lines (.start lines) lines) :=
      fun _ _ _ hmeets => h _ _ _ (.here hmeets)
    exact ⟨hends, fun _ _ _ hmeets => h _ _ _ (hmeets.of_onePass hends hrun)⟩
  · rintro ⟨hends, hlater⟩ call m arguments hmeets
    cases hmeets with
    | here hpass => exact hends _ _ _ hpass
    | later _ hrun' _ hmeets =>
      rw [Pass.output_of_run_start hrun'] at hmeets
      exact hlater _ _ _ hmeets

/-- If no pass puts in a mark, then no call stands for one. -/
theorem standForNoMark (h : table.PutsInNoMark left lines) :
    StandForNoMark (Meets table limits left lines) := by
  intro call m arguments hmeets hend line hline
  induction hmeets with
  | here hpass => exact h 0 (by omega) line (hpass.mem_putIn hline)
  | later _ hrun _ _ ih =>
    rw [Pass.output_of_run_start hrun] at ih
    exact ih h.succ.2 hend hline

/-- The result does not depend on what was noted before. -/
theorem result_runPasses_log (lines : List Line) (log log' : Array Event) :
    (runPasses table limits left lines log).result =
      (runPasses table limits left lines log').result := by
  induction left generalizing lines log log' with
  | zero =>
    unfold runPasses
    split <;> rfl
  | succ left ih =>
    simp only [runPasses]
    cases Pass.run table (limits.passes - left) limits.lines (.start lines) lines with
    | error o => rfl
    | ok p =>
      by_cases hzero : p.expanded = 0
      · simp only [if_pos hzero]
      · simpa only [if_neg hzero] using ih _ _ _

/-- Behind a pass that ends, an expansion goes on with the stream that the pass makes. -/
theorem result_runPasses_succ
    (hrun : Pass.run table (limits.passes - left) limits.lines (.start lines) lines = .ok p) :
    (runPasses table limits (left + 1) lines #[]).result =
      (runPasses table limits left (table.onePass none lines) #[]).result := by
  by_cases hzero : p.expanded = 0
  · have hexpanded : table.Expanded none lines := (Pass.expanded_iff_of_run hrun).1 hzero
    rw [MacroTable.onePass_of_expanded hexpanded, runPasses_of_expanded hexpanded,
      runPasses_of_expanded hexpanded]
  · simp only [runPasses, hrun, if_neg hzero, Pass.output_of_run_start hrun]
    exact result_runPasses_log _ _ _

end Expansion

/-- Without an empty parameter every expansion ends. -/
theorem expands_of_noEmptyParameter (h : table.NoEmptyParameter) :
    Expands table limits lines (expand table limits lines) := by
  refine ⟨fun call m arguments hmeets => ?_, rfl⟩
  obtain ⟨block, hcall⟩ := hmeets.exists_called?
  obtain ⟨c, -, hfind, -⟩ := MacroTable.called?_eq_some hcall
  exact Macro.ends_of_nonempty (h m (List.mem_of_find?_eq_some hfind)) arguments

end

end ZScript
