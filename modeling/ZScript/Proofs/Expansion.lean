import ZScript.Macro.Expansion
import ZScript.Proofs.Catalogs
import ZScript.Proofs.Directives
import ZScript.Proofs.Streams

/-!
# What expansion does, pass by pass

`MacroTable.onePass` is the stream that one pass makes of a stream (`Pass.output_of_run`), and
`MacroTable.afterPasses` the stream after a number of passes. A pass that replaces nothing leaves
the stream as it is, and that is so exactly if no line of the stream calls a macro outside addon
blocks (`Pass.expanded_iff_of_run`).

`Expansion.MakesPasses` says how many passes an expansion makes that replace a call, and
`Expansion.exists_lastPass` in which of three ways it ends after them. So `expand_cases` says from
the streams alone what an expansion gives : unless a call makes the stream too long, it succeeds if
the stream after the last pass holds no call, and gives that stream.

Whichever way an expansion succeeds (an empty table, a pass that replaces nothing, or the search for
a call after the last pass), its result therefore holds no call (`expanded_of_expand`), and a stream
without calls is its own expansion under all limits (`expand_of_expanded`). The order of a table
does not matter, only what is found in it (`expand_congr`).

`forall_mem_expand` carries a property of lines through an expansion, if the lines that a call
stands for have it whenever the call has. If no pass puts in a mark of an addon, then the blocks
stay where they are : a pass rewrites each line in its own block (`MacroTable.placed_onePass`).
-/

namespace ZScript

namespace MacroTable

variable {table : MacroTable}

/-! ## Calls -/

theorem called?_eq_some {block : Option Addon} {line : Line} {m : Macro} {arguments : List String}
    (h : table.called? block line = some (m, arguments)) : ∃ call,
      Call.parse? line.text = some call ∧ table.find? call.name = some m ∧
        call.arguments = arguments := by
  cases block with
  | some a => cases h
  | none =>
    simp only [called?, Option.bind_eq_bind, Option.bind_eq_some_iff, Option.pure_def,
      Option.some.injEq, Prod.mk.injEq] at h
    obtain ⟨call, hcall, m', hm, rfl, hargs⟩ := h
    exact ⟨call, hcall, hm, hargs⟩

/-- A line calls no macro of the table if it is in an addon block or the name called has none. -/
theorem called?_eq_none_iff {block : Option Addon} {line : Line} :
    table.called? block line = none ↔
      (block = none → ∀ call, Call.parse? line.text = some call →
        table.find? call.name = none) := by
  cases block with
  | some a => simp [called?]
  | none =>
    simp only [called?, Option.bind_eq_bind, Option.bind_eq_none_iff, Option.pure_def,
      reduceCtorEq, imp_false, true_implies]
    exact forall₂_congr fun call _ => Option.eq_none_iff_forall_ne_some.symm

theorem block_of_called? {block : Option Addon} {line : Line} {c : Macro × List String}
    (h : table.called? block line = some c) : block = none := by
  cases block with
  | some a => cases h
  | none => rfl

/-- A call opens and closes no block. -/
theorem after_of_called? {block : Option Addon} {line : Line} {c : Macro × List String}
    (h : table.called? block line = some c) : Addon.after block line.text = block := by
  obtain ⟨call, hparse, -⟩ := called?_eq_some h
  exact Addon.after_of_not_isMark (Directive.not_isMark_of_call hparse)

/-- No line of the stream calls a macro of the table, each taken in the block that the lines before
it leave open. -/
def Expanded (table : MacroTable) (block : Option Addon) (lines : List Line) : Prop :=
  ∀ i, ∀ hi : i < lines.length,
    table.called? (Addon.afterAll block (lines.take i)) lines[i] = none

theorem expanded_cons {block : Option Addon} {line : Line} {rest : List Line} :
    table.Expanded block (line :: rest) ↔
      table.called? block line = none ∧ table.Expanded (Addon.after block line.text) rest := by
  constructor
  · intro h
    refine ⟨h 0 (by simp), fun i hi => ?_⟩
    exact h (i + 1) (by simpa using hi)
  · rintro ⟨hline, hrest⟩ i hi
    cases i with
    | zero => exact hline
    | succ i => exact hrest i (by simpa using hi)

theorem firstCall?_eq_none_iff {block : Option Addon} {lines : List Line} :
    table.firstCall? block lines = none ↔ table.Expanded block lines := by
  induction lines generalizing block with
  | nil => simp [firstCall?, Expanded]
  | cons line rest ih =>
    rw [expanded_cons, firstCall?]
    cases hcall : table.called? block line with
    | none => simp [ih]
    | some c => simp

theorem expanded_iff_placed {block : Option Addon} {lines : List Line} :
    table.Expanded block lines ↔
      ∀ p ∈ Addon.placed block lines, table.called? p.1 p.2 = none := by
  induction lines generalizing block with
  | nil => simp [Expanded, Addon.placed]
  | cons line rest ih => simp [expanded_cons, Addon.placed, ih]

theorem expanded_append {block : Option Addon} {xs ys : List Line} :
    table.Expanded block (xs ++ ys) ↔
      table.Expanded block xs ∧ table.Expanded (Addon.afterAll block xs) ys := by
  simp only [expanded_iff_placed, Addon.placed_append, List.forall_mem_append]

/-! ## The streams between passes -/

/-- What one pass makes of a stream. The blocks are those of the lines that it puts out. -/
def onePass (table : MacroTable) : Option Addon → List Line → List Line
  | _, [] => []
  | block, line :: rest =>
    match table.called? block line with
    | none => line :: onePass table (Addon.after block line.text) rest
    | some (m, arguments) =>
      m.linesAt line arguments ++
        onePass table (Addon.afterAll block (m.linesAt line arguments)) rest

/-- The lines that one pass puts in for the calls of a stream. -/
def putIn (table : MacroTable) : Option Addon → List Line → List Line
  | _, [] => []
  | block, line :: rest =>
    match table.called? block line with
    | none => putIn table (Addon.after block line.text) rest
    | some (m, arguments) =>
      m.linesAt line arguments ++
        putIn table (Addon.afterAll block (m.linesAt line arguments)) rest

/-- The stream after a number of passes. -/
def afterPasses (table : MacroTable) : Nat → List Line → List Line
  | 0, lines => lines
  | n + 1, lines => afterPasses table n (table.onePass none lines)

theorem afterPasses_succ (n : Nat) (lines : List Line) :
    table.afterPasses (n + 1) lines = table.onePass none (table.afterPasses n lines) := by
  induction n generalizing lines with
  | zero => rfl
  | succ n ih => rw [afterPasses, ih, afterPasses]

theorem onePass_of_expanded {block : Option Addon} {lines : List Line}
    (h : table.Expanded block lines) : table.onePass block lines = lines := by
  induction lines generalizing block with
  | nil => rfl
  | cons line rest ih =>
    obtain ⟨hline, hrest⟩ := expanded_cons.1 h
    simp [onePass, hline, ih hrest]

theorem afterPasses_eq_of_expanded {n k : Nat} {lines : List Line}
    (h : table.Expanded none (table.afterPasses n lines)) (hle : n ≤ k) :
    table.afterPasses k lines = table.afterPasses n lines := by
  induction k, hle using Nat.le_induction with
  | base => rfl
  | succ k _ ih => rw [afterPasses_succ, ih, onePass_of_expanded h]

end MacroTable

namespace Pass

variable {table : MacroTable} {number maxLines : Nat}

/-- What a pass does with a line : it keeps a line that calls no macro, it gives up at a call that
makes the stream too long, and it replaces any other call. -/
theorem run_cons_cases (table : MacroTable) (number maxLines : Nat) (p : Pass) (line : Line)
    (rest : List Line) :
    (table.called? p.block line = none ∧
      run table number maxLines p (line :: rest) = run table number maxLines (p.keep line) rest) ∨
    (∃ m arguments, table.called? p.block line = some (m, arguments) ∧
      maxLines < (p.replace (m.linesAt line arguments)).size ∧
      run table number maxLines p (line :: rest) = .error ⟨m.name, number, some maxLines, line⟩) ∨
    ∃ m arguments, table.called? p.block line = some (m, arguments) ∧
      (p.replace (m.linesAt line arguments)).size ≤ maxLines ∧
      run table number maxLines p (line :: rest) =
        run table number maxLines (p.replace (m.linesAt line arguments)) rest := by
  cases hcall : table.called? p.block line with
  | none => exact Or.inl ⟨rfl, by simp only [run, hcall]⟩
  | some c =>
    obtain ⟨m, arguments⟩ := c
    refine Or.inr ?_
    by_cases hlong : maxLines < (p.replace (m.linesAt line arguments)).size
    · exact Or.inl ⟨m, arguments, rfl, hlong, by simp only [run, hcall, if_pos hlong]⟩
    · exact Or.inr ⟨m, arguments, rfl, Nat.le_of_not_lt hlong,
        by simp only [run, hcall, if_neg hlong]⟩

/-- A pass that ends puts out what it makes of the stream. -/
theorem output_of_run {p q : Pass} {lines : List Line}
    (h : run table number maxLines p lines = .ok q) :
    q.output.toList = p.output.toList ++ table.onePass p.block lines := by
  induction lines generalizing p with
  | nil =>
    obtain rfl := Except.ok.inj h
    simp [MacroTable.onePass]
  | cons line rest ih =>
    rcases run_cons_cases table number maxLines p line rest with
      ⟨hcall, hrun⟩ | ⟨m, arguments, hcall, -, hrun⟩ | ⟨m, arguments, hcall, -, hrun⟩
    · simpa [MacroTable.onePass, hcall, keep] using ih (hrun.symm.trans h)
    · cases hrun.symm.trans h
    · simpa [MacroTable.onePass, hcall, replace, Addon.afterAll] using ih (hrun.symm.trans h)

theorem output_of_run_start {p : Pass} {lines : List Line}
    (h : run table number maxLines (.start lines) lines = .ok p) :
    p.output.toList = table.onePass none lines := by
  simpa [start] using output_of_run h

/-- A pass that does not end stops at a call, and reports it with the macro and the limit. -/
theorem exists_call_of_run {p : Pass} {lines : List Line} {o : Overflow}
    (h : run table number maxLines p lines = .error o) : o.site ∈ lines ∧ ∃ block m arguments,
      table.called? block o.site = some (m, arguments) ∧
        o = ⟨m.name, number, some maxLines, o.site⟩ := by
  induction lines generalizing p with
  | nil => cases h
  | cons line rest ih =>
    rcases run_cons_cases table number maxLines p line rest with
      ⟨-, hrun⟩ | ⟨m, arguments, hcall, -, hrun⟩ | ⟨m, arguments, -, -, hrun⟩
    · obtain ⟨hsite, hcalls⟩ := ih (hrun.symm.trans h)
      exact ⟨List.mem_cons_of_mem line hsite, hcalls⟩
    · obtain rfl := Except.error.inj (hrun.symm.trans h)
      exact ⟨by simp, p.block, m, arguments, hcall, rfl⟩
    · obtain ⟨hsite, hcalls⟩ := ih (hrun.symm.trans h)
      exact ⟨List.mem_cons_of_mem line hsite, hcalls⟩

/-- A pass over a stream without calls ends and replaces nothing. -/
theorem run_of_expanded {p : Pass} {lines : List Line} (h : table.Expanded p.block lines)
    (number maxLines : Nat) :
    ∃ q, run table number maxLines p lines = .ok q ∧ q.expanded = p.expanded := by
  induction lines generalizing p with
  | nil => exact ⟨p, rfl, rfl⟩
  | cons line rest ih =>
    obtain ⟨hline, hrest⟩ := MacroTable.expanded_cons.1 h
    obtain ⟨q, hq, hexpanded⟩ := ih (p := p.keep line) hrest
    exact ⟨q, by simpa [run, hline] using hq, hexpanded⟩

theorem expanded_le_of_run {p q : Pass} {lines : List Line}
    (h : run table number maxLines p lines = .ok q) : p.expanded ≤ q.expanded := by
  induction lines generalizing p with
  | nil =>
    obtain rfl := Except.ok.inj h
    exact Nat.le_refl _
  | cons line rest ih =>
    rcases run_cons_cases table number maxLines p line rest with
      ⟨-, hrun⟩ | ⟨m, arguments, -, -, hrun⟩ | ⟨m, arguments, -, -, hrun⟩
    · exact ih (p := p.keep line) (hrun.symm.trans h)
    · cases hrun.symm.trans h
    · exact Nat.le_of_succ_le (ih (hrun.symm.trans h))

/-- A pass replaces nothing exactly if the stream has no calls. -/
theorem expanded_iff_of_run {p q : Pass} {lines : List Line}
    (h : run table number maxLines p lines = .ok q) :
    q.expanded = p.expanded ↔ table.Expanded p.block lines := by
  constructor
  · intro hq
    induction lines generalizing p with
    | nil => simp [MacroTable.Expanded]
    | cons line rest ih =>
      rcases run_cons_cases table number maxLines p line rest with
        ⟨hline, hrun⟩ | ⟨m, arguments, -, -, hrun⟩ | ⟨m, arguments, -, -, hrun⟩
      · exact MacroTable.expanded_cons.2 ⟨hline, ih (hrun.symm.trans h) hq⟩
      · cases hrun.symm.trans h
      · have hlt : p.expanded + 1 ≤ q.expanded := expanded_le_of_run (hrun.symm.trans h)
        omega
  · intro hexpanded
    obtain ⟨q', hq', heq⟩ := run_of_expanded hexpanded number maxLines
    obtain rfl := Except.ok.inj (h.symm.trans hq')
    exact heq

end Pass

/-! ## Whole expansions -/

variable {table : MacroTable}

theorem expanded_of_entries_eq_nil {lines : List Line} (h : table.entries = []) :
    table.Expanded none lines := by
  intro i hi
  refine MacroTable.called?_eq_none_iff.2 fun _ call _ => ?_
  simp [Catalog.find?, h]

namespace Expansion

theorem runPasses_of_expanded {lines : List Line} (h : table.Expanded none lines) (limits : Limits)
    (left : Nat) (log : Array Event) :
    (runPasses table limits left lines log).result = .ok lines := by
  cases left with
  | zero => simp [runPasses, MacroTable.firstCall?_eq_none_iff.2 h]
  | succ left =>
    obtain ⟨q, hq, hexpanded⟩ :=
      Pass.run_of_expanded (p := .start lines) h (limits.passes - left) limits.lines
    have hzero : q.expanded = 0 := hexpanded
    have hlines : q.output.toList = lines := by
      rw [Pass.output_of_run_start hq, MacroTable.onePass_of_expanded h]
    simp [runPasses, hq, hzero, hlines]

theorem expand_eq_runPasses (table : MacroTable) (limits : Limits) (lines : List Line) :
    expand table limits lines = (runPasses table limits limits.passes lines #[]).result := by
  unfold expand run
  split
  · rename_i hempty
    have hexpanded : table.Expanded none lines :=
      expanded_of_entries_eq_nil (List.isEmpty_iff.1 hempty)
    rw [runPasses_of_expanded hexpanded]
  · rfl

/-- An expansion makes its first `n` passes : each of them ends and replaces a call. -/
def MakesPasses (table : MacroTable) (limits : Limits) (lines : List Line) (n : Nat) : Prop :=
  n ≤ limits.passes ∧ ∀ k < n, ∃ p, 0 < p.expanded ∧
    Pass.run table (k + 1) limits.lines (.start (table.afterPasses k lines))
      (table.afterPasses k lines) = .ok p

namespace MakesPasses

variable {limits : Limits} {lines : List Line} {n : Nat}

/-- After the passes that it makes, an expansion goes on with the stream that they leave. -/
theorem runPasses_eq (h : MakesPasses table limits lines n) (log : Array Event) :
    ∃ log', runPasses table limits limits.passes lines log =
      runPasses table limits (limits.passes - n) (table.afterPasses n lines) log' := by
  induction n with
  | zero => exact ⟨log, rfl⟩
  | succ n ih =>
    obtain ⟨hle, hpasses⟩ := h
    obtain ⟨log', hlog'⟩ := ih ⟨by omega, fun k hk => hpasses k (by omega)⟩
    obtain ⟨p, hexpanded, hrun⟩ := hpasses n (by omega)
    have houtput : p.output.toList = table.afterPasses (n + 1) lines := by
      rw [MacroTable.afterPasses_succ, Pass.output_of_run_start hrun]
    have hleft : limits.passes - n = limits.passes - (n + 1) + 1 := by omega
    have hnumber : limits.passes - (limits.passes - (n + 1)) = n + 1 := by omega
    rw [hlog', hleft]
    simp only [runPasses, hnumber, hrun, if_neg hexpanded.ne', houtput]
    exact ⟨_, rfl⟩

theorem expand_of_expanded (h : MakesPasses table limits lines n)
    (hlast : table.Expanded none (table.afterPasses n lines)) :
    expand table limits lines = .ok (table.afterPasses n lines) := by
  obtain ⟨log, hlog⟩ := h.runPasses_eq #[]
  rw [expand_eq_runPasses, hlog, runPasses_of_expanded hlast]

theorem expand_of_firstCall? (h : MakesPasses table limits lines limits.passes) {m : Macro}
    {site : Line}
    (hlast : table.firstCall? none (table.afterPasses limits.passes lines) = some (m, site)) :
    expand table limits lines = .error ⟨m.name, limits.passes, none, site⟩ := by
  obtain ⟨log, hlog⟩ := h.runPasses_eq #[]
  rw [expand_eq_runPasses, hlog, Nat.sub_self]
  simp only [runPasses, hlast]

theorem expand_of_error (h : MakesPasses table limits lines n) (hn : n < limits.passes)
    {o : Overflow} (hlast : Pass.run table (n + 1) limits.lines (.start (table.afterPasses n lines))
      (table.afterPasses n lines) = .error o) :
    expand table limits lines = .error o := by
  obtain ⟨log, hlog⟩ := h.runPasses_eq #[]
  have hleft : limits.passes - n = limits.passes - (n + 1) + 1 := by omega
  have hnumber : limits.passes - (limits.passes - (n + 1)) = n + 1 := by omega
  rw [expand_eq_runPasses, hlog, hleft]
  simp only [runPasses, hnumber, hlast]

end MakesPasses

/-- Every expansion makes some passes, and then no call is left, or no pass, or the next pass meets
a call that makes the stream too long. -/
theorem exists_lastPass (table : MacroTable) (limits : Limits) (lines : List Line) :
    ∃ n, MakesPasses table limits lines n ∧
      (table.Expanded none (table.afterPasses n lines) ∨
        (n = limits.passes ∧
          ∃ m site, table.firstCall? none (table.afterPasses n lines) = some (m, site)) ∨
        n < limits.passes ∧ ∃ o, Pass.run table (n + 1) limits.lines
          (.start (table.afterPasses n lines)) (table.afterPasses n lines) = .error o) := by
  suffices hfrom : ∀ left n, n + left = limits.passes → MakesPasses table limits lines n → _ from
    hfrom limits.passes 0 (Nat.zero_add _) ⟨Nat.zero_le _, by simp⟩
  intro left
  induction left with
  | zero =>
    intro n hn hmakes
    refine ⟨n, hmakes, ?_⟩
    cases hcall : table.firstCall? none (table.afterPasses n lines) with
    | none => exact Or.inl (MacroTable.firstCall?_eq_none_iff.1 hcall)
    | some c => exact Or.inr (Or.inl ⟨hn, c.1, c.2, rfl⟩)
  | succ left ih =>
    intro n hn hmakes
    cases hrun : Pass.run table (n + 1) limits.lines (.start (table.afterPasses n lines))
      (table.afterPasses n lines) with
    | error o => exact ⟨n, hmakes, Or.inr (Or.inr ⟨by omega, o, hrun⟩)⟩
    | ok p =>
      rcases Nat.eq_zero_or_pos p.expanded with hzero | hpos
      · exact ⟨n, hmakes, Or.inl ((Pass.expanded_iff_of_run hrun).1 hzero)⟩
      · refine ih (n + 1) (by omega) ⟨by omega, fun k hk => ?_⟩
        rcases Nat.lt_succ_iff_lt_or_eq.1 hk with hk | rfl
        · exact hmakes.2 k hk
        · exact ⟨p, hpos, hrun⟩

end Expansion

/-- What an expansion gives. It fails where a call makes the stream too long, and else succeeds if
no call is left after the last pass. -/
theorem expand_cases (table : MacroTable) (limits : Limits) (lines : List Line) :
    (∃ o, expand table limits lines = .error o ∧ o.lineLimit = some limits.lines) ∨
      (table.Expanded none (table.afterPasses limits.passes lines) ∧
        expand table limits lines = .ok (table.afterPasses limits.passes lines)) ∨
      ¬table.Expanded none (table.afterPasses limits.passes lines) ∧
        ∃ o, expand table limits lines = .error o ∧ o.lineLimit = none := by
  obtain ⟨n, hmakes, hexpanded | ⟨rfl, m, site, hcall⟩ | ⟨hn, o, ho⟩⟩ :=
    Expansion.exists_lastPass table limits lines
  · rw [MacroTable.afterPasses_eq_of_expanded hexpanded hmakes.1]
    exact Or.inr (Or.inl ⟨hexpanded, hmakes.expand_of_expanded hexpanded⟩)
  · refine Or.inr (Or.inr ⟨fun h => ?_, _, hmakes.expand_of_firstCall? hcall, rfl⟩)
    rw [← MacroTable.firstCall?_eq_none_iff, hcall] at h
    cases h
  · obtain ⟨-, block, m, arguments, -, ho'⟩ := Pass.exists_call_of_run ho
    exact Or.inl ⟨o, hmakes.expand_of_error hn ho, by rw [ho']⟩

/-- An expansion that succeeds gives the stream after the last pass, and no call is left in it. -/
theorem expand_eq_ok {limits : Limits} {lines out : List Line}
    (h : expand table limits lines = .ok out) :
    table.Expanded none out ∧ out = table.afterPasses limits.passes lines := by
  rcases expand_cases table limits lines with ⟨o, ho, -⟩ | ⟨hexpanded, hok⟩ | ⟨-, o, ho, -⟩
  · cases h.symm.trans ho
  · obtain rfl := Except.ok.inj (h.symm.trans hok)
    exact ⟨hexpanded, rfl⟩
  · cases h.symm.trans ho

/-- An expanded stream holds no call. -/
theorem expanded_of_expand {limits : Limits} {lines out : List Line}
    (h : expand table limits lines = .ok out) : table.Expanded none out :=
  (expand_eq_ok h).1

/-- A stream without calls is its own expansion, whatever the limits. -/
theorem expand_of_expanded {lines : List Line} (h : table.Expanded none lines) (limits : Limits) :
    expand table limits lines = .ok lines := by
  rw [Expansion.expand_eq_runPasses, Expansion.runPasses_of_expanded h]

/-! ## Tables in which the same is found -/

section Lookups

variable {other : MacroTable}

theorem MacroTable.called?_congr (h : ∀ name, table.find? name = other.find? name) :
    table.called? = other.called? := by
  funext block line
  cases block with
  | some a => rfl
  | none => simp only [called?, h]

theorem MacroTable.firstCall?_congr (h : table.called? = other.called?) (block : Option Addon)
    (lines : List Line) : table.firstCall? block lines = other.firstCall? block lines := by
  induction lines generalizing block with
  | nil => rfl
  | cons line rest ih => simp only [firstCall?, h, ih]

theorem Pass.run_congr (h : table.called? = other.called?) (number maxLines : Nat) (p : Pass)
    (lines : List Line) :
    run table number maxLines p lines = run other number maxLines p lines := by
  induction lines generalizing p with
  | nil => rfl
  | cons line rest ih => simp only [run, h, ih]

theorem Expansion.runPasses_congr (h : table.called? = other.called?) (limits : Limits) (left : Nat)
    (lines : List Line) (log : Array Event) :
    runPasses table limits left lines log = runPasses other limits left lines log := by
  induction left generalizing lines log with
  | zero => simp only [runPasses, MacroTable.firstCall?_congr h]
  | succ left ih => simp only [runPasses, Pass.run_congr h, ih]

/-- What an expansion gives depends on the table only through what is found in it. -/
theorem expand_congr (h : ∀ name, table.find? name = other.find? name) (limits : Limits)
    (lines : List Line) : expand table limits lines = expand other limits lines := by
  simp only [expand, Expansion.run, Catalog.isEmpty_entries_congr h,
    Expansion.runPasses_congr (MacroTable.called?_congr h)]

end Lookups

/-! ## Properties of lines -/

/-- The lines that a call stands for have the property if the call has it. -/
def MacroTable.Keeps (table : MacroTable) (p : Line → Prop) : Prop :=
  ∀ block call m arguments, p call → table.called? block call = some (m, arguments) →
    ∀ line ∈ m.linesAt call arguments, p line

variable {p : Line → Prop}

theorem MacroTable.forall_mem_onePass (hkeeps : table.Keeps p) {block : Option Addon}
    {lines : List Line} (hlines : ∀ line ∈ lines, p line) :
    ∀ line ∈ table.onePass block lines, p line := by
  induction lines generalizing block with
  | nil => simp [onePass]
  | cons line rest ih =>
    have hline : p line := hlines line (by simp)
    have hrest : ∀ l ∈ rest, p l := fun l hl => hlines l (by simp [hl])
    unfold onePass
    split
    · exact List.forall_mem_cons.2 ⟨hline, ih hrest⟩
    · rename_i m arguments hcall
      exact List.forall_mem_append.2 ⟨hkeeps _ line m arguments hline hcall, ih hrest⟩

theorem MacroTable.forall_mem_afterPasses (hkeeps : table.Keeps p) (n : Nat) {lines : List Line}
    (hlines : ∀ line ∈ lines, p line) : ∀ line ∈ table.afterPasses n lines, p line := by
  induction n generalizing lines with
  | zero => exact hlines
  | succ n ih => exact ih (forall_mem_onePass hkeeps hlines)

/-- A property of all lines of a stream that calls hand on holds of all lines of its expansion. -/
theorem forall_mem_expand {limits : Limits} {lines out : List Line} (hkeeps : table.Keeps p)
    (hlines : ∀ line ∈ lines, p line) (h : expand table limits lines = .ok out) :
    ∀ line ∈ out, p line := by
  obtain ⟨-, rfl⟩ := expand_eq_ok h
  exact MacroTable.forall_mem_afterPasses hkeeps _ hlines

/-! ## Passes that put in no marks -/

theorem Addon.afterAll_of_not_isMark {block : Option Addon} {lines : List Line}
    (h : ∀ line ∈ lines, ¬Addon.IsMark line.text) : Addon.afterAll block lines = block := by
  induction lines with
  | nil => rfl
  | cons line rest ih =>
    rw [afterAll_cons, after_of_not_isMark (h line (by simp))]
    exact ih fun l hl => h l (by simp [hl])

theorem Addon.placed_of_not_isMark {block : Option Addon} {lines : List Line}
    (h : ∀ line ∈ lines, ¬Addon.IsMark line.text) :
    Addon.placed block lines = lines.map fun line => (block, line) := by
  induction lines with
  | nil => rfl
  | cons line rest ih =>
    rw [placed, after_of_not_isMark (h line (by simp)), ih fun l hl => h l (by simp [hl])]
    rfl

namespace MacroTable

/-- None of the lines that the first passes over a stream put in is a mark of an addon. -/
def PutsInNoMark (table : MacroTable) (passes : Nat) (lines : List Line) : Prop :=
  ∀ n < passes, ∀ line ∈ table.putIn none (table.afterPasses n lines), ¬Addon.IsMark line.text

instance (table : MacroTable) (passes : Nat) (lines : List Line) :
    Decidable (table.PutsInNoMark passes lines) :=
  inferInstanceAs (Decidable (∀ n < passes,
    ∀ line ∈ table.putIn none (table.afterPasses n lines), ¬Addon.IsMark line.text))

theorem PutsInNoMark.succ {n : Nat} {lines : List Line} (h : table.PutsInNoMark (n + 1) lines) :
    (∀ line ∈ table.putIn none lines, ¬Addon.IsMark line.text) ∧
      table.PutsInNoMark n (table.onePass none lines) :=
  ⟨h 0 (by omega), fun k hk => h (k + 1) (by omega)⟩

/-- What a line becomes in a pass : a call the lines that it stands for, in the block of the call.
-/
def rewrite (table : MacroTable) (p : Option Addon × Line) : List (Option Addon × Line) :=
  match table.called? p.1 p.2 with
  | none => [p]
  | some (m, arguments) => (m.linesAt p.2 arguments).map fun line => (p.1, line)

/-- A pass that puts in no mark rewrites each line in its own block. -/
theorem placed_onePass {block : Option Addon} {lines : List Line}
    (h : ∀ line ∈ table.putIn block lines, ¬Addon.IsMark line.text) :
    Addon.placed block (table.onePass block lines) =
      (Addon.placed block lines).flatMap table.rewrite := by
  induction lines generalizing block with
  | nil => rfl
  | cons line rest ih =>
    cases hcall : table.called? block line with
    | none =>
      simp only [putIn, hcall] at h
      simp [onePass, hcall, Addon.placed, rewrite, ih h]
    | some c =>
      obtain ⟨m, arguments⟩ := c
      simp only [putIn, hcall, List.forall_mem_append] at h
      obtain ⟨hlines, hrest⟩ := h
      rw [Addon.afterAll_of_not_isMark hlines] at hrest
      simp only [onePass, hcall, Addon.placed_append, Addon.afterAll_of_not_isMark hlines,
        Addon.placed_of_not_isMark hlines, ih hrest, Addon.placed, List.flatMap_cons,
        after_of_called? hcall]
      simp [rewrite, hcall]

end MacroTable

end ZScript
