import Mathlib.Data.ENat.Lattice
import Mathlib.Data.List.Forall2
import Mathlib.Order.CompletePartialOrder
import ZScript.Proofs.EndingCalls

/-!
# Expansion by recursion

A call can also be expanded all the way before the next line is looked at : `MacroTable.Unfolded`
replaces each call by the lines it stands for, with the calls among them replaced in the same way,
and has at most one result (`Unfolded.unique`). The depth of a line is the depth of that recursion,
and is infinite if the recursion does not end, be it that calls lead to calls for ever or that the
loop over a template never ends (`depth_of_plain`, `depth_of_call`, `depth_of_endless`).

Passes go over the whole stream instead, and each replaces one layer of calls. As long as calls
stand for no marks of addons, the next pass meets a call that does not end, or one that makes the
stream too long, or it rewrites each line in its own block (`Expansion.step_cases`). So an expansion
with `n` passes to go succeeds exactly if every line outside addon blocks has at most depth `n`
(`Expansion.succeeds_iff_within`), and then it gives the lines expanded down to that depth
(`Expansion.eq_flatMap_unfold`).
-/

namespace ZScript

namespace MacroTable

variable {table : MacroTable}

/-! ## Depth -/

open Classical in
/-- The depth of a line, looked at down to depth `n` only. -/
noncomputable def depthUpTo (table : MacroTable) : Nat → Line → ℕ∞
  | 0, _ => 0
  | n + 1, line =>
    match table.called? none line with
    | none => 0
    | some (m, arguments) =>
      if m.Ends arguments then 1 + ⨆ l ∈ m.linesAt line arguments, depthUpTo table n l else ⊤

/-- How many calls deep a line has to be expanded. -/
noncomputable def depth (table : MacroTable) (line : Line) : ℕ∞ :=
  ⨆ n, table.depthUpTo n line

/-- A line that calls no macro has depth 0. -/
theorem depth_of_plain {line : Line} (h : table.called? none line = none) :
    table.depth line = 0 := by
  have hzero : ∀ n, table.depthUpTo n line = 0 := by
    intro n
    cases n with
    | zero => rfl
    | succ n => rw [depthUpTo, h]
  simp [depth, hzero]

/-- A call is one deeper than the deepest line that it stands for. -/
theorem depth_of_call {line : Line} {m : Macro} {arguments : List String}
    (h : table.called? none line = some (m, arguments)) (hends : m.Ends arguments) :
    table.depth line = 1 + ⨆ l ∈ m.linesAt line arguments, table.depth l := by
  have hsucc : ∀ n, table.depthUpTo (n + 1) line =
      1 + ⨆ l ∈ m.linesAt line arguments, table.depthUpTo n l := by
    intro n
    simp only [depthUpTo, h, if_pos hends]
  calc table.depth line
      = table.depthUpTo 0 line ⊔ ⨆ n, table.depthUpTo (n + 1) line :=
        (sup_iSup_nat_succ fun n => table.depthUpTo n line).symm
    _ = ⨆ n, (1 + ⨆ l ∈ m.linesAt line arguments, table.depthUpTo n l) := by
        simp only [hsucc]
        exact bot_sup_eq _
    _ = 1 + ⨆ n, ⨆ l ∈ m.linesAt line arguments, table.depthUpTo n l := (ENat.add_iSup _).symm
    _ = 1 + ⨆ l ∈ m.linesAt line arguments, table.depth l := by
        rw [iSup_comm]
        exact congrArg (1 + ·) (iSup_congr fun l => iSup_comm)

/-- A call that does not end is infinitely deep. -/
theorem depth_of_endless {line : Line} {m : Macro} {arguments : List String}
    (h : table.called? none line = some (m, arguments)) (hendless : ¬m.Ends arguments) :
    table.depth line = ⊤ := by
  have hone : table.depthUpTo 1 line = ⊤ := by simp only [depthUpTo, h, if_neg hendless]
  exact top_le_iff.1 (hone ▸ le_iSup (fun n => table.depthUpTo n line) 1)

theorem depth_le_zero_iff {line : Line} :
    table.depth line ≤ 0 ↔ table.called? none line = none := by
  cases h : table.called? none line with
  | none => simp [depth_of_plain h]
  | some c =>
    by_cases hends : c.1.Ends c.2
    · simp [depth_of_call h hends]
    · simp [depth_of_endless h hends]

theorem depth_le_succ_iff {line : Line} {m : Macro} {arguments : List String}
    (h : table.called? none line = some (m, arguments)) (n : Nat) :
    table.depth line ≤ n + 1 ↔
      m.Ends arguments ∧ ∀ l ∈ m.linesAt line arguments, table.depth l ≤ n := by
  by_cases hends : m.Ends arguments
  · rw [depth_of_call h hends, add_comm, ENat.add_le_add_iff_right ENat.one_ne_top, iSup₂_le_iff,
      and_iff_right hends]
  · rw [depth_of_endless h hends]
    simp [hends]

/-! ## Recursion -/

/-- Lines with each call replaced by the lines that it stands for, in which each call is replaced in
the same way. -/
inductive Unfolded (table : MacroTable) : List Line → List Line → Prop
  | nil : Unfolded table [] []
  | keep {line : Line} {rest out : List Line} (hline : table.called? none line = none)
      (hrest : Unfolded table rest out) : Unfolded table (line :: rest) (line :: out)
  | call {line : Line} {m : Macro} {arguments : List String} {rest lines out : List Line}
      (hline : table.called? none line = some (m, arguments)) (hends : m.Ends arguments)
      (hlines : Unfolded table (m.linesAt line arguments) lines)
      (hrest : Unfolded table rest out) : Unfolded table (line :: rest) (lines ++ out)

namespace Unfolded

theorem unique {lines out out' : List Line} (h : table.Unfolded lines out)
    (h' : table.Unfolded lines out') : out = out' := by
  induction h generalizing out' with
  | nil =>
    cases h'
    rfl
  | keep hline _ ih =>
    cases h' with
    | keep _ hrest' => rw [ih hrest']
    | call hline' => simp [hline] at hline'
  | call hline _ _ _ ihlines ihrest =>
    cases h' with
    | keep hline' => simp [hline] at hline'
    | call hline' _ hlines' hrest' =>
      obtain ⟨rfl, rfl⟩ := Prod.mk.inj (Option.some.inj (hline.symm.trans hline'))
      rw [ihlines hlines', ihrest hrest']

theorem cons {line : Line} {rest lines out : List Line} (h : table.Unfolded [line] lines)
    (hrest : table.Unfolded rest out) : table.Unfolded (line :: rest) (lines ++ out) := by
  cases h with
  | keep hline hnil =>
    cases hnil
    exact keep hline hrest
  | call hline hends hlines hnil =>
    cases hnil
    rw [List.append_nil]
    exact call hline hends hlines hrest

theorem flatMap {lines : List Line} {f : Line → List Line}
    (h : ∀ line ∈ lines, table.Unfolded [line] (f line)) :
    table.Unfolded lines (lines.flatMap f) := by
  induction lines with
  | nil => exact nil
  | cons line rest ih => exact cons (h line (by simp)) (ih fun l hl => h l (by simp [hl]))

end Unfolded

/-- What a line of a stream stands for : itself inside an addon block, and what recursion makes of it
outside. -/
def UnfoldsTo (table : MacroTable) (p : Option Addon × Line) (group : List Line) : Prop :=
  match p.1 with
  | some _ => group = [p.2]
  | none => table.Unfolded [p.2] group

theorem unfoldsTo_unique : Relator.RightUnique table.UnfoldsTo := by
  rintro ⟨block, line⟩ group group' h h'
  cases block with
  | some a => exact Eq.trans h (Eq.symm h')
  | none => exact Unfolded.unique h h'

/-! ## Layers of calls -/

/-- A line with its calls replaced down to depth `n`. -/
def unfold (table : MacroTable) : Nat → Option Addon × Line → List Line
  | 0, p => [p.2]
  | n + 1, p =>
    match table.called? p.1 p.2 with
    | none => [p.2]
    | some (m, arguments) =>
      (m.linesAt p.2 arguments).flatMap fun line => unfold table n (p.1, line)

theorem unfold_succ (n : Nat) (p : Option Addon × Line) :
    table.unfold (n + 1) p = (table.rewrite p).flatMap (table.unfold n) := by
  cases hcall : table.called? p.1 p.2 with
  | none =>
    have hstay : ∀ k, table.unfold k p = [p.2] := by
      intro k
      cases k with
      | zero => rfl
      | succ k => simp [unfold, hcall]
    simp [rewrite, hcall, hstay]
  | some c => simp [unfold, rewrite, hcall, List.flatMap_map]

/-- Whether a line outside addon blocks has at most the given depth; lines inside are let be. -/
def Within (table : MacroTable) (n : Nat) (p : Option Addon × Line) : Prop :=
  p.1 = none → table.depth p.2 ≤ n

theorem within_zero_iff {p : Option Addon × Line} :
    table.Within 0 p ↔ table.called? p.1 p.2 = none := by
  obtain ⟨block, line⟩ := p
  cases block with
  | some a => simp [Within, called?]
  | none => simpa [Within] using depth_le_zero_iff

theorem within_succ_iff {n : Nat} {p : Option Addon × Line} : table.Within (n + 1) p ↔
    (∀ m arguments, table.called? p.1 p.2 = some (m, arguments) → m.Ends arguments) ∧
      ∀ q ∈ table.rewrite p, table.Within n q := by
  obtain ⟨block, line⟩ := p
  cases hcall : table.called? block line with
  | none =>
    have hdepth : ∀ k, table.Within k (block, line) := by
      rintro k rfl
      simp [depth_of_plain hcall]
    simp [rewrite, hcall, hdepth]
  | some c =>
    obtain ⟨m, arguments⟩ := c
    obtain rfl := block_of_called? hcall
    simp [rewrite, hcall, Within, depth_le_succ_iff hcall n]

/-- Down to its depth a line is expanded all the way. -/
theorem unfolded_unfold {n : Nat} {line : Line} (h : table.depth line ≤ n) :
    table.Unfolded [line] (table.unfold n (none, line)) := by
  induction n generalizing line with
  | zero => exact .keep (depth_le_zero_iff.1 (by simpa using h)) .nil
  | succ n ih =>
    cases hcall : table.called? none line with
    | none =>
      have hunfold : table.unfold (n + 1) (none, line) = [line] := by simp [unfold, hcall]
      rw [hunfold]
      exact .keep hcall .nil
    | some c =>
      obtain ⟨m, arguments⟩ := c
      obtain ⟨hends, hlines⟩ := (depth_le_succ_iff hcall n).1 (by simpa using h)
      have hunfold : table.unfold (n + 1) (none, line) =
          (m.linesAt line arguments).flatMap (fun l => table.unfold n (none, l)) ++ [] := by
        simp [unfold, hcall]
      rw [hunfold]
      exact .call hcall hends (.flatMap fun l hl => ih (hlines l hl)) .nil

theorem unfoldsTo_unfold {n : Nat} {p : Option Addon × Line} (h : table.Within n p) :
    table.UnfoldsTo p (table.unfold n p) := by
  obtain ⟨block, line⟩ := p
  cases block with
  | some a => cases n <;> rfl
  | none => exact unfolded_unfold (h rfl)

end MacroTable

/-! ## Passes -/

namespace Expansion

variable {table : MacroTable} {limits : Limits} {left : Nat} {lines : List Line}

/-- The next pass ends and rewrites each line in its own block, and the expansion goes on with the
stream that it makes. -/
structure Advances (table : MacroTable) (limits : Limits) (left : Nat) (lines : List Line) :
    Prop where
  placed : Addon.placed none (table.onePass none lines) =
    (Addon.placed none lines).flatMap table.rewrite
  ends : ∀ p ∈ Addon.placed none lines, ∀ m arguments,
    table.called? p.1 p.2 = some (m, arguments) → m.Ends arguments
  noMark : StandForNoMark (Meets table limits left (table.onePass none lines))
  allEnd_iff : AllEnd (Meets table limits (left + 1) lines) ↔
    AllEnd (Meets table limits left (table.onePass none lines))
  result : (runPasses table limits (left + 1) lines #[]).result =
    (runPasses table limits left (table.onePass none lines) #[]).result

/-- The next pass meets a call that does not end, or a call that makes the stream too long, or else
the expansion goes on. -/
theorem step_cases (hmarks : StandForNoMark (Meets table limits (left + 1) lines)) :
    (¬AllEnd (Meets table limits (left + 1) lines) ∧ ∃ call m arguments,
      (none, call) ∈ Addon.placed none lines ∧
        table.called? none call = some (m, arguments) ∧ ¬m.Ends arguments) ∨
    (AllEnd (Meets table limits (left + 1) lines) ∧ ∃ o,
      (runPasses table limits (left + 1) lines #[]).result = .error o ∧
        o.lineLimit = some limits.lines) ∨
    Advances table limits left lines := by
  have hpass : StandForNoMark (Pass.Meets table limits.lines (.start lines) lines) :=
    fun _ _ _ h => hmarks _ _ _ (.here h)
  by_cases hends : AllEnd (Pass.Meets table limits.lines (.start lines) lines)
  · refine Or.inr ?_
    cases hrun : Pass.run table (limits.passes - left) limits.lines (.start lines) lines with
    | error o =>
      obtain ⟨-, block, m, arguments, -, ho⟩ := Pass.exists_call_of_run hrun
      refine Or.inl
        ⟨fun call m arguments hmeets => ?_, o, by simp only [runPasses, hrun], by rw [ho]⟩
      cases hmeets with
      | here hmeets => exact hends _ _ _ hmeets
      | later _ hrun' => cases hrun.symm.trans hrun'
    | ok p =>
      have hputs : ∀ line ∈ table.putIn none lines, ¬Addon.IsMark line.text := by
        intro line hline
        obtain ⟨call, m, arguments, hmeets, hmem⟩ := Pass.Meets.of_mem_putIn hrun hends hline
        exact hpass _ _ _ hmeets (hends _ _ _ hmeets) line hmem
      exact Or.inr
        { placed := MacroTable.placed_onePass hputs
          ends := fun q hq m arguments hcall =>
            hends _ _ _ (Pass.Meets.of_mem_placed hrun hends hpass hq hcall)
          noMark := fun _ _ _ h => hmarks _ _ _ (h.of_onePass hends hrun)
          allEnd_iff := by rw [allEnd_succ_iff hrun, and_iff_right hends]
          result := result_runPasses_succ hrun }
  · refine Or.inl ⟨fun h => hends fun _ _ _ hmeets => h _ _ _ (.here hmeets), ?_⟩
    simp only [AllEnd, not_forall] at hends
    obtain ⟨call, m, arguments, hmeets, hendless⟩ := hends
    obtain ⟨hmem, hcall⟩ := hmeets.mem_placed hpass
    exact ⟨call, m, arguments, hmem, hcall, hendless⟩

theorem Advances.forall_within_iff (h : Advances table limits left lines) (n : Nat) :
    (∀ p ∈ Addon.placed none (table.onePass none lines), table.Within n p) ↔
      ∀ p ∈ Addon.placed none lines, table.Within (n + 1) p := by
  simp only [h.placed, MacroTable.within_succ_iff, List.mem_flatMap, forall_exists_index, and_imp]
  exact ⟨fun hlater p hp => ⟨h.ends p hp, fun q hq => hlater q p hp hq⟩,
    fun hwithin q p hp hq => (hwithin p hp).2 q hq⟩

/-- An expansion with no pass to go succeeds if no call is left. -/
theorem result_zero_iff {out : List Line} :
    (runPasses table limits 0 lines #[]).result = .ok out ↔
      table.Expanded none lines ∧ lines = out := by
  rw [← MacroTable.firstCall?_eq_none_iff, runPasses]
  cases table.firstCall? none lines <;> simp

/-- An expansion succeeds exactly if no line outside addon blocks is deeper than the number of
passes to go. -/
theorem succeeds_iff_within (hmarks : StandForNoMark (Meets table limits left lines))
    (hlimit : AllEnd (Meets table limits left lines) → ∀ o,
      (runPasses table limits left lines #[]).result = .error o → o.lineLimit = none) :
    (AllEnd (Meets table limits left lines) ∧
      ∃ out, (runPasses table limits left lines #[]).result = .ok out) ↔
      ∀ p ∈ Addon.placed none lines, table.Within left p := by
  induction left generalizing lines with
  | zero =>
    have hends : AllEnd (Meets table limits 0 lines) := fun _ _ _ h => nomatch h
    simp [hends, result_zero_iff, MacroTable.expanded_iff_placed, MacroTable.within_zero_iff]
  | succ left ih =>
    rcases step_cases hmarks with
      ⟨hendless, call, m, arguments, hmem, hcall, hnot⟩ | ⟨hends, o, ho, hlines⟩ | hadvances
    · refine iff_of_false (fun h => hendless h.1) fun h => hnot ?_
      exact (MacroTable.within_succ_iff.1 (h _ hmem)).1 m arguments hcall
    · simp [hlimit hends o ho] at hlines
    · rw [hadvances.allEnd_iff, hadvances.result] at hlimit ⊢
      rw [ih hadvances.noMark hlimit, hadvances.forall_within_iff]

/-- An expansion that succeeds gives each line expanded down to the number of passes to go. -/
theorem eq_flatMap_unfold (hmarks : StandForNoMark (Meets table limits left lines))
    (hends : AllEnd (Meets table limits left lines)) {out : List Line}
    (hout : (runPasses table limits left lines #[]).result = .ok out) :
    out = (Addon.placed none lines).flatMap (table.unfold left) := by
  induction left generalizing lines with
  | zero =>
    obtain ⟨-, rfl⟩ := result_zero_iff.1 hout
    calc lines = (Addon.placed none lines).map Prod.snd := (Addon.map_snd_placed none lines).symm
      _ = (Addon.placed none lines).flatMap (table.unfold 0) := List.map_eq_flatMap
  | succ left ih =>
    rcases step_cases hmarks with ⟨hendless, -⟩ | ⟨-, o, ho, -⟩ | hadvances
    · exact absurd hends hendless
    · cases ho.symm.trans hout
    · calc out = (Addon.placed none (table.onePass none lines)).flatMap (table.unfold left) :=
            ih hadvances.noMark (hadvances.allEnd_iff.1 hends) (hadvances.result.symm.trans hout)
        _ = (Addon.placed none lines).flatMap fun p =>
              (table.rewrite p).flatMap (table.unfold left) := by
            rw [hadvances.placed, List.flatMap_assoc]
        _ = (Addon.placed none lines).flatMap (table.unfold (left + 1)) := by
            rw [funext (MacroTable.unfold_succ left)]

end Expansion

/-- Expansion pass by pass agrees with expansion by recursion, as long as no call that is replaced
stands for a mark and no call makes the stream too long. It ends and succeeds if and only if no line
outside addon blocks is deeper than the number of passes, and then gives what recursion makes of the
lines, one after the other. Every expansion ends unless the table has an empty parameter, which no
table has that extraction or a session makes. -/
theorem expand_agrees_with_recursion {table : MacroTable} {limits : Limits} {lines : List Line}
    (hmarks : StandForNoMark (Expansion.Meets table limits limits.passes lines))
    (hlimit : ∀ o, Expands table limits lines (.error o) → o.lineLimit = none) :
    ((∃ out, Expands table limits lines (.ok out)) ↔
      ∀ p ∈ Addon.placed none lines, p.1 = none → table.depth p.2 ≤ limits.passes) ∧
    (∀ out, Expands table limits lines (.ok out) → ∃ groups : List (List Line),
      (∀ other, List.Forall₂ table.UnfoldsTo (Addon.placed none lines) other ↔ other = groups) ∧
        out = groups.flatten) ∧
    (table.NoEmptyParameter → Expands table limits lines (expand table limits lines)) ∧
    (∀ source, (Extraction.ofLines source).table.NoEmptyParameter) ∧
    ∀ (lib : Library) (config : Config) (steps : List Session.Step),
      (steps.foldl (Session.after lib) { config }).macros.NoEmptyParameter := by
  have hresult := Expansion.expand_eq_runPasses table limits lines
  have hwithin : (∃ out, Expands table limits lines (.ok out)) ↔
      ∀ p ∈ Addon.placed none lines, table.Within limits.passes p := by
    rw [← Expansion.succeeds_iff_within hmarks fun hends o ho => hlimit o ⟨hends, hresult.trans ho⟩,
      ← hresult]
    exact exists_and_left
  refine ⟨hwithin, fun out hout => ?_, expands_of_noEmptyParameter,
    Extraction.noEmptyParameter_table, Session.noEmptyParameter_macros⟩
  have hgroups : List.Forall₂ table.UnfoldsTo (Addon.placed none lines)
      ((Addon.placed none lines).map (table.unfold limits.passes)) := by
    rw [List.forall₂_map_right_iff, List.forall₂_same]
    exact fun p hp => MacroTable.unfoldsTo_unfold (hwithin.1 ⟨out, hout⟩ p hp)
  refine ⟨_, fun other => ⟨fun hother => ?_, fun h => h ▸ hgroups⟩, ?_⟩
  · exact List.right_unique_forall₂' MacroTable.unfoldsTo_unique hother hgroups
  · rw [← List.flatMap_def]
    exact Expansion.eq_flatMap_unfold hmarks hout.1 (hresult.symm.trans hout.2)

/-- A macro `f(v)` with a call of `g(v)` in its body. -/
def nestedMacros : MacroTable :=
  ⟨[⟨"f", ["v"], ["<set^x=v>", "g(v)"], ⟨"m", 1, 1⟩⟩,
    ⟨"g", ["v"], ["<alert^class=\"v\">"], ⟨"m", 5, 1⟩⟩]⟩

/-- A call of `f` before an addon block, and one inside it. -/
def shieldedCall : List Line :=
  [⟨"f(1)", ⟨"m", 8, 1⟩, none⟩, ⟨"<addon^index/set^js>", ⟨"m", 9, 1⟩, none⟩,
    ⟨"f(2)", ⟨"m", 10, 1⟩, none⟩]

/-- A macro `f` with an empty parameter, at which the loop over its template stays. -/
def endlessMacro : MacroTable :=
  ⟨[⟨"f", [""], ["a"], ⟨"m", 1, 1⟩⟩]⟩

theorem not_expands_endlessMacro (result : Except Overflow (List Line)) :
    ¬Expands endlessMacro ⟨2, 9⟩ shieldedCall result := by
  rintro ⟨hends, -⟩
  have hcall : endlessMacro.called? none ⟨"f(1)", ⟨"m", 8, 1⟩, none⟩ =
      some (⟨"f", [""], ["a"], ⟨"m", 1, 1⟩⟩, ["1"]) := by
    decide +kernel
  have hfits : (Template.Piece.occurrence "").Fits [""] ['a'] := by simp [Template.Piece.Fits]
  exact hfits.not_ends rfl (by simp) (hends _ _ _ (.here (.here hcall)) "a" (by simp))

/-- Two passes are enough for the two layers of calls, and one is not. They are not enough for a
call that never ends. -/
theorem expand_agrees_with_recursion_shieldedCall :
    (∃ out, Expands nestedMacros ⟨2, 9⟩ shieldedCall (.ok out) ∧
      out.map Line.text = ["<set^x=1>", "<alert^class=\"1\">", "<addon^index/set^js>", "f(2)"] ∧
      (∀ p ∈ Addon.placed none shieldedCall, p.1 = none → nestedMacros.depth p.2 ≤ 2) ∧
      ∃ groups, List.Forall₂ nestedMacros.UnfoldsTo (Addon.placed none shieldedCall) groups ∧
        out = groups.flatten) ∧
    (¬∀ p ∈ Addon.placed none shieldedCall, p.1 = none → nestedMacros.depth p.2 ≤ 1) ∧
    ¬∀ p ∈ Addon.placed none shieldedCall, p.1 = none → endlessMacro.depth p.2 ≤ 2 := by
  have hmarks : nestedMacros.PutsInNoMark 2 shieldedCall := by decide +kernel
  have htwo : (expand nestedMacros ⟨2, 9⟩ shieldedCall).toOption.map (·.map Line.text) =
      some ["<set^x=1>", "<alert^class=\"1\">", "<addon^index/set^js>", "f(2)"] := by
    decide +kernel
  have hone : expand nestedMacros ⟨1, 9⟩ shieldedCall =
      .error ⟨"g", 1, none, ⟨"g(1)", ⟨"m", 8, 1⟩, some "f"⟩⟩ := by
    decide +kernel
  refine ⟨?_, fun hdepth => ?_, fun hdepth => ?_⟩
  · cases hout : expand nestedMacros ⟨2, 9⟩ shieldedCall with
    | error o => simp [hout, Except.toOption] at htwo
    | ok out =>
      obtain ⟨hdepth, hgroups, hexpands, -⟩ :=
        @expand_agrees_with_recursion nestedMacros ⟨2, 9⟩ shieldedCall
          (Expansion.standForNoMark hmarks) (fun o ho => by cases hout.symm.trans ho.2)
      have hok := hexpands (by decide)
      rw [hout] at hok
      obtain ⟨groups, hunique, hflatten⟩ := hgroups out hok
      exact ⟨out, hok, by simpa [hout, Except.toOption] using htwo, hdepth.1 ⟨out, hok⟩, groups,
        (hunique groups).2 rfl, hflatten⟩
  · have hfewer : nestedMacros.PutsInNoMark 1 shieldedCall := fun n hn => hmarks n (by omega)
    obtain ⟨hsuccess, -⟩ := @expand_agrees_with_recursion nestedMacros ⟨1, 9⟩ shieldedCall
      (Expansion.standForNoMark hfewer) (fun o ho => by cases hone.symm.trans ho.2; rfl)
    obtain ⟨out, hout⟩ := hsuccess.2 hdepth
    cases hone.symm.trans hout.2
  · have hendless : endlessMacro.PutsInNoMark 2 shieldedCall := by decide +kernel
    obtain ⟨hsuccess, -⟩ := @expand_agrees_with_recursion endlessMacro ⟨2, 9⟩ shieldedCall
      (Expansion.standForNoMark hendless) (fun o ho => absurd ho (not_expands_endlessMacro _))
    obtain ⟨out, hout⟩ := hsuccess.2 hdepth
    exact not_expands_endlessMacro _ hout

end ZScript
