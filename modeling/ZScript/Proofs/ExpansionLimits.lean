import ZScript.Proofs.Expansion
import ZScript.Proofs.Substitution

/-!
# The limits of an expansion

The limits decide whether an expansion gives a stream, and not which. An expansion succeeds exactly
if the passes that it makes leave a stream without calls (`expand_eq_ok_iff`), and a pass that ends
within a line limit goes the same way under every higher one (`Pass.run_mono`), so the passes made
under some limits are made under all higher limits (`higher_limits_same_expansion`).

The line limit is looked at when a call is replaced. The lines put out and the lines still to read
only change in number at a call, so from the first replaced call on a pass stays within the limit
(`Pass.Sized`), and so does every stream that a pass with a call leaves
(`expansion_within_line_limit`).

An expansion that fails does so in the middle of a pass or in the search after the last one
(`expand_eq_error_iff`), and in both cases at a line of a stream between passes that calls a macro
outside addon blocks. What it reports of that line is true (`overflow_truthful`).
-/

namespace ZScript

/-! ## A pass within a line limit -/

namespace Pass

variable {table : MacroTable} {number maxLines : Nat}

/-- A pass over a stream goes on, behind a part of it, from where it stands there. -/
theorem run_append {p q : Pass} {before : List Line}
    (h : run table number maxLines p before = .ok q) (after : List Line) :
    run table number maxLines p (before ++ after) = run table number maxLines q after := by
  induction before generalizing p with
  | nil =>
    obtain rfl := Except.ok.inj h
    rfl
  | cons line rest ih =>
    rcases run_cons_cases table number maxLines p line rest with
      ⟨hcall, hrun⟩ | ⟨m, arguments, hcall, -, hrun⟩ | ⟨m, arguments, hcall, hfits, hrun⟩
    · simpa only [List.cons_append, run, hcall] using ih (hrun.symm.trans h)
    · cases hrun.symm.trans h
    · simpa only [List.cons_append, run, hcall, if_neg hfits.not_gt] using ih (hrun.symm.trans h)

/-- A pass that ends within a line limit goes the same way under every higher limit. -/
theorem run_mono {maxLines' : Nat} (hle : maxLines ≤ maxLines') {p q : Pass} {lines : List Line}
    (h : run table number maxLines p lines = .ok q) :
    run table number maxLines' p lines = .ok q := by
  induction lines generalizing p with
  | nil => exact h
  | cons line rest ih =>
    rcases run_cons_cases table number maxLines p line rest with
      ⟨hcall, hrun⟩ | ⟨m, arguments, hcall, -, hrun⟩ | ⟨m, arguments, hcall, hfits, hrun⟩
    · simpa only [run, hcall] using ih (hrun.symm.trans h)
    · cases hrun.symm.trans h
    · have hfits' : (p.replace (m.linesAt line arguments)).size ≤ maxLines' := hfits.trans hle
      simpa only [run, hcall, if_neg hfits'.not_gt] using ih (hrun.symm.trans h)

/-- The size of a pass is the number of lines put out and of lines still to read, and is within the
limit once a call is replaced. -/
structure Sized (maxLines : Nat) (rest : List Line) (p : Pass) : Prop where
  size_eq : p.size = p.output.size + rest.length
  size_le : 0 < p.expanded → p.size ≤ maxLines

namespace Sized

variable {p q : Pass} {line : Line} {rest : List Line}

theorem start (maxLines : Nat) (lines : List Line) : Sized maxLines lines (.start lines) where
  size_eq := by simp [Pass.start]
  size_le h := by simp [Pass.start] at h

theorem keep (h : Sized maxLines (line :: rest) p) : Sized maxLines rest (p.keep line) where
  size_eq := by
    have hsize : (p.keep line).size = p.size := rfl
    rw [hsize, h.size_eq, Pass.keep, Array.size_push, List.length_cons]
    omega
  size_le := h.size_le

theorem replace {lines : List Line} (h : Sized maxLines (line :: rest) p)
    (hle : (p.replace lines).size ≤ maxLines) : Sized maxLines rest (p.replace lines) where
  size_eq := by
    have hbefore : p.size = p.output.size + (rest.length + 1) := h.size_eq
    have hsize : (p.replace lines).size = p.size - 1 + lines.length := rfl
    have houtput : (p.replace lines).output.size = p.output.size + lines.length := by
      rw [← Array.length_toList, Pass.replace, Array.toList_appendList, List.length_append,
        Array.length_toList]
    omega
  size_le _ := hle

theorem run {before after : List Line} (h : Sized maxLines (before ++ after) p)
    (hrun : Pass.run table number maxLines p before = .ok q) : Sized maxLines after q := by
  induction before generalizing p with
  | nil =>
    obtain rfl := Except.ok.inj hrun
    exact h
  | cons line rest ih =>
    rcases run_cons_cases table number maxLines p line rest with
      ⟨-, hline⟩ | ⟨m, arguments, -, -, hline⟩ | ⟨m, arguments, -, hfits, hline⟩
    · exact ih h.keep (hline.symm.trans hrun)
    · cases hline.symm.trans hrun
    · exact ih (h.replace hfits) (hline.symm.trans hrun)

end Sized

/-- From the first call that it replaces on, a pass stays within the line limit. -/
theorem size_le_of_run {before after : List Line} {p : Pass}
    (h : run table number maxLines (.start (before ++ after)) before = .ok p)
    (hexpanded : 0 < p.expanded) : p.output.size + after.length ≤ maxLines := by
  have hsized := (Sized.start maxLines (before ++ after)).run h
  rw [← hsized.size_eq]
  exact hsized.size_le hexpanded

end Pass

namespace Expansion.MakesPasses

variable {table : MacroTable} {limits limits' : Limits} {lines : List Line} {n : Nat}

theorem mono (h : MakesPasses table limits lines n) (hpasses : limits.passes ≤ limits'.passes)
    (hlines : limits.lines ≤ limits'.lines) : MakesPasses table limits' lines n := by
  refine ⟨h.1.trans hpasses, fun k hk => ?_⟩
  obtain ⟨p, hexpanded, hrun⟩ := h.2 k hk
  exact ⟨p, hexpanded, Pass.run_mono hlines hrun⟩

/-- A pass that replaces a call leaves no more lines than the limit allows. -/
theorem length_le (h : MakesPasses table limits lines (n + 1)) :
    (table.afterPasses (n + 1) lines).length ≤ limits.lines := by
  obtain ⟨p, hexpanded, hrun⟩ := h.2 n (Nat.lt_succ_self n)
  have houtput : p.output.toList = table.afterPasses (n + 1) lines := by
    rw [MacroTable.afterPasses_succ, Pass.output_of_run_start hrun]
  have hsize : p.output.size + ([] : List Line).length ≤ limits.lines :=
    Pass.size_le_of_run (by rwa [List.append_nil]) hexpanded
  rw [← houtput, Array.length_toList]
  exact hsize

end Expansion.MakesPasses

variable {table : MacroTable} {limits : Limits} {lines : List Line}

/-! ## Higher limits -/

/-- An expansion succeeds if and only if the passes that it makes leave no call. -/
theorem expand_eq_ok_iff {out : List Line} : expand table limits lines = .ok out ↔
    ∃ n, Expansion.MakesPasses table limits lines n ∧
      table.Expanded none (table.afterPasses n lines) ∧ out = table.afterPasses n lines := by
  constructor
  · intro h
    obtain ⟨n, hmakes, hexpanded | ⟨rfl, m, site, hcall⟩ | ⟨hn, o, ho⟩⟩ :=
      Expansion.exists_lastPass table limits lines
    · have hout := hmakes.expand_of_expanded hexpanded
      exact ⟨n, hmakes, hexpanded, Except.ok.inj (h.symm.trans hout)⟩
    · cases h.symm.trans (hmakes.expand_of_firstCall? hcall)
    · cases h.symm.trans (hmakes.expand_of_error hn ho)
  · rintro ⟨n, hmakes, hexpanded, rfl⟩
    exact hmakes.expand_of_expanded hexpanded

theorem expand_of_higher_limits {limits' : Limits} {out : List Line}
    (hpasses : limits.passes ≤ limits'.passes) (hlines : limits.lines ≤ limits'.lines)
    (h : expand table limits lines = .ok out) : expand table limits' lines = .ok out := by
  obtain ⟨n, hmakes, hout⟩ := expand_eq_ok_iff.1 h
  exact expand_eq_ok_iff.2 ⟨n, hmakes.mono hpasses hlines, hout⟩

/-- The limits decide whether an expansion gives a stream, and not which : what it gives under some
limits it gives under all higher limits, and so under any limits under which it gives a stream. -/
theorem higher_limits_same_expansion (table : MacroTable) (lines : List Line) :
    (∀ limits limits' out, limits.passes ≤ limits'.passes → limits.lines ≤ limits'.lines →
      expand table limits lines = .ok out → expand table limits' lines = .ok out) ∧
    ∀ limits limits' out out', expand table limits lines = .ok out →
      expand table limits' lines = .ok out' → out = out' := by
  refine ⟨fun limits limits' out hpasses hlines h => expand_of_higher_limits hpasses hlines h, ?_⟩
  intro limits limits' out out' h h'
  let both : Limits := ⟨max limits.passes limits'.passes, max limits.lines limits'.lines⟩
  have hboth : expand table both lines = .ok out :=
    expand_of_higher_limits (le_max_left _ _) (le_max_left _ _) h
  have hboth' : expand table both lines = .ok out' :=
    expand_of_higher_limits (le_max_right _ _) (le_max_right _ _) h'
  exact Except.ok.inj (hboth.symm.trans hboth')

/-- A macro `f(v)` that stands for two calls of `g(v)`, which stands for two lines. -/
def doublingMacros : MacroTable :=
  ⟨[⟨"f", ["v"], ["g(v)", "g(v)"], ⟨"m", 2, 1⟩⟩,
    ⟨"g", ["v"], ["<set^x=v>", "<end^if>"], ⟨"m", 6, 1⟩⟩]⟩

/-- A call of `f` before a line that is none. -/
def doublingCall : List Line :=
  [⟨"f(1)", ⟨"m", 9, 1⟩, none⟩, ⟨"<end^loop>", ⟨"m", 10, 1⟩, none⟩]

/-- The call with all its calls replaced. -/
def doubledLines : List Line :=
  [⟨"<set^x=1>", ⟨"m", 9, 1⟩, some "g"⟩, ⟨"<end^if>", ⟨"m", 9, 1⟩, some "g"⟩,
    ⟨"<set^x=1>", ⟨"m", 9, 1⟩, some "g"⟩, ⟨"<end^if>", ⟨"m", 9, 1⟩, some "g"⟩,
    ⟨"<end^loop>", ⟨"m", 10, 1⟩, none⟩]

theorem expand_doublingCall : expand doublingMacros ⟨2, 5⟩ doublingCall = .ok doubledLines := by
  decide +kernel

/-- Two passes and five lines are just enough. Under higher limits a third pass finds no call, and
the stream is the same. -/
theorem higher_limits_same_expansion_doublingCall :
    expand doublingMacros ⟨2, 5⟩ doublingCall = .ok doubledLines ∧
      expand doublingMacros ⟨64, 100000⟩ doublingCall = .ok doubledLines ∧
      ∀ limits out, expand doublingMacros limits doublingCall = .ok out → out = doubledLines := by
  obtain ⟨hhigher, hsame⟩ := higher_limits_same_expansion doublingMacros doublingCall
  exact ⟨expand_doublingCall,
    hhigher ⟨2, 5⟩ ⟨64, 100000⟩ doubledLines (by decide) (by decide) expand_doublingCall,
    fun limits out h => hsame limits ⟨2, 5⟩ out doubledLines h expand_doublingCall⟩

/-! ## The lengths of streams -/

/-- The line limit bounds every stream of an expansion but the first. Wherever a pass stands in a
stream, once a call is replaced the lines put out and the lines still to read are within the limit;
so is the stream that a pass with a call leaves, and an expansion gives such a stream, or the stream
as it was, if it has no calls. -/
theorem expansion_within_line_limit (table : MacroTable) (limits : Limits) (lines : List Line) :
    (∀ number before after p,
      Pass.run table number limits.lines (.start (before ++ after)) before = .ok p →
        Pass.run table number limits.lines (.start (before ++ after)) (before ++ after) =
          Pass.run table number limits.lines p after ∧
        (0 < p.expanded → p.output.size + after.length ≤ limits.lines)) ∧
    (∀ n, Expansion.MakesPasses table limits lines (n + 1) →
      (table.afterPasses (n + 1) lines).length ≤ limits.lines) ∧
    ∀ out, expand table limits lines = .ok out →
      (table.Expanded none lines ∧ out = lines) ∨ out.length ≤ limits.lines := by
  refine ⟨fun number before after p h => ⟨Pass.run_append h after, Pass.size_le_of_run h⟩,
    fun n hmakes => hmakes.length_le, fun out hout => ?_⟩
  obtain ⟨n, hmakes, hexpanded, rfl⟩ := expand_eq_ok_iff.1 hout
  cases n with
  | zero => exact Or.inl ⟨hexpanded, rfl⟩
  | succ n => exact Or.inr hmakes.length_le

/-- The second pass stands behind two calls of `g`, with four lines put out and one left to read,
and the limit of five lines is just enough. -/
theorem expansion_within_line_limit_doublingCall :
    Expansion.MakesPasses doublingMacros ⟨2, 5⟩ doublingCall 2 ∧
    (doublingMacros.afterPasses 2 doublingCall).length ≤ 5 ∧
    (∃ before after p, doublingMacros.afterPasses 1 doublingCall = before ++ after ∧
      Pass.run doublingMacros 2 5 (.start (before ++ after)) before = .ok p ∧ 0 < p.expanded ∧
        p.output.size = 4 ∧ after.length = 1 ∧ p.output.size + after.length ≤ 5) ∧
    expand doublingMacros ⟨2, 5⟩ doublingCall = .ok doubledLines ∧
    (doublingMacros.Expanded none doublingCall ∧ doubledLines = doublingCall ∨
      doubledLines.length ≤ 5) := by
  obtain ⟨hpoint, hstream, hout⟩ := expansion_within_line_limit doublingMacros ⟨2, 5⟩ doublingCall
  have hfirst : Pass.run doublingMacros 1 5 (.start doublingCall) doublingCall =
      .ok ⟨#[⟨"g(1)", ⟨"m", 9, 1⟩, some "f"⟩, ⟨"g(1)", ⟨"m", 9, 1⟩, some "f"⟩,
        ⟨"<end^loop>", ⟨"m", 10, 1⟩, none⟩], none, 1, 3⟩ := by
    decide +kernel
  have hsecond : Pass.run doublingMacros 2 5 (.start (doublingMacros.afterPasses 1 doublingCall))
      (doublingMacros.afterPasses 1 doublingCall) = .ok ⟨doubledLines.toArray, none, 2, 5⟩ := by
    decide +kernel
  have hmiddle : Pass.run doublingMacros 2 5
      (.start ((doublingMacros.afterPasses 1 doublingCall).take 2 ++
        (doublingMacros.afterPasses 1 doublingCall).drop 2))
      ((doublingMacros.afterPasses 1 doublingCall).take 2) =
        .ok ⟨(doubledLines.take 4).toArray, none, 2, 5⟩ := by
    decide +kernel
  have hmakes : Expansion.MakesPasses doublingMacros ⟨2, 5⟩ doublingCall 2 := by
    refine ⟨Nat.le_refl 2, fun k hk => ?_⟩
    obtain rfl | rfl : k = 0 ∨ k = 1 := by omega
    · exact ⟨_, by decide, hfirst⟩
    · exact ⟨_, by decide, hsecond⟩
  have hleft := (hpoint 2 _ _ _ hmiddle).2 (by decide)
  exact ⟨hmakes, hstream 1 hmakes, ⟨_, _, _, (List.take_append_drop 2 _).symm, hmiddle, by decide,
    rfl, by decide +kernel, hleft⟩, expand_doublingCall, hout doubledLines expand_doublingCall⟩

/-! ## What an overflow says -/

namespace MacroTable

/-- The first call of a stream has only lines before it that are none. -/
theorem exists_of_firstCall? {block : Option Addon} {stream : List Line} {m : Macro} {site : Line}
    (h : table.firstCall? block stream = some (m, site)) : ∃ before after arguments,
      stream = before ++ site :: after ∧
        table.called? (Addon.afterAll block before) site = some (m, arguments) := by
  induction stream generalizing block with
  | nil => cases h
  | cons line rest ih =>
    cases hcall : table.called? block line with
    | none =>
      simp only [firstCall?, hcall] at h
      obtain ⟨before, after, arguments, rfl, hsite⟩ := ih h
      exact ⟨line :: before, after, arguments, rfl, hsite⟩
    | some c =>
      obtain ⟨m', arguments⟩ := c
      simp only [firstCall?, hcall, Option.some.injEq, Prod.mk.injEq] at h
      obtain ⟨rfl, rfl⟩ := h
      exact ⟨[], rest, arguments, rfl, hcall⟩

/-- A line between passes stands at the place of a line of the stream. -/
theorem exists_origin_of_mem_afterPasses {n : Nat} {line : Line}
    (h : line ∈ table.afterPasses n lines) : ∃ source ∈ lines, source.origin = line.origin := by
  have hkeeps : table.Keeps fun line => ∃ source ∈ lines, source.origin = line.origin := by
    rintro block call m arguments ⟨source, hsource, horigin⟩ - line hline
    obtain ⟨template, -, text, -, -, rfl⟩ := Macro.mem_linesAt_iff.1 hline
    exact ⟨source, hsource, by simpa using horigin⟩
  exact forall_mem_afterPasses hkeeps n (fun line hline => ⟨line, hline, rfl⟩) line h

end MacroTable

/-- An expansion fails if and only if the next of its passes does, or a call is left after the
last. -/
theorem expand_eq_error_iff {o : Overflow} : expand table limits lines = .error o ↔
    (∃ n < limits.passes, Expansion.MakesPasses table limits lines n ∧
      Pass.run table (n + 1) limits.lines (.start (table.afterPasses n lines))
        (table.afterPasses n lines) = .error o) ∨
    Expansion.MakesPasses table limits lines limits.passes ∧
      ∃ m site, table.firstCall? none (table.afterPasses limits.passes lines) = some (m, site) ∧
        o = ⟨m.name, limits.passes, none, site⟩ := by
  constructor
  · intro h
    obtain ⟨n, hmakes, hexpanded | ⟨rfl, m, site, hcall⟩ | ⟨hn, o', ho'⟩⟩ :=
      Expansion.exists_lastPass table limits lines
    · cases h.symm.trans (hmakes.expand_of_expanded hexpanded)
    · have ho := Except.error.inj (h.symm.trans (hmakes.expand_of_firstCall? hcall))
      exact Or.inr ⟨hmakes, m, site, hcall, ho⟩
    · obtain rfl := Except.error.inj (h.symm.trans (hmakes.expand_of_error hn ho'))
      exact Or.inl ⟨n, hn, hmakes, ho'⟩
  · rintro (⟨n, hn, hmakes, ho⟩ | ⟨hmakes, m, site, hcall, rfl⟩)
    · exact hmakes.expand_of_error hn ho
    · exact hmakes.expand_of_firstCall? hcall

/-- What an overflow says is true. It names a macro of the table and a call of that macro, which
stands at the place of a line of the stream. Without a line limit, all passes were made, each of
them replaced a call, and the call is left outside addon blocks after the last; with a line limit,
it is that of the expansion, and the pass is one of those allowed. -/
theorem overflow_truthful {o : Overflow} (h : expand table limits lines = .error o) :
    o.name ∈ table.names ∧
    (∃ call, Call.parse? o.site.text = some call ∧ call.name = o.name) ∧
    (∃ line ∈ lines, line.origin = o.site.origin) ∧
    (o.lineLimit = none → o.passes = limits.passes ∧
      (∀ n < limits.passes, ∃ p, 0 < p.expanded ∧
        Pass.run table (n + 1) limits.lines (.start (table.afterPasses n lines))
          (table.afterPasses n lines) = .ok p) ∧
      ∃ before after, table.afterPasses limits.passes lines = before ++ o.site :: after ∧
        Addon.afterAll none before = none) ∧
    ∀ limit, o.lineLimit = some limit →
      limit = limits.lines ∧ 1 ≤ o.passes ∧ o.passes ≤ limits.passes := by
  have hcalled : ∀ {block m arguments}, table.called? block o.site = some (m, arguments) →
      o.name = m.name → o.name ∈ table.names ∧
        ∃ call, Call.parse? o.site.text = some call ∧ call.name = o.name := by
    intro block m arguments hcall hname
    obtain ⟨call, hparse, hfind, -⟩ := MacroTable.called?_eq_some hcall
    have hkey : call.name = o.name := (Catalog.name_of_find? hfind).symm.trans hname.symm
    exact ⟨hkey ▸ Catalog.mem_names_of_find? hfind, call, hparse, hkey⟩
  rcases expand_eq_error_iff.1 h with ⟨n, hn, hmakes, hrun⟩ | ⟨hmakes, m, site, hfirst, rfl⟩
  · obtain ⟨hsite, block, m, arguments, hcall, ho⟩ := Pass.exists_call_of_run hrun
    obtain ⟨hname, hcalls⟩ := hcalled hcall (by rw [ho])
    refine ⟨hname, hcalls, MacroTable.exists_origin_of_mem_afterPasses hsite, ?_, ?_⟩
    · intro hnone
      rw [ho] at hnone
      cases hnone
    · intro limit hlimit
      rw [ho] at hlimit ⊢
      exact ⟨(Option.some.inj hlimit).symm, Nat.succ_le_succ (Nat.zero_le n), hn⟩
  · obtain ⟨before, after, arguments, hstream, hcall⟩ := MacroTable.exists_of_firstCall? hfirst
    obtain ⟨hname, hcalls⟩ := hcalled hcall rfl
    have hsite : site ∈ table.afterPasses limits.passes lines := by simp [hstream]
    refine ⟨hname, hcalls, MacroTable.exists_origin_of_mem_afterPasses hsite, fun _ => ?_, ?_⟩
    · exact ⟨rfl, hmakes.2, before, after, hstream, MacroTable.block_of_called? hcall⟩
    · intro limit hlimit
      cases hlimit

/-- With one pass a call of `g` is left, and with four lines the second call of `g` makes the stream
too long in the second pass. Both stand at the place of the call of `f`. -/
theorem overflow_truthful_doublingCall :
    (∃ o, expand doublingMacros ⟨1, 5⟩ doublingCall = .error o ∧ o.lineLimit = none ∧
      o.passes = 1 ∧ o.site = ⟨"g(1)", ⟨"m", 9, 1⟩, some "f"⟩ ∧
      ∃ before after, doublingMacros.afterPasses 1 doublingCall = before ++ o.site :: after ∧
        Addon.afterAll none before = none) ∧
    ∃ o, expand doublingMacros ⟨64, 4⟩ doublingCall = .error o ∧ o.lineLimit = some 4 ∧
      o.passes = 2 ∧ o.name = "g" ∧ o.name ∈ doublingMacros.names ∧
      (∃ call, Call.parse? o.site.text = some call ∧ call.name = "g") ∧
      ∃ line ∈ doublingCall, line.origin = o.site.origin := by
  have hpasses : expand doublingMacros ⟨1, 5⟩ doublingCall =
      .error ⟨"g", 1, none, ⟨"g(1)", ⟨"m", 9, 1⟩, some "f"⟩⟩ := by
    decide +kernel
  have hlines : expand doublingMacros ⟨64, 4⟩ doublingCall =
      .error ⟨"g", 2, some 4, ⟨"g(1)", ⟨"m", 9, 1⟩, some "f"⟩⟩ := by
    decide +kernel
  obtain ⟨-, -, -, hleft, -⟩ := overflow_truthful hpasses
  obtain ⟨hname, hcalls, horigin, -, -⟩ := overflow_truthful hlines
  exact ⟨⟨_, hpasses, rfl, rfl, rfl, (hleft rfl).2.2⟩,
    ⟨_, hlines, rfl, rfl, rfl, hname, hcalls, horigin⟩⟩

end ZScript
