import Mathlib.Logic.Relation
import ZScript.Bundle

/-!
# The import graph of a library

A unit imports another if one of its import lines asks for a name that means the other
(`Library.Imports`). `Library.Inlined` says what a list of lines becomes when each import line is
replaced by the inlined lines of the unit it means : it has a derivation for no unit on a cycle,
since a derivation is finite, and at most one result (`Inlined.unique`).

`exists_inlining_iff` tells from the graph alone which units can be inlined : those from which only
units are reachable that have a text, whose import lines all mean units, and that do not reach
themselves. From right to left the units on the way down from the root are collected in a path; a
unit never comes twice on it, so the units left for it get fewer.
-/

namespace ZScript

namespace Library

variable (lib : Library)

/-! ## Imports -/

/-- One of the lines is an import of the unit. -/
def ImportedBy (lines : List Line) (unit : String) : Prop :=
  ∃ line ∈ lines, ∃ requested, line.importRequest? = some requested ∧
    lib.resolve? requested = some unit

/-- A line of the first unit is an import of the second. -/
def Imports (unit imported : String) : Prop :=
  ∃ text, lib.source? unit = some text ∧ lib.ImportedBy (Line.ofUnit unit text) imported

/-- The second unit is the first, or is imported from it over any number of units. -/
def Reaches : String → String → Prop :=
  Relation.ReflTransGen lib.Imports

/-- The unit imports itself, over any number of units. -/
def Cyclic (unit : String) : Prop :=
  Relation.TransGen lib.Imports unit unit

/-- Every import line of the unit means a unit. -/
def Resolves (unit : String) : Prop :=
  ∀ text, lib.source? unit = some text →
    ∀ line ∈ Line.ofUnit unit text, ∀ requested, line.importRequest? = some requested →
      ∃ imported, lib.resolve? requested = some imported

/-- Lines with each import line replaced by the inlined lines of the unit that it means. -/
inductive Inlined : List Line → List Line → Prop
  | nil : Inlined [] []
  | keep {line : Line} {rest out : List Line} (hline : line.importRequest? = none)
      (hrest : Inlined rest out) : Inlined (line :: rest) (line :: out)
  | splice {line : Line} {rest lines out : List Line} {requested unit text : String}
      (hline : line.importRequest? = some requested) (hunit : lib.resolve? requested = some unit)
      (htext : lib.source? unit = some text) (hlines : Inlined (Line.ofUnit unit text) lines)
      (hrest : Inlined rest out) : Inlined (line :: rest) (lines ++ out)

/-- The lines of a unit with its imports inlined. -/
def Inlining (unit : String) (out : List Line) : Prop :=
  ∃ text, lib.source? unit = some text ∧ lib.Inlined (Line.ofUnit unit text) out

variable {lib}

theorem importedBy_cons {line : Line} {rest : List Line} {unit : String} :
    lib.ImportedBy (line :: rest) unit ↔
      (∃ requested, line.importRequest? = some requested ∧ lib.resolve? requested = some unit) ∨
        lib.ImportedBy rest unit := by
  simp [ImportedBy]

theorem imports_iff {unit text imported : String} (htext : lib.source? unit = some text) :
    lib.Imports unit imported ↔ lib.ImportedBy (Line.ofUnit unit text) imported := by
  simp [Imports, htext]

/-! ## Inlined lines -/

namespace Inlined

theorem unique {lines out out' : List Line} (h : lib.Inlined lines out)
    (h' : lib.Inlined lines out') : out = out' := by
  induction h generalizing out' with
  | nil =>
    cases h'
    rfl
  | keep hline _ ih =>
    cases h' with
    | keep _ hrest' => rw [ih hrest']
    | splice hline' => simp [hline] at hline'
  | splice hline hunit htext _ _ ihlines ihrest =>
    cases h' with
    | keep hline' => simp [hline] at hline'
    | splice hline' hunit' htext' hlines' hrest' =>
      obtain rfl := Option.some.inj (hline.symm.trans hline')
      obtain rfl := Option.some.inj (hunit.symm.trans hunit')
      obtain rfl := Option.some.inj (htext.symm.trans htext')
      rw [ihlines hlines', ihrest hrest']

/-- No import line is left. -/
theorem importRequest?_eq_none {lines out : List Line} (h : lib.Inlined lines out) :
    ∀ line ∈ out, line.importRequest? = none := by
  induction h with
  | nil => simp
  | keep hline _ ih => simpa [hline] using ih
  | splice _ _ _ _ _ ihlines ihrest =>
    intro line hmem
    rcases List.mem_append.1 hmem with hmem | hmem
    · exact ihlines line hmem
    · exact ihrest line hmem

theorem resolves {lines out : List Line} (h : lib.Inlined lines out) :
    ∀ line ∈ lines, ∀ requested, line.importRequest? = some requested →
      ∃ unit, lib.resolve? requested = some unit := by
  induction h with
  | nil => simp
  | keep hline _ ih => simpa [hline] using ih
  | splice hline hunit _ _ _ _ ih => simpa [hline, hunit] using ih

theorem exists_inlining {lines out : List Line} {unit : String} (h : lib.Inlined lines out)
    (hunit : lib.ImportedBy lines unit) : ∃ out', lib.Inlining unit out' := by
  induction h with
  | nil => simp [ImportedBy] at hunit
  | keep hline _ ih =>
    rcases importedBy_cons.1 hunit with ⟨requested, hline', -⟩ | hunit
    · simp [hline] at hline'
    · exact ih hunit
  | splice hline hres htext hlines _ _ ih =>
    rcases importedBy_cons.1 hunit with ⟨requested, hline', hres'⟩ | hunit
    · obtain rfl := Option.some.inj (hline.symm.trans hline')
      obtain rfl := Option.some.inj (hres.symm.trans hres')
      exact ⟨_, _, htext, hlines⟩
    · exact ih hunit

/-- A unit that was inlined is on no cycle : the next unit on the cycle was inlined below it, and
is on the same cycle. -/
theorem not_cyclic {lines out : List Line} {unit : String} (h : lib.Inlined lines out)
    (hunit : lib.ImportedBy lines unit) : ¬lib.Cyclic unit := by
  induction h generalizing unit with
  | nil => simp [ImportedBy] at hunit
  | keep hline _ ih =>
    rcases importedBy_cons.1 hunit with ⟨requested, hline', -⟩ | hunit
    · simp [hline] at hline'
    · exact ih hunit
  | splice hline hres htext _ _ ihlines ihrest =>
    rcases importedBy_cons.1 hunit with ⟨requested, hline', hres'⟩ | hunit
    · obtain rfl := Option.some.inj (hline.symm.trans hline')
      obtain rfl := Option.some.inj (hres.symm.trans hres')
      intro hcycle
      obtain ⟨next, hnext, hback⟩ := Relation.TransGen.head'_iff.1 hcycle
      exact ihlines ((imports_iff htext).1 hnext) (Relation.TransGen.tail' hback hnext)
    · exact ihrest hunit

/-- A line that is inlined is one of the lines, or is read from a unit that they reach. -/
theorem mem_cases {lines out : List Line} {line : Line} (h : lib.Inlined lines out)
    (hmem : line ∈ out) : line ∈ lines ∨ ∃ imported reached text, lib.ImportedBy lines imported ∧
      lib.Reaches imported reached ∧ lib.source? reached = some text ∧
        line ∈ Line.ofUnit reached text := by
  induction h with
  | nil => simp at hmem
  | keep hline _ ih =>
    rcases List.mem_cons.1 hmem with rfl | hmem
    · exact Or.inl (by simp)
    · rcases ih hmem with hmem | ⟨imported, reached, text, himported, hread⟩
      · exact Or.inl (by simp [hmem])
      · exact Or.inr ⟨imported, reached, text, importedBy_cons.2 (.inr himported), hread⟩
  | @splice site rest _ _ requested unit text hline hunit htext _ _ ihlines ihrest =>
    have himported : lib.ImportedBy (site :: rest) unit :=
      importedBy_cons.2 (.inl ⟨requested, hline, hunit⟩)
    rcases List.mem_append.1 hmem with hmem | hmem
    · rcases ihlines hmem with hmem | ⟨imported, reached, text', himported', hr, hread⟩
      · exact Or.inr ⟨unit, unit, text, himported, .refl, htext, hmem⟩
      · exact Or.inr ⟨unit, reached, text', himported,
          .head ((imports_iff htext).2 himported') hr, hread⟩
    · rcases ihrest hmem with hmem | ⟨imported, reached, text', himported', hread⟩
      · exact Or.inl (by simp [hmem])
      · exact Or.inr ⟨imported, reached, text', importedBy_cons.2 (.inr himported'), hread⟩

end Inlined

/-- Lines can be inlined if every import line among them means a unit that can. -/
theorem exists_inlined {lines : List Line}
    (h : ∀ line ∈ lines, ∀ requested, line.importRequest? = some requested →
      ∃ unit out, lib.resolve? requested = some unit ∧ lib.Inlining unit out) :
    ∃ out, lib.Inlined lines out := by
  induction lines with
  | nil => exact ⟨[], .nil⟩
  | cons line rest ih =>
    obtain ⟨out, hout⟩ := ih fun l hl => h l (by simp [hl])
    cases hline : line.importRequest? with
    | none => exact ⟨_, .keep hline hout⟩
    | some requested =>
      obtain ⟨unit, lines, hunit, text, htext, hlines⟩ := h line (by simp) requested hline
      exact ⟨_, .splice hline hunit htext hlines hout⟩

/-! ## Units that can be inlined -/

namespace Inlining

theorem unique {unit : String} {out out' : List Line} (h : lib.Inlining unit out)
    (h' : lib.Inlining unit out') : out = out' := by
  obtain ⟨text, htext, hlines⟩ := h
  obtain ⟨text', htext', hlines'⟩ := h'
  obtain rfl := Option.some.inj (htext.symm.trans htext')
  exact hlines.unique hlines'

theorem of_reaches {unit reached : String} {out : List Line} (h : lib.Inlining unit out)
    (hr : lib.Reaches unit reached) : ∃ out', lib.Inlining reached out' := by
  induction hr with
  | refl => exact ⟨out, h⟩
  | tail _ himp ih =>
    obtain ⟨out', text, htext, hlines⟩ := ih
    exact hlines.exists_inlining ((imports_iff htext).1 himp)

theorem resolves {unit : String} {out : List Line} (h : lib.Inlining unit out) :
    lib.Resolves unit := by
  obtain ⟨text, htext, hlines⟩ := h
  intro text' htext'
  obtain rfl := Option.some.inj (htext.symm.trans htext')
  exact hlines.resolves

theorem not_cyclic {unit : String} {out : List Line} (h : lib.Inlining unit out) :
    ¬lib.Cyclic unit := by
  intro hcycle
  obtain ⟨next, hnext, hback⟩ := Relation.TransGen.head'_iff.1 hcycle
  obtain ⟨text, htext, hlines⟩ := h
  exact hlines.not_cyclic ((imports_iff htext).1 hnext) (Relation.TransGen.tail' hback hnext)

/-- A line of the inlining is read from a unit that is reached. -/
theorem exists_mem_ofUnit {unit : String} {out : List Line} {line : Line}
    (h : lib.Inlining unit out) (hmem : line ∈ out) : ∃ reached text,
      lib.Reaches unit reached ∧ lib.source? reached = some text ∧
        line ∈ Line.ofUnit reached text := by
  obtain ⟨text, htext, hlines⟩ := h
  rcases hlines.mem_cases hmem with hmem | ⟨imported, reached, text', himported, hr, hread⟩
  · exact ⟨unit, text, .refl, htext, hmem⟩
  · exact ⟨reached, text', .head ((imports_iff htext).2 himported) hr, hread⟩

end Inlining

/-- A unit below a path can be inlined if all that it reaches has a text, resolves and is on no
cycle. -/
theorem exists_inlining_below (path : ImportPath) (unit : String)
    (hpath : ∀ above ∈ path.units, Relation.TransGen lib.Imports above unit)
    (h : ∀ reached, lib.Reaches unit reached →
      (∃ text, lib.source? reached = some text) ∧ lib.Resolves reached ∧ ¬lib.Cyclic reached) :
    ∃ out, lib.Inlining unit out := by
  obtain ⟨⟨text, htext⟩, hresolves, hcycle⟩ := h unit .refl
  -- a unit on the path would reach itself, so the path grows by a new unit with each import
  have hfresh : unit ∉ path.units := fun hmem => hcycle (hpath unit hmem)
  obtain ⟨out, hout⟩ : ∃ out, lib.Inlined (Line.ofUnit unit text) out := by
    refine exists_inlined fun line hline requested hreq => ?_
    obtain ⟨imported, himported⟩ := hresolves text htext line hline requested hreq
    have himp : lib.Imports unit imported := ⟨text, htext, line, hline, requested, hreq, himported⟩
    have hbelow : ∀ above ∈ (path.push unit).units,
        Relation.TransGen lib.Imports above imported := by
      intro above habove
      rcases List.mem_append.1 habove with habove | habove
      · exact (hpath above habove).tail himp
      · exact List.mem_singleton.1 habove ▸ .single himp
    obtain ⟨out, hout⟩ := exists_inlining_below (path.push unit) imported hbelow
      fun reached hr => h reached (.head himp hr)
    exact ⟨imported, out, himported, hout⟩
  exact ⟨out, text, htext, hout⟩
termination_by Bundler.room lib path
decreasing_by exact Bundler.room_push_lt (lib.mem_units htext) hfresh

/-- A unit can be inlined if and only if all that it reaches has a text, resolves and is on no
cycle. -/
theorem exists_inlining_iff {unit : String} :
    (∃ out, lib.Inlining unit out) ↔ ∀ reached, lib.Reaches unit reached →
      (∃ text, lib.source? reached = some text) ∧ lib.Resolves reached ∧ ¬lib.Cyclic reached := by
  constructor
  · rintro ⟨out, hout⟩ reached hr
    obtain ⟨out', hout'⟩ := hout.of_reaches hr
    have ⟨text, htext, _⟩ := hout'
    exact ⟨⟨text, htext⟩, hout'.resolves, hout'.not_cyclic⟩
  · intro h
    exact exists_inlining_below {} unit (by simp) h

/-! ## File sets -/

theorem exists_text_of_resolve? {files : FileSet} {requested unit : String}
    (h : files.resolve? requested = some unit) : ∃ text, files.text? unit = some text := by
  have key : ∀ name, files.contains name = true → ∃ text, files.text? name = some text := by
    intro name hname
    rw [Catalog.contains_eq_isSome_find?, Option.isSome_iff_exists] at hname
    obtain ⟨file, hfile⟩ := hname
    exact ⟨file.text, by simp [FileSet.text?, hfile]⟩
  unfold FileSet.resolve? at h
  split at h
  · rename_i hname
    exact Option.some.inj h ▸ key _ hname
  · split at h
    · rename_i hname
      exact Option.some.inj h ▸ key _ hname
    · cases h

/-- A unit of a file set that is reached from a resolved name has a text. -/
theorem exists_text_of_reaches {files : FileSet} {requested unit reached : String}
    (h : files.resolve? requested = some unit) (hr : (ofFiles files).Reaches unit reached) :
    ∃ text, files.text? reached = some text := by
  rcases Relation.ReflTransGen.cases_tail hr with rfl | ⟨above, -, himp⟩
  · exact exists_text_of_resolve? h
  · obtain ⟨text, -, line, -, requested', -, hres⟩ := himp
    exact exists_text_of_resolve? hres

end Library

end ZScript
