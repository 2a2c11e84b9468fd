import ZScript.Proofs.Noninterference
import ZScript.Proofs.Streams

/-!
# Import lines inside addon blocks

Bundling reads every line by itself, so that an import line is replaced wherever it stands. The
stages after it follow addon blocks, and to them a line inside a block is raw, whatever it looks
like. `Library.BlockwiseInlined` is the inlining that follows the blocks too : it keeps the lines of
a block as they are and replaces the import lines outside blocks only, each unit being followed from
its own first line on.

The two inlinings agree just where no raw import line comes up. `Library.FreeOfRaw` says that of
lines and of all units that they reach. Then what the one inlining gives, the other gives
(`FreeOfRaw.blockwise_iff`); and as an inlining leaves no import line, one that is blockwise as well
has met no raw one (`BlockwiseInlined.freeOfRaw`). A single raw import line therefore makes bundling
break up a block, or fail where the blockwise inlining does not (`raw_imports_replaced`).
-/

namespace ZScript

namespace Library

variable (lib : Library)

/-- Lines with each import line outside the addon blocks of its unit replaced by the blockwise
inlined lines of the unit that it means. The first lines stand in the given block. -/
inductive BlockwiseInlined : Option Addon → List Line → List Line → Prop
  | nil {block : Option Addon} : BlockwiseInlined block [] []
  | keep {block : Option Addon} {line : Line} {rest out : List Line}
      (hline : block = none → line.importRequest? = none)
      (hrest : BlockwiseInlined (Addon.after block line.text) rest out) :
      BlockwiseInlined block (line :: rest) (line :: out)
  | splice {line : Line} {rest lines out : List Line} {requested unit text : String}
      (hline : line.importRequest? = some requested) (hunit : lib.resolve? requested = some unit)
      (htext : lib.source? unit = some text)
      (hlines : BlockwiseInlined none (Line.ofUnit unit text) lines)
      (hrest : BlockwiseInlined none rest out) : BlockwiseInlined none (line :: rest) (lines ++ out)

/-- The lines of a unit with the imports outside its addon blocks inlined. -/
def BlockwiseInlining (unit : String) (out : List Line) : Prop :=
  ∃ text, lib.source? unit = some text ∧ lib.BlockwiseInlined none (Line.ofUnit unit text) out

/-- One of the lines, of which the first stands in the given block, is an import line inside an
addon block. -/
def RawImport (block : Option Addon) (lines : List Line) : Prop :=
  ∃ p ∈ Addon.placed block lines, p.1 ≠ none ∧ p.2.importRequest? ≠ none

instance (block : Option Addon) (lines : List Line) : Decidable (RawImport block lines) :=
  inferInstanceAs (Decidable (∃ p ∈ Addon.placed block lines,
    p.1 ≠ none ∧ p.2.importRequest? ≠ none))

/-- An import line of the unit stands inside an addon block of the unit. -/
def HoldsRawImport (unit : String) : Prop :=
  ∃ text, lib.source? unit = some text ∧ RawImport none (Line.ofUnit unit text)

/-- No import line is raw, among the lines and in the units that they reach. -/
def FreeOfRaw (block : Option Addon) (lines : List Line) : Prop :=
  ¬RawImport block lines ∧ ∀ imported, lib.ImportedBy lines imported →
    ∀ reached, lib.Reaches imported reached → ¬lib.HoldsRawImport reached

variable {lib} {block : Option Addon} {line : Line} {lines rest out : List Line}
  {requested unit text : String}

/-! ## Lines without raw import lines -/

/-- An import line is no mark. -/
theorem after_of_importRequest? (h : line.importRequest? = some requested) :
    Addon.after none line.text = none := by
  unfold Line.importRequest? at h
  split at h
  · rename_i name hd
    rw [Addon.after, Directive.within, hd]
    rfl
  · cases h

theorem rawImport_cons : RawImport block (line :: rest) ↔
    block ≠ none ∧ line.importRequest? ≠ none ∨ RawImport (Addon.after block line.text) rest := by
  simp [RawImport, Addon.placed]

theorem freeOfRaw_ofUnit (htext : lib.source? unit = some text) :
    lib.FreeOfRaw none (Line.ofUnit unit text) ↔
      ∀ reached, lib.Reaches unit reached → ¬lib.HoldsRawImport reached := by
  constructor
  · rintro ⟨hlines, hbelow⟩ reached hr
    rcases Relation.ReflTransGen.cases_head hr with rfl | ⟨imported, himp, hr⟩
    · rintro ⟨text', htext', hraw⟩
      obtain rfl := Option.some.inj (htext.symm.trans htext')
      exact hlines hraw
    · exact hbelow imported ((imports_iff htext).1 himp) reached hr
  · intro h
    refine ⟨fun hraw => h unit .refl ⟨text, htext, hraw⟩, fun imported himp reached hr => ?_⟩
    exact h reached (.head ((imports_iff htext).2 himp) hr)

theorem freeOfRaw_cons_of_plain (hline : line.importRequest? = none) :
    lib.FreeOfRaw block (line :: rest) ↔ lib.FreeOfRaw (Addon.after block line.text) rest := by
  simp [FreeOfRaw, rawImport_cons, importedBy_cons, hline]

/-- An import line is not raw if it stands in no block, and nothing below it is if its unit is free
of raw import lines. -/
theorem freeOfRaw_cons_of_import (hline : line.importRequest? = some requested)
    (hunit : lib.resolve? requested = some unit) (htext : lib.source? unit = some text) :
    lib.FreeOfRaw block (line :: rest) ↔ block = none ∧
      lib.FreeOfRaw none (Line.ofUnit unit text) ∧ lib.FreeOfRaw none rest := by
  have himported : ∀ u, lib.ImportedBy (line :: rest) u ↔ u = unit ∨ lib.ImportedBy rest u := by
    intro u
    simp [importedBy_cons, hline, hunit, eq_comm]
  rw [freeOfRaw_ofUnit htext, FreeOfRaw, rawImport_cons]
  cases block with
  | some a => simp [hline]
  | none =>
    rw [after_of_importRequest? hline]
    simp only [himported, forall_eq_or_imp, FreeOfRaw, ne_eq, not_true_eq_false, false_and,
      false_or, true_and]
    exact and_left_comm

/-! ## Agreement of the inlinings -/

theorem FreeOfRaw.inlined (hfree : lib.FreeOfRaw block lines)
    (h : lib.BlockwiseInlined block lines out) : lib.Inlined lines out := by
  induction h with
  | nil => exact .nil
  | @keep block line rest out hline _ ih =>
    have hplain : line.importRequest? = none := Decidable.byContradiction fun himport =>
      hfree.1 (rawImport_cons.2 (Or.inl ⟨fun hblock => himport (hline hblock), himport⟩))
    exact .keep hplain (ih ((freeOfRaw_cons_of_plain hplain).1 hfree))
  | splice hline hunit htext _ _ ihlines ihrest =>
    obtain ⟨-, hlines, hrest⟩ := (freeOfRaw_cons_of_import hline hunit htext).1 hfree
    exact .splice hline hunit htext (ihlines hlines) (ihrest hrest)

theorem FreeOfRaw.blockwiseInlined (hfree : lib.FreeOfRaw block lines)
    (h : lib.Inlined lines out) : lib.BlockwiseInlined block lines out := by
  induction h generalizing block with
  | nil => exact .nil
  | keep hline _ ih =>
    exact .keep (fun _ => hline) (ih ((freeOfRaw_cons_of_plain hline).1 hfree))
  | splice hline hunit htext _ _ ihlines ihrest =>
    obtain ⟨rfl, hlines, hrest⟩ := (freeOfRaw_cons_of_import hline hunit htext).1 hfree
    exact .splice hline hunit htext (ihlines hlines) (ihrest hrest)

theorem FreeOfRaw.blockwise_iff (hfree : lib.FreeOfRaw block lines) :
    lib.BlockwiseInlined block lines out ↔ lib.Inlined lines out :=
  ⟨hfree.inlined, hfree.blockwiseInlined⟩

/-- A blockwise inlining that leaves no import line has met no raw one, since it would have kept
it. -/
theorem BlockwiseInlined.freeOfRaw (h : lib.BlockwiseInlined block lines out)
    (hout : ∀ line ∈ out, line.importRequest? = none) : lib.FreeOfRaw block lines := by
  induction h with
  | nil => exact ⟨by simp [RawImport, Addon.placed], by simp [ImportedBy]⟩
  | keep _ _ ih =>
    obtain ⟨hline, hrest⟩ := List.forall_mem_cons.1 hout
    exact (freeOfRaw_cons_of_plain hline).2 (ih hrest)
  | splice hline hunit htext _ _ ihlines ihrest =>
    obtain ⟨hlines, hrest⟩ := List.forall_mem_append.1 hout
    exact (freeOfRaw_cons_of_import hline hunit htext).2 ⟨rfl, ihlines hlines, ihrest hrest⟩

theorem blockwiseInlining_iff
    (h : ∀ reached, lib.Reaches unit reached → ¬lib.HoldsRawImport reached) :
    lib.BlockwiseInlining unit out ↔ lib.Inlining unit out := by
  refine exists_congr fun text => and_congr_right fun htext => ?_
  exact ((freeOfRaw_ofUnit htext).2 h).blockwise_iff

/-- The inlining of a unit is blockwise if and only if no unit that is reached holds a raw import
line. -/
theorem Inlining.blockwise_iff (hout : lib.Inlining unit out) : lib.BlockwiseInlining unit out ↔
    ∀ reached, lib.Reaches unit reached → ¬lib.HoldsRawImport reached := by
  constructor
  · rintro ⟨text, htext, hblockwise⟩
    obtain ⟨text', -, hlines⟩ := hout
    exact (freeOfRaw_ofUnit htext).1 (hblockwise.freeOfRaw hlines.importRequest?_eq_none)
  · intro h
    exact (blockwiseInlining_iff h).2 hout

end Library

open Library

/-- A bundle keeps the lines of addon blocks, and replaces the import lines outside them only, if
and only if no unit that the entry reaches holds an import line inside an addon block. Where none
does, bundling gives what the blockwise inlining gives, and fails where there is none. -/
theorem bundle_blockwise_iff (files : FileSet) (entry : String) :
    (∀ b, bundle (.ofFiles files) entry = .ok b →
      ((ofFiles files).BlockwiseInlining b.entry b.lines ↔
        ∀ reached, (ofFiles files).Reaches b.entry reached →
          ¬(ofFiles files).HoldsRawImport reached)) ∧
    ∀ unit, files.resolve? entry = some unit →
      (∀ reached, (ofFiles files).Reaches unit reached →
        ¬(ofFiles files).HoldsRawImport reached) →
      ∀ out, bundle (.ofFiles files) entry = .ok ⟨unit, out⟩ ↔
        (ofFiles files).BlockwiseInlining unit out := by
  constructor
  · intro b hb
    exact (bundle_eq_ok_iff.1 hb).2.blockwise_iff
  · intro unit hunit hraw out
    rw [bundle_eq_ok_iff, blockwiseInlining_iff hraw]
    exact and_iff_right hunit

/-- A unit with an addon block and an import behind it, and the imported unit, which holds the mark
of another addon inside a block. -/
def blocksApart : FileSet :=
  ⟨[⟨"m", "<addon^index/set^js>\nlet a = 1;\n<addon^js>\n<import^z=\"b.z\">"⟩,
    ⟨"b.z", "<addon^index/set^html>\n<addon^js>\n<addon^html>"⟩]⟩

theorem bundle_blockwise_iff_blocksApart : ∃ out,
    bundle (.ofFiles blocksApart) "m" = .ok ⟨"m", out⟩ ∧
      out.map Line.text = ["<addon^index/set^js>", "let a = 1;", "<addon^js>",
        "<addon^index/set^html>", "<addon^js>", "<addon^html>"] ∧
      (∀ reached, (ofFiles blocksApart).Reaches "m" reached →
        ¬(ofFiles blocksApart).HoldsRawImport reached) ∧
      (ofFiles blocksApart).BlockwiseInlining "m" out := by
  have hraw : ∀ reached, (ofFiles blocksApart).Reaches "m" reached →
      ¬(ofFiles blocksApart).HoldsRawImport reached := by
    intro reached hr
    have hmem := hr.mem_of_closed ["m", "b.z"] (by simp) (by decide +kernel)
    simp only [List.mem_cons, List.not_mem_nil, or_false] at hmem
    rintro ⟨text, htext, hraw⟩
    revert hraw
    rcases hmem with rfl | rfl
    · obtain rfl := Option.some.inj htext
      decide +kernel
    · obtain rfl := Option.some.inj htext
      decide +kernel
  have hrun : (bundle (.ofFiles blocksApart) "m").toOption.map
      (fun b => (b.entry, b.lines.map Line.text)) =
      some ("m", ["<addon^index/set^js>", "let a = 1;", "<addon^js>", "<addon^index/set^html>",
        "<addon^js>", "<addon^html>"]) := by
    decide +kernel
  simp only [Option.map_eq_some_iff, toOption_eq_some_iff, Prod.mk.injEq] at hrun
  obtain ⟨⟨entry, out⟩, hb, rfl, htexts⟩ := hrun
  exact ⟨out, hb, htexts, hraw, ((bundle_blockwise_iff blocksApart "m").2 "m" rfl hraw out).1 hb⟩

/-- A unit with an import line inside an addon block. -/
def importInBlock (name : String) : FileSet :=
  ⟨[⟨"m", "<addon^index/set^js>\n<import^z=\"" ++ name ++ "\">\n<addon^js>"⟩, ⟨"a.z", "f();"⟩]⟩

/-- The line with this text in place `n` of that unit. -/
def blockLine (n : Nat) (text : String) : Line :=
  ⟨text, ⟨"m", n, 1⟩, none⟩

/-- Bundling replaces an import line inside an addon block, and fails if the line means no unit. So
not every bundle keeps the lines of addon blocks, and not every unit that has a blockwise inlining
can be bundled. -/
theorem raw_imports_replaced :
    (¬∀ (files : FileSet) (entry : String) (b : Bundle), bundle (.ofFiles files) entry = .ok b →
      (ofFiles files).BlockwiseInlining b.entry b.lines) ∧
    ¬∀ (files : FileSet) (entry unit : String) (out : List Line),
      files.resolve? entry = some unit → (ofFiles files).BlockwiseInlining unit out →
        bundle (.ofFiles files) entry = .ok ⟨unit, out⟩ := by
  constructor
  · intro h
    have hb : bundle (.ofFiles (importInBlock "a.z")) "m" = .ok ⟨"m",
        [blockLine 1 "<addon^index/set^js>", ⟨"f();", ⟨"a.z", 1, 1⟩, none⟩,
          blockLine 3 "<addon^js>"]⟩ :=
      toOption_eq_some_iff.1 (by decide +kernel)
    have hfree := ((bundle_eq_ok_iff.1 hb).2.blockwise_iff).1 (h _ _ _ hb)
    exact hfree "m" .refl ⟨_, rfl, by decide +kernel⟩
  · intro h
    have hkept : (ofFiles (importInBlock "gone.z")).BlockwiseInlining "m"
        [blockLine 1 "<addon^index/set^js>", blockLine 2 "<import^z=\"gone.z\">",
          blockLine 3 "<addon^js>"] := by
      refine ⟨_, rfl, ?_⟩
      have hlines : Line.ofUnit "m" ("<addon^index/set^js>\n<import^z=\"" ++ "gone.z" ++
          "\">\n<addon^js>") = [blockLine 1 "<addon^index/set^js>",
            blockLine 2 "<import^z=\"gone.z\">", blockLine 3 "<addon^js>"] := by
        decide +kernel
      rw [hlines]
      exact .keep (by decide +kernel) (.keep (by decide +kernel) (.keep (by decide +kernel) .nil))
    have hb := toOption_eq_some_iff.2 (h _ "m" "m" _ (by decide +kernel) hkept)
    revert hb
    decide +kernel

end ZScript
