import Mathlib.Data.List.Chain
import Mathlib.Data.List.Nodup
import Mathlib.Data.List.TakeWhile
import ZScript.Proofs.Bundling

/-!
# What import faults say

A walk that fails does so at one import line, and all that it came to before went well. In one unit
`Uncached.failsAt_of_inlineImports` finds the line at which it failed, or below which it failed.
From unit to unit these lines make a trail (`Library.Trail`) : the units that are open at the fault,
from the entry unit down, each read up to the import line that leads to the next, and each import
before that line means a unit that can be bundled on its own. `exists_trail_of_error` follows a
fault down its trail; no unit comes twice on it, since the walk turns back at a unit that is open.

`ImportFault.Holds` is what a fault says about the library : a cycle is the end of its trail, with
its first unit once more, and a name that was not found is asked for at the end of the trail and
means no unit (`import_faults_truthful`).
-/

namespace ZScript

namespace Library

variable (lib : Library)

/-- Every import line among the lines means a unit that can be bundled on its own. -/
def Clear (lines : List Line) : Prop :=
  ∀ line ∈ lines, ∀ requested, line.importRequest? = some requested →
    ∃ unit b, lib.resolve? requested = some unit ∧ bundle lib unit = .ok b

/-- The line is an import line of the unit and asks for the name. The imports before it are clear.
-/
def ReadTo (unit : String) (line : Line) (requested : String) : Prop :=
  ∃ text before after, lib.source? unit = some text ∧
    Line.ofUnit unit text = before ++ line :: after ∧ lib.Clear before ∧
      line.importRequest? = some requested

/-- The way from a unit down to an import line and the name that it asks for : the units on it are
read up to the import line that leads to the next, and the last one up to the line. -/
inductive Trail : String → List String → Line → String → Prop
  | here {unit requested : String} {line : Line} (hline : lib.ReadTo unit line requested) :
      Trail unit [unit] line requested
  | down {unit requested imported name : String} {line site : Line} {units : List String}
      (hline : lib.ReadTo unit line requested) (hmeans : lib.resolve? requested = some imported)
      (hbelow : Trail imported units site name) : Trail unit (unit :: units) site name

end Library

open Library

/-- What a fault says about a library and an entry. A cycle is made of the last units of a trail
from the entry unit, each of which imports the next, and ends with its first unit, which the site
asks for. A name that is not found means no unit, and is the entry or what the site asks for. -/
def ImportFault.Holds (lib : Library) (entry : String) : ImportFault → Prop
  | .importCycle cycle site => ∃ root outer first inner last line requested,
      lib.resolve? entry = some root ∧ site = some line ∧
        cycle = first :: inner ++ [first] ∧ (first :: inner).Nodup ∧
        (∀ unit ∈ first :: inner, lib.Reaches root unit) ∧ cycle.IsChain lib.Imports ∧
        (first :: inner).getLast? = some last ∧ lib.ReadTo last line requested ∧
        lib.resolve? requested = some first ∧
        lib.Trail root (outer ++ first :: inner) line requested
  | .unitNotFound requested site => lib.resolve? requested = none ∧
      (site = none ∧ requested = entry ∨ ∃ root units last line,
        lib.resolve? entry = some root ∧ site = some line ∧ units.getLast? = some last ∧
          lib.Reaches root last ∧ lib.ReadTo last line requested ∧
          lib.Trail root units line requested)

/-! ## Trails -/

namespace Library

variable {lib : Library} {unit root requested imported : String} {line : Line}
  {units : List String}

theorem ReadTo.imports (h : lib.ReadTo unit line requested)
    (hmeans : lib.resolve? requested = some imported) : lib.Imports unit imported := by
  obtain ⟨text, before, after, htext, hlines, -, hrequest⟩ := h
  exact ⟨text, htext, line, by simp [hlines], requested, hrequest, hmeans⟩

namespace Trail

theorem exists_eq_cons (h : lib.Trail root units line requested) :
    ∃ below, units = root :: below := by
  cases h with
  | here => exact ⟨[], rfl⟩
  | down => exact ⟨_, rfl⟩

theorem reaches (h : lib.Trail root units line requested) :
    ∀ unit ∈ units, lib.Reaches root unit := by
  induction h with
  | here hline => simp [Reaches, Relation.ReflTransGen.refl]
  | down hline hmeans _ ih =>
    intro unit hunit
    rcases List.mem_cons.1 hunit with rfl | hunit
    · exact .refl
    · exact .head (hline.imports hmeans) (ih unit hunit)

/-- Each unit of a trail imports the next. -/
theorem isChain (h : lib.Trail root units line requested) : units.IsChain lib.Imports := by
  induction h with
  | here hline => exact .singleton _
  | down hline hmeans hbelow ih =>
    obtain ⟨units', rfl⟩ := hbelow.exists_eq_cons
    exact .cons_cons (hline.imports hmeans) ih

/-- A trail ends in the last of its units. -/
theorem exists_last (h : lib.Trail root units line requested) :
    ∃ last, units.getLast? = some last ∧ lib.ReadTo last line requested := by
  induction h with
  | here hline => exact ⟨_, rfl, hline⟩
  | down _ _ hbelow ih =>
    obtain ⟨last, hlast, hread⟩ := ih
    obtain ⟨units', rfl⟩ := hbelow.exists_eq_cons
    exact ⟨last, by rw [List.getLast?_cons_cons, hlast], hread⟩

end Trail

/-! ## The line at which a walk fails -/

/-- A unit of a file set that a name means can be bundled under its own name if it can be inlined.
-/
theorem exists_bundle_of_inlining {files : FileSet} {out : List Line}
    (hmeans : files.resolve? requested = some unit) (hout : (ofFiles files).Inlining unit out) :
    ∃ b, bundle (.ofFiles files) unit = .ok b := by
  have hself : files.resolve? unit = some unit := by
    obtain ⟨text, htext⟩ := exists_text_of_resolve? hmeans
    rw [FileSet.resolve?, if_pos (Catalog.contains_iff.2 (FileSet.mem_names_of_text? htext))]
  exact ⟨⟨unit, out⟩, bundle_eq_ok_iff.2 ⟨hself, hout⟩⟩

end Library

namespace Uncached

variable {lib : Library} {visit : String → Line → Except ImportFault (List Line)}
  {lines rest : List Line} {line : Line} {fault : ImportFault}

/-- The walk through lines fails at an import line that means no unit, or below one. The import
lines before it are visited without a fault. -/
def FailsAt (lib : Library) (visit : String → Line → Except ImportFault (List Line))
    (lines : List Line) (fault : ImportFault) : Prop :=
  ∃ before line after requested, lines = before ++ line :: after ∧
    line.importRequest? = some requested ∧
    (∀ l ∈ before, ∀ name, l.importRequest? = some name →
      ∃ unit out, lib.resolve? name = some unit ∧ visit unit l = .ok out) ∧
    (lib.resolve? requested = none ∧ fault = .unitNotFound requested (some line) ∨
      ∃ unit, lib.resolve? requested = some unit ∧ visit unit line = .error fault)

theorem FailsAt.cons (hline : ∀ name, line.importRequest? = some name →
      ∃ unit out, lib.resolve? name = some unit ∧ visit unit line = .ok out)
    (h : FailsAt lib visit rest fault) : FailsAt lib visit (line :: rest) fault := by
  obtain ⟨before, site, after, requested, rfl, hsite, hbefore, hfault⟩ := h
  exact ⟨line :: before, site, after, requested, rfl, hsite,
    List.forall_mem_cons.2 ⟨hline, hbefore⟩, hfault⟩

theorem failsAt_of_inlineImports (h : inlineImports lib visit lines = .error fault) :
    FailsAt lib visit lines fault := by
  induction lines with
  | nil => cases h
  | cons line rest ih =>
    cases hline : line.importRequest? with
    | none =>
      simp only [inlineImports, hline, map_eq_error_iff] at h
      exact (ih h).cons (by simp [hline])
    | some requested =>
      cases hmeans : lib.resolve? requested with
      | none =>
        simp only [inlineImports, hline, hmeans, Except.error.injEq] at h
        exact ⟨[], line, rest, requested, rfl, hline, by simp, Or.inl ⟨hmeans, h.symm⟩⟩
      | some unit =>
        cases hvisit : visit unit line with
        | error fault' =>
          simp only [inlineImports, hline, hmeans, hvisit, Except.error.injEq] at h
          exact ⟨[], line, rest, requested, rfl, hline, by simp,
            Or.inr ⟨unit, hmeans, h ▸ hvisit⟩⟩
        | ok out =>
          simp only [inlineImports, hline, hmeans, hvisit, map_eq_error_iff] at h
          refine (ih h).cons fun name hname => ?_
          obtain rfl := Option.some.inj (hline.symm.trans hname)
          exact ⟨unit, out, hmeans, hvisit⟩

end Uncached

/-- A walk from a unit below a path fails because the unit is on the path, or at the end of a trail
from the unit. There a name means no unit, or one that is on the path or on the trail. -/
theorem exists_trail_of_error {files : FileSet} (path : ImportPath) (unit : String)
    (site : Option Line) {fault : ImportFault} (hunit : ∃ name, files.resolve? name = some unit)
    (hpath : path.units.Nodup)
    (h : Uncached.bundleUnit (.ofFiles files) path unit site = .error fault) :
    (∃ cycle, path.cycleTo? unit = some cycle ∧ fault = .importCycle cycle site) ∨
      ∃ units line requested, (ofFiles files).Trail unit units line requested ∧
        (path.units ++ units).Nodup ∧
        (files.resolve? requested = none ∧ fault = .unitNotFound requested (some line) ∨
          ∃ imported cycle, files.resolve? requested = some imported ∧
            ImportPath.cycleTo? ⟨path.units ++ units⟩ imported = some cycle ∧
              fault = .importCycle cycle (some line)) := by
  induction path, unit, site using Uncached.bundleUnit.induct (ofFiles files) with
  | case1 path unit site cycle hp =>
    rw [Uncached.bundleUnit_of_cycle hp] at h
    exact Or.inl ⟨cycle, hp, (Except.error.inj h).symm⟩
  | case2 path unit site hp hs =>
    obtain ⟨name, hname⟩ := hunit
    obtain ⟨text, htext⟩ := exists_text_of_resolve? hname
    cases hs.symm.trans htext
  | case3 path unit site hp text hs ih =>
    refine Or.inr ?_
    have hfresh : unit ∉ path.units := ImportPath.cycleTo?_eq_none_iff.1 hp
    have hpush : (path.units ++ [unit]).Nodup := by
      simpa using List.Nodup.concat hfresh hpath
    rw [Uncached.bundleUnit_of_text hp hs] at h
    obtain ⟨before, line, after, requested, hlines, hrequest, hbefore, hfault⟩ :=
      Uncached.failsAt_of_inlineImports h
    have hclear : (ofFiles files).Clear before := by
      intro l hl name hname
      obtain ⟨imported, out, hmeans, hok⟩ := hbefore l hl name hname
      have hinlining := ((Uncached.bundleUnit_eq_ok_iff _ _ _ _).1 hok).1
      obtain ⟨b, hb⟩ := exists_bundle_of_inlining hmeans hinlining
      exact ⟨imported, b, hmeans, hb⟩
    have hread : (ofFiles files).ReadTo unit line requested :=
      ⟨text, before, after, hs, hlines, hclear, hrequest⟩
    rcases hfault with ⟨hmeans, rfl⟩ | ⟨imported, hmeans, herror⟩
    · exact ⟨[unit], line, requested, .here hread, hpush, Or.inl ⟨hmeans, rfl⟩⟩
    · rcases ih imported line ⟨requested, hmeans⟩ hpush herror with
        ⟨cycle, hcycle, rfl⟩ | ⟨units, line', requested', htrail, hnodup, hend⟩
      · exact ⟨[unit], line, requested, .here hread, hpush,
          Or.inr ⟨imported, cycle, hmeans, hcycle, rfl⟩⟩
      · have happend : path.units ++ unit :: units = (path.push unit).units ++ units := by
          simp [ImportPath.push]
        refine ⟨unit :: units, line', requested', .down hread hmeans htrail, ?_⟩
        rw [happend]
        exact ⟨hnodup, hend⟩

/-- The cycle that a unit closes is the path from the unit on, and the unit again. -/
theorem ImportPath.exists_of_cycleTo? {path : ImportPath} {unit : String} {cycle : List String}
    (h : path.cycleTo? unit = some cycle) : ∃ outer inner,
      path.units = outer ++ unit :: inner ∧ cycle = unit :: inner ++ [unit] := by
  have hmem : unit ∈ path.units := mem_of_cycleTo? h
  rw [cycleTo?, if_pos hmem] at h
  obtain rfl := Option.some.inj h
  have hsplit : path.units.takeWhile (· != unit) ++ path.units.dropWhile (· != unit) = path.units :=
    List.takeWhile_append_dropWhile
  have hfirst := List.head?_dropWhile_not (· != unit) path.units
  cases hdrop : path.units.dropWhile (· != unit) with
  | nil =>
    rw [List.dropWhile_eq_nil_iff] at hdrop
    simpa using hdrop unit hmem
  | cons first inner =>
    obtain rfl : first = unit := by simpa [hdrop] using hfirst
    rw [hdrop] at hsplit
    exact ⟨_, inner, hsplit.symm, rfl⟩

/-- A fault of bundling an entry of a file set holds : a cycle is one, a name that is not found
means no unit, and the site is the first import that fails in the order of reading. -/
theorem import_faults_truthful {files : FileSet} {entry : String} {fault : ImportFault}
    (h : bundle (.ofFiles files) entry = .error fault) : fault.Holds (.ofFiles files) entry := by
  rw [bundle_eq_uncached, Uncached.bundle] at h
  cases hroot : (ofFiles files).resolve? entry with
  | none =>
    simp only [hroot, Except.error.injEq] at h
    subst h
    exact ⟨hroot, Or.inl ⟨rfl, rfl⟩⟩
  | some root =>
    simp only [hroot, map_eq_error_iff] at h
    rcases exists_trail_of_error {} root none ⟨entry, hroot⟩ List.nodup_nil h with
      ⟨cycle, hcycle, -⟩ | ⟨units, line, requested, htrail, hnodup, hend⟩
    · simp [ImportPath.cycleTo?] at hcycle
    · obtain ⟨last, hlast, hread⟩ := htrail.exists_last
      rcases hend with ⟨hmeans, rfl⟩ | ⟨first, cycle, hmeans, hcycle, rfl⟩
      · exact ⟨hmeans, Or.inr ⟨root, units, last, line, hroot, rfl, hlast,
          htrail.reaches last (List.mem_of_getLast? hlast), hread, htrail⟩⟩
      · obtain ⟨outer, inner, hunits, rfl⟩ := ImportPath.exists_of_cycleTo? hcycle
        obtain rfl : units = outer ++ first :: inner := by simpa using hunits
        have hlast' : (first :: inner).getLast? = some last := by
          rw [← hlast, List.getLast?_append_cons]
        have hchain : (first :: inner ++ [first]).IsChain (ofFiles files).Imports := by
          refine List.isChain_append.2 ⟨htrail.isChain.right_of_append, .singleton _, ?_⟩
          simpa [hlast'] using hread.imports hmeans
        refine ⟨root, outer, first, inner, last, line, requested, hroot, rfl, rfl, ?_, ?_, hchain,
          hlast', hread, hmeans, htrail⟩
        · exact (List.nodup_append.1 (by simpa using hnodup)).2.1
        · exact fun unit hunit => htrail.reaches unit (List.mem_append_right _ hunit)

/-- Two units that import each other, the second under its other spelling, below a unit `m` that is
on no cycle, and a unit `n` that asks for a name that means no unit. Each imports a good unit first.
-/
def faultyFiles : FileSet :=
  ⟨[⟨"m", "<import^z=\"ok.z\">\n<import^z=\"a.z\">"⟩, ⟨"ok.z", "<set^x=1>"⟩,
    ⟨"a.z", "<import^z=\"ok.z\">\n <import^z=\"b.z\">"⟩, ⟨"b", "\n<import^z=\"a.z\">"⟩,
    ⟨"n", "<import^z=\"ok.z\">\n<import^z=\"gone.z\">\n<import^z=\"m.z\">"⟩]⟩

theorem import_faults_truthful_faultyFiles :
    (∃ site, bundle (.ofFiles faultyFiles) "m" = .error (.importCycle ["a.z", "b", "a.z"] site) ∧
      site = some ⟨"<import^z=\"a.z\">", ⟨"b", 2, 1⟩, none⟩ ∧
        (ImportFault.importCycle ["a.z", "b", "a.z"] site).Holds (.ofFiles faultyFiles) "m") ∧
    ∃ site, bundle (.ofFiles faultyFiles) "n" = .error (.unitNotFound "gone.z" site) ∧
      site = some ⟨"<import^z=\"gone.z\">", ⟨"n", 2, 1⟩, none⟩ ∧
        (ImportFault.unitNotFound "gone.z" site).Holds (.ofFiles faultyFiles) "n" := by
  have hcycle : bundle (.ofFiles faultyFiles) "m" = .error (.importCycle ["a.z", "b", "a.z"]
      (some ⟨"<import^z=\"a.z\">", ⟨"b", 2, 1⟩, none⟩)) := by
    decide +kernel
  have hgone : bundle (.ofFiles faultyFiles) "n" = .error (.unitNotFound "gone.z"
      (some ⟨"<import^z=\"gone.z\">", ⟨"n", 2, 1⟩, none⟩)) := by
    decide +kernel
  exact ⟨⟨_, hcycle, rfl, import_faults_truthful hcycle⟩,
    _, hgone, rfl, import_faults_truthful hgone⟩

end ZScript
