import ZScript.Proofs.Bundling
import ZScript.Session

/-!
# Units that are not reached

What a run gives depends on a library only through the units that its entry reaches : their texts,
and what the names mean that their import lines ask for. `Library.AgreeBelow` says that two
libraries agree on all of that from a unit on down. Reachability is that of the first library alone,
but the walks over the two libraries ask the same names in the same order, so they never leave the
units on which the libraries agree (`Bundler.bundleUnit_congr`), and all else that a run does is
done with the bundle (`Session.run_congr`).
-/

namespace ZScript

namespace Library

/-- The names that the import lines of a unit ask for. -/
def requests (lib : Library) (unit : String) : List String :=
  match lib.source? unit with
  | none => []
  | some text => (Line.ofUnit unit text).filterMap Line.importRequest?

/-- Two libraries give a unit the same text, and mean the same by the names that it asks for. -/
def AgreeAt (lib other : Library) (unit : String) : Prop :=
  lib.source? unit = other.source? unit ∧
    ∀ requested ∈ lib.requests unit, lib.resolve? requested = other.resolve? requested

/-- Two libraries agree at a unit and at all units that it reaches. -/
def AgreeBelow (lib other : Library) (unit : String) : Prop :=
  ∀ reached, lib.Reaches unit reached → lib.AgreeAt other reached

variable {lib other : Library} {unit : String}

theorem mem_requests_iff {text requested : String} (h : lib.source? unit = some text) :
    requested ∈ lib.requests unit ↔
      ∃ line ∈ Line.ofUnit unit text, line.importRequest? = some requested := by
  simp [requests, h]

theorem imports_iff_requests {imported : String} :
    lib.Imports unit imported ↔
      ∃ requested ∈ lib.requests unit, lib.resolve? requested = some imported := by
  cases htext : lib.source? unit with
  | none => simp [Imports, requests, htext]
  | some text =>
    simp only [imports_iff htext, ImportedBy, mem_requests_iff htext]
    constructor
    · rintro ⟨line, hline, requested, hrequest, hmeans⟩
      exact ⟨requested, ⟨line, hline, hrequest⟩, hmeans⟩
    · rintro ⟨requested, ⟨line, hline, hrequest⟩, hmeans⟩
      exact ⟨line, hline, requested, hrequest, hmeans⟩

theorem AgreeBelow.of_imports {imported : String} (h : lib.AgreeBelow other unit)
    (himp : lib.Imports unit imported) : lib.AgreeBelow other imported :=
  fun reached hreaches => h reached (.head himp hreaches)

/-- A list of units that holds a unit and all that its units import holds all that the unit
reaches. -/
theorem Reaches.mem_of_closed {reached : String} (h : lib.Reaches unit reached)
    (units : List String) (hunit : unit ∈ units)
    (hclosed : ∀ u ∈ units, ∀ requested ∈ lib.requests u,
      ∀ imported ∈ lib.resolve? requested, imported ∈ units) : reached ∈ units := by
  induction h with
  | refl => exact hunit
  | tail _ himp ih =>
    obtain ⟨requested, hrequest, hmeans⟩ := imports_iff_requests.1 himp
    exact hclosed _ ih requested hrequest _ hmeans

/-- Libraries agree below a unit if they agree at the units of a list that holds it and all that its
units import. -/
theorem AgreeBelow.of_closed (units : List String) (hunit : unit ∈ units)
    (hclosed : ∀ u ∈ units, ∀ requested ∈ lib.requests u,
      ∀ imported ∈ lib.resolve? requested, imported ∈ units)
    (hagree : ∀ u ∈ units, lib.AgreeAt other u) : lib.AgreeBelow other unit := by
  intro reached hreaches
  exact hagree reached (hreaches.mem_of_closed units hunit hclosed)

end Library

open Library

/-! ## Two walks -/

namespace Bundler

variable {lib other : Library}

/-- Import lines are replaced in the same way if their names mean the same and the units that they
mean are visited in the same way. -/
theorem inlineImports_congr {visit visit' : String → Line → Bundler → Outcome (List Line)}
    {lines : List Line}
    (hmeans : ∀ line ∈ lines, ∀ requested, line.importRequest? = some requested →
      lib.resolve? requested = other.resolve? requested)
    (hvisit : ∀ imported, lib.ImportedBy lines imported → ∀ line b,
      visit imported line b = visit' imported line b) (output : Array Line) (b : Bundler) :
    inlineImports lib visit lines output b = inlineImports other visit' lines output b := by
  induction lines generalizing output b with
  | nil => rfl
  | cons line rest ih =>
    have hrest := ih (fun l hl => hmeans l (by simp [hl]))
      fun imported himp => hvisit imported (importedBy_cons.2 (.inr himp))
    cases hline : line.importRequest? with
    | none => simp only [inlineImports, hline, hrest]
    | some requested =>
      have hname := hmeans line (by simp) requested hline
      cases hunit : lib.resolve? requested with
      | none => simp only [inlineImports, hline, hunit, ← hname]
      | some unit =>
        have himp : lib.ImportedBy (line :: rest) unit :=
          importedBy_cons.2 (.inl ⟨requested, hline, hunit⟩)
        simp only [inlineImports, hline, hunit, ← hname, hvisit unit himp, hrest]

/-- Libraries that agree below a unit bundle it in the same way, from every state of the bundler. -/
theorem bundleUnit_congr (path : ImportPath) (unit : String) (site : Option Line) (b : Bundler)
    (h : lib.AgreeBelow other unit) :
    bundleUnit lib path unit site b = bundleUnit other path unit site b := by
  obtain ⟨hsource, hmeans⟩ := h unit .refl
  cases hp : path.cycleTo? unit with
  | some cycle => rw [bundleUnit_of_cycle hp, bundleUnit_of_cycle hp]
  | none =>
    cases hf : b.finished.lookup unit with
    | some lines => rw [bundleUnit_of_finished hp hf, bundleUnit_of_finished hp hf]
    | none =>
      cases hs : lib.source? unit with
      | none =>
        rw [bundleUnit_of_missing hp hf hs, bundleUnit_of_missing hp hf (hsource.symm.trans hs)]
      | some text =>
        rw [bundleUnit_of_text hp hf hs, bundleUnit_of_text hp hf (hsource.symm.trans hs),
          inlineImports_congr
            (fun line hline requested hrequest =>
              hmeans requested ((mem_requests_iff hs).2 ⟨line, hline, hrequest⟩))
            fun imported himp line b => bundleUnit_congr (path.push unit) imported (some line) b
              (h.of_imports ((imports_iff hs).2 himp))]
termination_by room lib path
decreasing_by exact room_push_lt (lib.mem_units hs) (ImportPath.cycleTo?_eq_none_iff.1 hp)

theorem bundle_congr {entry : String} (hentry : lib.resolve? entry = other.resolve? entry)
    (h : ∀ root ∈ lib.resolve? entry, lib.AgreeBelow other root) (b : Bundler) :
    b.bundle lib entry = b.bundle other entry := by
  unfold bundle
  rw [← hentry]
  cases hroot : lib.resolve? entry with
  | none => rfl
  | some root => simp only [bundleUnit_congr {} root none b.countResolve (h root hroot)]

end Bundler

theorem Session.run_congr {lib other : Library} {s : Session} {entry : String}
    (h : s.bundler.bundle lib entry = s.bundler.bundle other entry) :
    s.run lib entry = s.run other entry := by
  have hbundle : s.bundle lib entry = s.bundle other entry := by rw [bundle, bundle, h]
  rw [run, run, hbundle]

/-- Units that the entry does not reach do not matter : file sets that mean the same unit by the
entry, and agree at the units it reaches in the first of them, give the same result, be it a
compilation or a fault, and leave a session in the same state. -/
theorem unreached_units_noninterfering {files other : FileSet} {entry : String}
    (hentry : files.resolve? entry = other.resolve? entry)
    (hreached : ∀ root, files.resolve? entry = some root →
      (ofFiles files).AgreeBelow (ofFiles other) root) :
    (∀ config, compileProject config files entry = compileProject config other entry) ∧
      ∀ s : Session, s.run (.ofFiles files) entry = s.run (.ofFiles other) entry := by
  have hrun : ∀ s : Session, s.run (.ofFiles files) entry = s.run (.ofFiles other) entry :=
    fun s => Session.run_congr (Bundler.bundle_congr hentry hreached s.bundler)
  exact ⟨fun config => congrArg Prod.fst (hrun { config }), hrun⟩

/-- A unit that calls a macro of the unit it imports. -/
def callerFiles : FileSet :=
  ⟨[⟨"m", "<import^z=\"f.z\">\n  f(1)"⟩, ⟨"f.z", "<command^crt>\nf(n)\n<set^x=n>\n<cmd^add>"⟩]⟩

/-- The same units in another order, behind a unit that cannot be bundled and one that has the
imported name in its other spelling. -/
def crowdedFiles : FileSet :=
  ⟨[⟨"x.z", "<import^z=\"gone.z\">"⟩, ⟨"f", "<end^if>"⟩,
    ⟨"f.z", "<command^crt>\nf(n)\n<set^x=n>\n<cmd^add>"⟩, ⟨"m", "<import^z=\"f.z\">\n  f(1)"⟩]⟩

theorem unreached_units_noninterfering_crowdedFiles :
    (∃ c, compileProject {} callerFiles "m" = .ok c ∧ c.lines.map Line.text = ["<set^x=1>"]) ∧
      callerFiles.resolve? "m" = some "m" ∧
        (ofFiles callerFiles).AgreeBelow (ofFiles crowdedFiles) "m" ∧
          compileProject {} callerFiles "m" = compileProject {} crowdedFiles "m" := by
  have hrun : (compileProject {} callerFiles "m").toOption.map (fun c => c.lines.map Line.text) =
      some ["<set^x=1>"] := by
    decide +kernel
  simp only [Option.map_eq_some_iff, toOption_eq_some_iff] at hrun
  have hroot : callerFiles.resolve? "m" = some "m" := by decide +kernel
  have hagree : (ofFiles callerFiles).AgreeBelow (ofFiles crowdedFiles) "m" := by
    refine AgreeBelow.of_closed ["m", "f.z"] (by simp) (by decide +kernel) ?_
    unfold AgreeAt
    decide +kernel
  refine ⟨hrun, hroot, hagree, ?_⟩
  refine (unreached_units_noninterfering (by decide +kernel) fun root h => ?_).1 {}
  obtain rfl := Option.some.inj (hroot.symm.trans h)
  exact hagree

end ZScript
