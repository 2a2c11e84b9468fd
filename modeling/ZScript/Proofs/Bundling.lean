import ZScript.Proofs.ImportGraph

/-!
# Bundling against the import graph

`Uncached.bundleUnit` is the walk of a bundler that keeps nothing : every import is read again. It
gives lines exactly if the unit can be inlined and reaches no unit of the active path
(`Uncached.bundleUnit_eq_ok_iff`).

A bundler that keeps finished units gives the same, whatever it was asked before and whether or not
that failed. The invariant is `Settled` : a finished unit has the lines that inlining gives it, the
units it imports are finished too, and no unit of the active path is finished. A finished unit then
reaches finished units only, so that walking down from it again would meet neither the path nor a
fault, and skipping it hides nothing (`Settled.uncached`). `Faithful` states what one step of the
bundler does, `Bundler.bundleUnit_faithful` proves it for the whole walk, and `bundleEach_eq_map`
for a sequence of entries.
-/

namespace ZScript

open Library

theorem map_eq_ok_iff {ε α β : Type} {f : α → β} {r : Except ε α} {b : β} :
    r.map f = .ok b ↔ ∃ a, r = .ok a ∧ f a = b := by
  cases r <;> simp [Except.map]

theorem map_eq_error_iff {ε α β : Type} {f : α → β} {r : Except ε α} {e : ε} :
    r.map f = .error e ↔ r = .error e := by
  cases r <;> simp [Except.map]

theorem toOption_eq_some_iff {ε α : Type} {r : Except ε α} {a : α} :
    r.toOption = some a ↔ r = .ok a := by
  cases r <;> simp [Except.toOption]

theorem ImportPath.mem_of_cycleTo? {path : ImportPath} {unit : String} {cycle : List String}
    (h : path.cycleTo? unit = some cycle) : unit ∈ path.units := by
  rw [cycleTo?] at h
  split at h
  · assumption
  · cases h

/-! ## The walk of a bundler that keeps nothing -/

namespace Uncached

/-- Replaces the import lines of a unit by what `visit` gives for the units they name. -/
def inlineImports (lib : Library) (visit : String → Line → Except ImportFault (List Line)) :
    List Line → Except ImportFault (List Line)
  | [] => .ok []
  | line :: rest =>
    match line.importRequest? with
    | none => (inlineImports lib visit rest).map (line :: ·)
    | some requested =>
      match lib.resolve? requested with
      | none => .error (.unitNotFound requested (some line))
      | some unit =>
        match visit unit line with
        | .error fault => .error fault
        | .ok lines => (inlineImports lib visit rest).map (lines ++ ·)

/-- Bundles a unit below a path, reading it and all that it imports. -/
def bundleUnit (lib : Library) (path : ImportPath) (unit : String) (site : Option Line) :
    Except ImportFault (List Line) :=
  match _hp : path.cycleTo? unit with
  | some cycle => .error (.importCycle cycle site)
  | none =>
    match _hs : lib.source? unit with
    | none => .error (.unitNotFound unit site)
    | some text =>
      inlineImports lib (fun imported line => bundleUnit lib (path.push unit) imported (some line))
        (Line.ofUnit unit text)
termination_by Bundler.room lib path
decreasing_by exact Bundler.room_push_lt (lib.mem_units _hs) (ImportPath.cycleTo?_eq_none_iff.1 _hp)

/-- Bundles an entry unit. -/
def bundle (lib : Library) (entry : String) : Except ImportFault Bundle :=
  match lib.resolve? entry with
  | none => .error (.unitNotFound entry none)
  | some unit => (bundleUnit lib {} unit none).map fun lines => ⟨unit, lines⟩

variable {lib : Library}

/-- If `visit` gives lines for the units that can be inlined and satisfy `p`, lines are given for
those lines that can be inlined and import only units that satisfy `p`. -/
theorem inlineImports_eq_ok_iff {visit : String → Line → Except ImportFault (List Line)}
    {p : String → Prop}
    (hvisit : ∀ unit line lines, visit unit line = .ok lines ↔ lib.Inlining unit lines ∧ p unit)
    (lines out : List Line) : inlineImports lib visit lines = .ok out ↔
      lib.Inlined lines out ∧ ∀ unit, lib.ImportedBy lines unit → p unit := by
  induction lines generalizing out with
  | nil =>
    constructor
    · intro h
      obtain rfl : [] = out := Except.ok.inj h
      exact ⟨.nil, by simp [ImportedBy]⟩
    · rintro ⟨h, -⟩
      cases h
      rfl
  | cons line rest ih =>
    cases hline : line.importRequest? with
    | none =>
      simp only [inlineImports, hline, map_eq_ok_iff, ih, importedBy_cons]
      constructor
      · rintro ⟨out, ⟨hout, hp⟩, rfl⟩
        exact ⟨.keep hline hout, by simpa using hp⟩
      · rintro ⟨h, hp⟩
        cases h with
        | keep _ hout => exact ⟨_, ⟨hout, by simpa using hp⟩, rfl⟩
        | splice hline' => simp [hline] at hline'
    | some requested =>
      cases hres : lib.resolve? requested with
      | none =>
        simp only [inlineImports, hline, hres, reduceCtorEq, false_iff]
        rintro ⟨h, -⟩
        obtain ⟨unit, hunit⟩ := h.resolves line (by simp) requested hline
        simp [hres] at hunit
      | some unit =>
        have hcons : ∀ u, lib.ImportedBy (line :: rest) u ↔ u = unit ∨ lib.ImportedBy rest u := by
          intro u
          simp [importedBy_cons, hline, hres, eq_comm]
        constructor
        · intro h
          simp only [inlineImports, hline, hres] at h
          cases hv : visit unit line with
          | error fault => simp [hv] at h
          | ok lines =>
            simp only [hv, map_eq_ok_iff, ih] at h
            obtain ⟨out, ⟨hout, hp⟩, rfl⟩ := h
            obtain ⟨⟨text, htext, hlines⟩, hpu⟩ := (hvisit unit line lines).1 hv
            refine ⟨.splice hline hres htext hlines hout, fun u hu => ?_⟩
            rcases (hcons u).1 hu with rfl | hu
            · exact hpu
            · exact hp u hu
        · rintro ⟨h, hp⟩
          cases h with
          | keep hline' => simp [hline] at hline'
          | splice hline' hres' htext hlines hout =>
            obtain rfl := Option.some.inj (hline.symm.trans hline')
            obtain rfl := Option.some.inj (hres.symm.trans hres')
            have hv := (hvisit unit line _).2 ⟨⟨_, htext, hlines⟩, hp unit ((hcons _).2 (.inl rfl))⟩
            have hr := (ih _).2 ⟨hout, fun u hu => hp u ((hcons u).2 (.inr hu))⟩
            simp [inlineImports, hline, hres, hv, hr, Except.map]

/-- The units that a unit reaches avoid a path if it is not on the path itself and the units that
its imports reach avoid the path with the unit on it. -/
theorem reaches_notMem_iff {path : ImportPath} {unit text : String} {out : List Line}
    (htext : lib.source? unit = some text) (hout : lib.Inlined (Line.ofUnit unit text) out) :
    (∀ reached, lib.Reaches unit reached → reached ∉ path.units) ↔ unit ∉ path.units ∧
      ∀ imported, lib.ImportedBy (Line.ofUnit unit text) imported →
        ∀ reached, lib.Reaches imported reached → reached ∉ (path.push unit).units := by
  constructor
  · intro h
    refine ⟨h unit .refl, fun imported himported reached hr hmem => ?_⟩
    have himp : lib.Imports unit imported := ⟨text, htext, himported⟩
    rcases List.mem_append.1 hmem with hmem | hmem
    · exact h reached (.head himp hr) hmem
    · obtain rfl := List.mem_singleton.1 hmem
      exact Inlining.not_cyclic ⟨text, htext, hout⟩ (.head' himp hr)
  · rintro ⟨hunit, h⟩ reached hr
    rcases Relation.ReflTransGen.cases_head hr with rfl | ⟨imported, himp, hr⟩
    · exact hunit
    · intro hmem
      exact h imported ((imports_iff htext).1 himp) reached hr (List.mem_append_left _ hmem)

theorem bundleUnit_of_cycle {path : ImportPath} {unit : String} {cycle : List String}
    (hp : path.cycleTo? unit = some cycle) (site : Option Line) :
    bundleUnit lib path unit site = .error (.importCycle cycle site) := by
  rw [bundleUnit]
  split <;> simp_all

theorem bundleUnit_of_missing {path : ImportPath} {unit : String} (hp : path.cycleTo? unit = none)
    (hs : lib.source? unit = none) (site : Option Line) :
    bundleUnit lib path unit site = .error (.unitNotFound unit site) := by
  rw [bundleUnit]
  split
  · simp_all
  · split <;> simp_all

theorem bundleUnit_of_text {path : ImportPath} {unit text : String}
    (hp : path.cycleTo? unit = none) (hs : lib.source? unit = some text) (site : Option Line) :
    bundleUnit lib path unit site = inlineImports lib
      (fun imported line => bundleUnit lib (path.push unit) imported (some line))
      (Line.ofUnit unit text) := by
  rw [bundleUnit]
  split
  · simp_all
  · split <;> simp_all

/-- The walk gives lines for the units that can be inlined and reach no unit of the path. -/
theorem bundleUnit_eq_ok_iff (path : ImportPath) (unit : String) (site : Option Line)
    (out : List Line) : bundleUnit lib path unit site = .ok out ↔
      lib.Inlining unit out ∧ ∀ reached, lib.Reaches unit reached → reached ∉ path.units := by
  induction path, unit, site using bundleUnit.induct lib generalizing out with
  | case1 path unit site cycle hp =>
    simp only [bundleUnit_of_cycle hp, reduceCtorEq, false_iff]
    rintro ⟨-, h⟩
    exact h unit .refl (ImportPath.mem_of_cycleTo? hp)
  | case2 path unit site hp hs =>
    simp only [bundleUnit_of_missing hp hs, reduceCtorEq, false_iff]
    rintro ⟨⟨text, htext, -⟩, -⟩
    simp [hs] at htext
  | case3 path unit site hp text hs ih =>
    have hunit := ImportPath.cycleTo?_eq_none_iff.1 hp
    rw [bundleUnit_of_text hp hs, inlineImports_eq_ok_iff fun imported line => ih imported line]
    constructor
    · rintro ⟨hout, h⟩
      exact ⟨⟨text, hs, hout⟩, (reaches_notMem_iff hs hout).2 ⟨hunit, h⟩⟩
    · rintro ⟨⟨text', hs', hout⟩, h⟩
      obtain rfl := Option.some.inj (hs.symm.trans hs')
      exact ⟨hout, ((reaches_notMem_iff hs hout).1 h).2⟩

end Uncached

/-! ## Finished units -/

theorem lookup_remember (finished : List (String × List Line)) (unit : String) (lines : List Line)
    (u : String) : ((unit, lines) :: finished).lookup u =
      if u = unit then some lines else finished.lookup u := by
  by_cases hu : u = unit
  · simp [hu]
  · simp [List.lookup_cons, beq_false_of_ne hu, hu]

/-- The finished units fit a walk below a path. -/
structure Settled (lib : Library) (path : ImportPath) (finished : List (String × List Line)) :
    Prop where
  inlining : ∀ {unit lines}, finished.lookup unit = some lines → lib.Inlining unit lines
  closed : ∀ {unit lines imported}, finished.lookup unit = some lines →
    lib.Imports unit imported → ∃ lines', finished.lookup imported = some lines'
  fresh : ∀ unit ∈ path.units, finished.lookup unit = none

namespace Settled

variable {lib : Library} {path : ImportPath} {finished : List (String × List Line)}

theorem nil (lib : Library) (path : ImportPath) : Settled lib path [] where
  inlining h := by simp at h
  closed h := by simp at h
  fresh _ _ := rfl

theorem push {unit : String} (h : Settled lib path finished)
    (hunit : finished.lookup unit = none) : Settled lib (path.push unit) finished where
  inlining := h.inlining
  closed := h.closed
  fresh u hu := by
    rcases List.mem_append.1 hu with hu | hu
    · exact h.fresh u hu
    · exact List.mem_singleton.1 hu ▸ hunit

theorem pop {unit : String} (h : Settled lib (path.push unit) finished) :
    Settled lib path finished where
  inlining := h.inlining
  closed := h.closed
  fresh u hu := h.fresh u (List.mem_append_left _ hu)

/-- What a finished unit reaches is finished. -/
theorem reaches {unit reached : String} {lines : List Line} (h : Settled lib path finished)
    (hunit : finished.lookup unit = some lines) (hr : lib.Reaches unit reached) :
    ∃ lines', finished.lookup reached = some lines' := by
  induction hr with
  | refl => exact ⟨lines, hunit⟩
  | tail _ himp ih =>
    obtain ⟨lines', hlines'⟩ := ih
    exact h.closed hlines' himp

/-- Reading a finished unit again gives the lines that are kept for it. -/
theorem uncached {unit : String} {lines : List Line} (h : Settled lib path finished)
    (hunit : finished.lookup unit = some lines) (site : Option Line) :
    Uncached.bundleUnit lib path unit site = .ok lines := by
  refine (Uncached.bundleUnit_eq_ok_iff path unit site lines).2 ⟨h.inlining hunit, ?_⟩
  intro reached hr hmem
  obtain ⟨lines', hlines'⟩ := h.reaches hunit hr
  simp [h.fresh reached hmem] at hlines'

/-- A unit may be kept once it is inlined and all that it imports is finished. -/
theorem remember {unit : String} {lines : List Line} (h : Settled lib (path.push unit) finished)
    (hpath : unit ∉ path.units) (hlines : lib.Inlining unit lines)
    (himports : ∀ imported, lib.Imports unit imported →
      ∃ lines', finished.lookup imported = some lines') :
    Settled lib path ((unit, lines) :: finished) := by
  refine ⟨fun {u ls} hu => ?_, fun {u ls v} hu himp => ?_, fun u hu => ?_⟩
  · rw [lookup_remember] at hu
    split at hu
    · obtain rfl := Option.some.inj hu
      subst u
      exact hlines
    · exact h.inlining hu
  · rw [lookup_remember] at hu ⊢
    split
    · exact ⟨lines, rfl⟩
    · split at hu
      · subst u
        exact himports v himp
      · exact h.closed hu himp
  · have hne : u ≠ unit := fun hu' => hpath (hu' ▸ hu)
    rw [lookup_remember, if_neg hne]
    exact h.pop.fresh u hu

end Settled

/-! ## The walk of a bundler -/

namespace Bundler

variable {lib : Library}

theorem bundleUnit_of_cycle {path : ImportPath} {unit : String} {cycle : List String}
    (hp : path.cycleTo? unit = some cycle) (site : Option Line) (b : Bundler) :
    bundleUnit lib path unit site b = (.error (.importCycle cycle site), b) := by
  rw [bundleUnit]
  split <;> simp_all

theorem bundleUnit_of_finished {path : ImportPath} {unit : String} {lines : List Line}
    {b : Bundler} (hp : path.cycleTo? unit = none) (hf : b.finished.lookup unit = some lines)
    (site : Option Line) :
    bundleUnit lib path unit site b = (.ok lines, b.note (.reusingUnit unit)) := by
  rw [bundleUnit]
  split
  · simp_all
  · simp [hf]

theorem bundleUnit_of_missing {path : ImportPath} {unit : String} {b : Bundler}
    (hp : path.cycleTo? unit = none) (hf : b.finished.lookup unit = none)
    (hs : lib.source? unit = none) (site : Option Line) :
    bundleUnit lib path unit site b = (.error (.unitNotFound unit site), b.countRead) := by
  rw [bundleUnit]
  split
  · simp_all
  · split
    · simp_all
    · split
      · rfl
      · simp_all

theorem bundleUnit_of_text {path : ImportPath} {unit text : String} {b : Bundler}
    (hp : path.cycleTo? unit = none) (hf : b.finished.lookup unit = none)
    (hs : lib.source? unit = some text) (site : Option Line) :
    bundleUnit lib path unit site b =
      match inlineImports lib
        (fun imported line b => bundleUnit lib (path.push unit) imported (some line) b)
        (Line.ofUnit unit text) #[] (b.countRead.note (.bundlingUnit unit path.units)) with
      | (.error fault, b) => (.error fault, b)
      | (.ok lines, b) => (.ok lines, b.remember unit lines) := by
  rw [bundleUnit]
  split
  · simp_all
  · split
    · simp_all
    · split
      · simp_all
      · rename_i hs'
        obtain rfl := Option.some.inj (hs.symm.trans hs')
        rfl

end Bundler

/-- A step of a bundler from `b` below a path gives what the walk without finished units gives,
keeps what was finished, and on success has finished the units that it was to finish. -/
structure Faithful (lib : Library) (path : ImportPath) (b : Bundler) (wanted : String → Prop)
    (step : Bundler.Outcome (List Line)) (uncached : Except ImportFault (List Line)) : Prop where
  result : step.1 = uncached
  settled : Settled lib path step.2.finished
  keeps : ∀ {unit lines}, b.finished.lookup unit = some lines →
    step.2.finished.lookup unit = some lines
  finishes : ∀ {lines unit}, step.1 = .ok lines → wanted unit →
    ∃ lines', step.2.finished.lookup unit = some lines'

namespace Bundler

variable {lib : Library}

/-- If `visit` is faithful, so is replacing the import lines by what it gives. -/
theorem inlineImports_faithful {path : ImportPath}
    {visit : String → Line → Bundler → Outcome (List Line)}
    {uncached : String → Line → Except ImportFault (List Line)}
    (hvisit : ∀ unit line b, Settled lib path b.finished →
      Faithful lib path b (· = unit) (visit unit line b) (uncached unit line))
    (lines : List Line) (output : Array Line) (b : Bundler) (hb : Settled lib path b.finished) :
    Faithful lib path b (lib.ImportedBy lines) (inlineImports lib visit lines output b)
      ((Uncached.inlineImports lib uncached lines).map (output.toList ++ ·)) := by
  induction lines generalizing output b with
  | nil =>
    refine ⟨?_, hb, fun h => h, fun _ hu => ?_⟩
    · simp [inlineImports, Uncached.inlineImports, Except.map]
    · simp [ImportedBy] at hu
  | cons line rest ih =>
    cases hline : line.importRequest? with
    | none =>
      have hrest := ih (output.push line) b hb
      simp only [inlineImports, Uncached.inlineImports, hline]
      refine ⟨?_, hrest.settled, hrest.keeps, fun {ls u} hok hu => ?_⟩
      · rw [hrest.result]
        cases Uncached.inlineImports lib uncached rest <;> simp [Except.map]
      · refine hrest.finishes hok ?_
        simpa [importedBy_cons, hline] using hu
    | some requested =>
      cases hres : lib.resolve? requested with
      | none =>
        simp only [inlineImports, Uncached.inlineImports, hline, hres]
        exact ⟨rfl, hb, fun h => h, fun h => by simp at h⟩
      | some unit =>
        have hv := hvisit unit line b.countResolve hb
        simp only [inlineImports, Uncached.inlineImports, hline, hres]
        rcases hstep : visit unit line b.countResolve with ⟨fault | ls, b'⟩
        · rw [hstep] at hv
          simp only [← hv.result]
          exact ⟨rfl, hv.settled, hv.keeps, fun h => by simp at h⟩
        · rw [hstep] at hv
          have hrest := ih (output ++ ls) b' hv.settled
          simp only [← hv.result]
          refine ⟨?_, hrest.settled, fun h => hrest.keeps (hv.keeps h), fun {ls' u} hok hu => ?_⟩
          · rw [hrest.result]
            cases Uncached.inlineImports lib uncached rest <;> simp [Except.map]
          · rcases importedBy_cons.1 hu with ⟨requested', hline', hres'⟩ | hu
            · obtain rfl := Option.some.inj (hline.symm.trans hline')
              obtain rfl := Option.some.inj (hres.symm.trans hres')
              obtain ⟨ls'', hls''⟩ := hv.finishes rfl rfl
              exact ⟨ls'', hrest.keeps hls''⟩
            · exact hrest.finishes hok hu

/-- Bundling a unit is faithful from every settled state. -/
theorem bundleUnit_faithful (path : ImportPath) (unit : String) (site : Option Line) (b : Bundler)
    (hb : Settled lib path b.finished) :
    Faithful lib path b (· = unit) (bundleUnit lib path unit site b)
      (Uncached.bundleUnit lib path unit site) := by
  cases hp : path.cycleTo? unit with
  | some cycle =>
    rw [bundleUnit_of_cycle hp, Uncached.bundleUnit_of_cycle hp]
    exact ⟨rfl, hb, fun h => h, fun h => by simp at h⟩
  | none =>
    have hunit := ImportPath.cycleTo?_eq_none_iff.1 hp
    cases hf : b.finished.lookup unit with
    | some lines =>
      -- nothing below a finished unit is on the path, so the walk that is skipped meets no fault
      rw [bundleUnit_of_finished hp hf, hb.uncached hf]
      exact ⟨rfl, hb, fun h => h, fun _ hu => ⟨lines, hu ▸ hf⟩⟩
    | none =>
      cases hs : lib.source? unit with
      | none =>
        rw [bundleUnit_of_missing hp hf hs, Uncached.bundleUnit_of_missing hp hs]
        exact ⟨rfl, hb, fun h => h, fun h => by simp at h⟩
      | some text =>
        have hin := inlineImports_faithful
          (fun imported line b hb => bundleUnit_faithful (path.push unit) imported (some line) b hb)
          (Line.ofUnit unit text) #[] (b.countRead.note (.bundlingUnit unit path.units))
          (hb.push hf)
        have hout := Uncached.bundleUnit_of_text hp hs site
        rw [bundleUnit_of_text hp hf hs]
        generalize inlineImports lib
          (fun imported line b => bundleUnit lib (path.push unit) imported (some line) b)
          (Line.ofUnit unit text) #[] (b.countRead.note (.bundlingUnit unit path.units)) = step
          at hin ⊢
        have hresult : step.1 = Uncached.bundleUnit lib path unit site := by
          rw [hin.result, hout]
          cases Uncached.inlineImports lib _ (Line.ofUnit unit text) <;> rfl
        obtain ⟨fault | lines, b'⟩ := step
        · exact ⟨hresult, hin.settled.pop, hin.keeps, fun h => by simp at h⟩
        · have hlines := ((Uncached.bundleUnit_eq_ok_iff path unit site lines).1 hresult.symm).1
          refine ⟨hresult, hin.settled.remember hunit hlines ?_, fun {u ls} hu => ?_,
            fun _ hu => ⟨lines, ?_⟩⟩
          · intro imported himp
            exact hin.finishes rfl ((imports_iff hs).1 himp)
          · have hne : u ≠ unit := by
              rintro rfl
              simp [hf] at hu
            show List.lookup u ((unit, lines) :: b'.finished) = some ls
            rw [lookup_remember, if_neg hne]
            exact hin.keeps hu
          · show List.lookup _ ((unit, lines) :: b'.finished) = some lines
            rw [lookup_remember, if_pos hu]
termination_by room lib path
decreasing_by exact room_push_lt (lib.mem_units hs) hunit

/-- The bundles of entry units, made one after the other by one bundler. -/
def bundleEach (lib : Library) : Bundler → List String → List (Except ImportFault Bundle)
  | _, [] => []
  | b, entry :: entries => (b.bundle lib entry).1 :: bundleEach lib (b.bundle lib entry).2 entries

theorem bundle_faithful {b : Bundler} (hb : Settled lib {} b.finished) (entry : String) :
    (b.bundle lib entry).1 = Uncached.bundle lib entry ∧
      Settled lib {} (b.bundle lib entry).2.finished := by
  unfold bundle Uncached.bundle
  cases hres : lib.resolve? entry with
  | none => exact ⟨rfl, hb⟩
  | some unit =>
    have hstep := bundleUnit_faithful {} unit none b.countResolve hb
    simp only [← hstep.result]
    rcases hunit : bundleUnit lib {} unit none b.countResolve with ⟨fault | lines, b'⟩
    · rw [hunit] at hstep
      exact ⟨rfl, hstep.settled⟩
    · rw [hunit] at hstep
      exact ⟨rfl, hstep.settled⟩

theorem bundleEach_eq_map (entries : List String) (b : Bundler)
    (hb : Settled lib {} b.finished) :
    bundleEach lib b entries = entries.map (Uncached.bundle lib) := by
  induction entries generalizing b with
  | nil => rfl
  | cons entry entries ih =>
    obtain ⟨hresult, hsettled⟩ := bundle_faithful hb entry
    rw [bundleEach, hresult, ih _ hsettled, List.map_cons]

end Bundler

theorem bundle_eq_uncached (lib : Library) (entry : String) :
    bundle lib entry = Uncached.bundle lib entry :=
  (Bundler.bundle_faithful (Settled.nil lib {}) entry).1

/-- A bundler that is asked for one entry after the other, also after faults, gives for each what a
new bundler gives for it, and that is what a bundler gives that keeps nothing. -/
theorem bundleEach_transparent (lib : Library) (entries : List String) :
    Bundler.bundleEach lib {} entries = entries.map (bundle lib) ∧
      entries.map (bundle lib) = entries.map (Uncached.bundle lib) := by
  have hfresh : entries.map (bundle lib) = entries.map (Uncached.bundle lib) :=
    List.map_congr_left fun entry _ => bundle_eq_uncached lib entry
  exact ⟨(Bundler.bundleEach_eq_map entries {} (Settled.nil lib {})).trans hfresh.symm, hfresh⟩

/-! ## Which units can be bundled, and as what -/

/-- A bundle is the inlining of the unit that the entry means. -/
theorem bundle_eq_ok_iff {lib : Library} {entry : String} {b : Bundle} :
    bundle lib entry = .ok b ↔
      lib.resolve? entry = some b.entry ∧ lib.Inlining b.entry b.lines := by
  rw [bundle_eq_uncached, Uncached.bundle]
  cases hres : lib.resolve? entry with
  | none => simp
  | some unit =>
    simp only [map_eq_ok_iff, Uncached.bundleUnit_eq_ok_iff]
    constructor
    · rintro ⟨lines, ⟨hlines, -⟩, rfl⟩
      exact ⟨rfl, hlines⟩
    · rintro ⟨hunit, hlines⟩
      obtain rfl := Option.some.inj hunit
      exact ⟨b.lines, ⟨hlines, by simp⟩, rfl⟩

theorem ofText_ne_importUnit {line : Line} (h : line.importRequest? = none) (name : String) :
    Directive.ofText line.text ≠ .importUnit name := by
  intro hname
  simp [Line.importRequest?, hname] at h

/-- An entry of a file set can be bundled if and only if it means a unit, every import line of the
units it reaches means a unit, and none of these reaches itself. The bundle then holds the inlining
of the entry unit, and no import line. -/
theorem exists_bundle_iff_acyclic (files : FileSet) (entry : String) :
    ((∃ b, bundle (.ofFiles files) entry = .ok b) ↔
      ∃ unit, files.resolve? entry = some unit ∧
        ∀ reached, (ofFiles files).Reaches unit reached →
          (ofFiles files).Resolves reached ∧ ¬(ofFiles files).Cyclic reached) ∧
    ∀ b, bundle (.ofFiles files) entry = .ok b →
      files.resolve? entry = some b.entry ∧
      (∀ lines, (ofFiles files).Inlining b.entry lines ↔ lines = b.lines) ∧
      ∀ line ∈ b.lines, ∀ name, Directive.ofText line.text ≠ .importUnit name := by
  constructor
  · constructor
    · rintro ⟨b, hb⟩
      obtain ⟨hunit, hlines⟩ := bundle_eq_ok_iff.1 hb
      refine ⟨b.entry, hunit, fun reached hr => ?_⟩
      exact (exists_inlining_iff.1 ⟨b.lines, hlines⟩ reached hr).2
    · rintro ⟨unit, hunit, h⟩
      obtain ⟨lines, hlines⟩ := exists_inlining_iff.2 fun reached hr =>
        ⟨exists_text_of_reaches hunit hr, h reached hr⟩
      exact ⟨⟨unit, lines⟩, bundle_eq_ok_iff.2 ⟨hunit, hlines⟩⟩
  · intro b hb
    obtain ⟨hunit, hlines⟩ := bundle_eq_ok_iff.1 hb
    refine ⟨hunit, fun lines => ⟨fun h => h.unique hlines, fun h => h ▸ hlines⟩, ?_⟩
    intro line hline
    obtain ⟨text, -, hinlined⟩ := hlines
    exact ofText_ne_importUnit (hinlined.importRequest?_eq_none line hline)

end ZScript
