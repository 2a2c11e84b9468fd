import Mathlib.Data.List.Nodup
import Mathlib.Data.List.Perm.Subperm
import ZScript.Proofs.Bundling

/-!
# Bundling step by step

`Bundler.bundleUnit` is given the active path, and its recursion returns by itself. A `Walk` is the
same bundling as a machine that keeps one path : it pushes a unit when it starts to read it, and
pops the last unit when it is done with one, with lines or with a fault. The units that wait for
what they asked for are kept apart from the path, so that nothing but these pushes and pops makes
the path right.

A walk from any unit below any path ends, gives what `Bundler.bundleUnit` gives, and leaves the path
as it was (`Walk.steps_visit`) : the recursion of bundling is the bound on the number of its steps.
`Walk.Tidy` is what holds at every step on the way, and `Walk.Tidy.step` proves it in one case
analysis : the path holds the units that are open, each of them once, all of them readable and none
of them finished.
-/

namespace ZScript

/-- The path without its lowest unit. -/
def ImportPath.popped (p : ImportPath) : ImportPath :=
  match p.pop? with
  | some (_, above) => above
  | none => p

@[simp] theorem ImportPath.units_popped (p : ImportPath) : p.popped.units = p.units.dropLast := by
  rcases List.eq_nil_or_concat p.units with hunits | ⟨above, unit, hunits⟩
  · simp [popped, pop?, hunits]
  · simp [popped, pop?, hunits]

@[simp] theorem ImportPath.popped_push (p : ImportPath) (unit : String) :
    (p.push unit).popped = p := by
  simp [popped, pop?, push]

/-- A unit that is being read : the lines left of it, and what the lines before them have become. -/
structure Reading where
  unit : String
  rest : List Line
  output : Array Line := #[]
deriving DecidableEq, Repr

/-- What a walk does next. -/
inductive Task
  /-- It finds out which unit a name means. -/
  | ask (requested : String) (site : Option Line)
  /-- It takes up a unit. -/
  | visit (unit : String) (site : Option Line)
  /-- It goes on reading. -/
  | read (reading : Reading)
  /-- It hands the lines of a unit to the one that asked for it. -/
  | give (unit : String) (lines : List Line)
  /-- It leaves the unit that asked, with a fault. -/
  | fail (fault : ImportFault)
  | stop (result : Except ImportFault Bundle)
deriving DecidableEq

/-- A bundler in the middle of its work. -/
structure Walk where
  task : Task
  /-- The units that wait for an import, the innermost first. -/
  waiting : List Reading
  path : ImportPath
  bundler : Bundler
deriving DecidableEq

namespace Walk

/-- The walk that bundles an entry. -/
def start (path : ImportPath) (b : Bundler) (entry : String) : Walk :=
  ⟨.ask entry none, [], path, b⟩

/-- One step. A walk that has stopped has none. -/
def step (lib : Library) : Walk → Option Walk
  | ⟨.ask requested site, waiting, path, b⟩ =>
    match lib.resolve? requested with
    | none => some ⟨.fail (.unitNotFound requested site), waiting, path, b.countResolve⟩
    | some unit => some ⟨.visit unit site, waiting, path, b.countResolve⟩
  | ⟨.visit unit site, waiting, path, b⟩ =>
    match path.cycleTo? unit with
    | some cycle => some ⟨.fail (.importCycle cycle site), waiting, path, b⟩
    | none =>
      match b.finished.lookup unit with
      | some lines => some ⟨.give unit lines, waiting, path, b.note (.reusingUnit unit)⟩
      | none =>
        match lib.source? unit with
        | none => some ⟨.fail (.unitNotFound unit site), waiting, path, b.countRead⟩
        | some text => some ⟨.read ⟨unit, Line.ofUnit unit text, #[]⟩, waiting, path.push unit,
            b.countRead.note (.bundlingUnit unit path.units)⟩
  | ⟨.read ⟨unit, [], output⟩, waiting, path, b⟩ =>
    some ⟨.give unit output.toList, waiting, path.popped, b.remember unit output.toList⟩
  | ⟨.read ⟨unit, line :: rest, output⟩, waiting, path, b⟩ =>
    match line.importRequest? with
    | none => some ⟨.read ⟨unit, rest, output.push line⟩, waiting, path, b⟩
    | some requested => some ⟨.ask requested (some line), ⟨unit, rest, output⟩ :: waiting, path, b⟩
  | ⟨.give _ lines, r :: waiting, path, b⟩ =>
    some ⟨.read ⟨r.unit, r.rest, r.output ++ lines⟩, waiting, path, b⟩
  | ⟨.give unit lines, [], path, b⟩ =>
    some ⟨.stop (.ok ⟨unit, lines⟩), [], path, b.note (.bundledEntry unit lines.length)⟩
  | ⟨.fail fault, _ :: waiting, path, b⟩ => some ⟨.fail fault, waiting, path.popped, b⟩
  | ⟨.fail fault, [], path, b⟩ => some ⟨.stop (.error fault), [], path, b⟩
  | ⟨.stop _, _, _, _⟩ => none

/-- The second walk is the first after any number of steps. -/
def Steps (lib : Library) : Walk → Walk → Prop :=
  Relation.ReflTransGen fun w w' => w.step lib = some w'

variable {lib : Library}

/-! ## Whole walks -/

theorem Steps.first {w w' w'' : Walk} (h : w.step lib = some w') (h' : Steps lib w' w'') :
    Steps lib w w'' :=
  Relation.ReflTransGen.head h h'

theorem Steps.trans {w w' w'' : Walk} (h : Steps lib w w') (h' : Steps lib w' w'') :
    Steps lib w w'' :=
  Relation.ReflTransGen.trans h h'

/-- How a walk goes on with the outcome for a unit. -/
def handOn (unit : String) (waiting : List Reading) (path : ImportPath) :
    Bundler.Outcome (List Line) → Walk
  | (.error fault, b) => ⟨.fail fault, waiting, path, b⟩
  | (.ok lines, b) => ⟨.give unit lines, waiting, path, b⟩

/-- How a walk goes on when the lines of a unit are read. -/
def leave (unit : String) (waiting : List Reading) (path : ImportPath) :
    Bundler.Outcome (List Line) → Walk
  | (.error fault, b) => ⟨.fail fault, waiting, path.popped, b⟩
  | (.ok lines, b) => ⟨.give unit lines, waiting, path.popped, b.remember unit lines⟩

/-- If the walk from every imported unit gives what `visit` gives, the walk through the lines of a
unit gives what replacing the import lines gives. -/
theorem steps_read {path : ImportPath}
    {visit : String → Line → Bundler → Bundler.Outcome (List Line)}
    (hvisit : ∀ unit line b waiting, Steps lib ⟨.visit unit (some line), waiting, path, b⟩
      (handOn unit waiting path (visit unit line b)))
    (unit : String) (lines : List Line) (output : Array Line) (waiting : List Reading)
    (b : Bundler) : Steps lib ⟨.read ⟨unit, lines, output⟩, waiting, path, b⟩
      (leave unit waiting path (Bundler.inlineImports lib visit lines output b)) := by
  induction lines generalizing output b with
  | nil => exact .first rfl .refl
  | cons line rest ih =>
    cases hline : line.importRequest? with
    | none =>
      simp only [Bundler.inlineImports, hline]
      exact .first (by simp [step, hline]) (ih _ b)
    | some requested =>
      refine .first (by simp only [step, hline]; rfl) ?_
      cases hmeans : lib.resolve? requested with
      | none =>
        simp only [Bundler.inlineImports, hline, hmeans]
        exact .first (by simp only [step, hmeans]; rfl) (.first rfl .refl)
      | some imported =>
        refine .first (by simp only [step, hmeans]; rfl) ?_
        refine (hvisit imported line b.countResolve _).trans ?_
        simp only [Bundler.inlineImports, hline, hmeans]
        rcases visit imported line b.countResolve with ⟨fault | ls, b'⟩
        · exact .first rfl .refl
        · exact .first rfl (ih _ b')

/-- The walk from a unit below a path ends, with the outcome of bundling and the path as it was. -/
theorem steps_visit (path : ImportPath) (unit : String) (site : Option Line) (b : Bundler)
    (waiting : List Reading) : Steps lib ⟨.visit unit site, waiting, path, b⟩
      (handOn unit waiting path (Bundler.bundleUnit lib path unit site b)) := by
  cases hp : path.cycleTo? unit with
  | some cycle =>
    rw [Bundler.bundleUnit_of_cycle hp]
    exact .first (by simp only [step, hp]; rfl) .refl
  | none =>
    cases hf : b.finished.lookup unit with
    | some lines =>
      rw [Bundler.bundleUnit_of_finished hp hf]
      exact .first (by simp only [step, hp, hf]; rfl) .refl
    | none =>
      cases hs : lib.source? unit with
      | none =>
        rw [Bundler.bundleUnit_of_missing hp hf hs]
        exact .first (by simp only [step, hp, hf, hs]; rfl) .refl
      | some text =>
        rw [Bundler.bundleUnit_of_text hp hf hs]
        refine .first (by simp only [step, hp, hf, hs]; rfl) ?_
        have hread := steps_read
          (fun imported line b waiting =>
            steps_visit (path.push unit) imported (some line) b waiting)
          unit (Line.ofUnit unit text) #[] waiting
          (b.countRead.note (.bundlingUnit unit path.units))
        refine hread.trans ?_
        rcases Bundler.inlineImports lib _ _ _ _ with ⟨fault | lines, b'⟩
        · simp only [leave, handOn, ImportPath.popped_push]
          exact .refl
        · simp only [leave, handOn, ImportPath.popped_push]
          exact .refl
termination_by Bundler.room lib path
decreasing_by exact Bundler.room_push_lt (lib.mem_units hs) (ImportPath.cycleTo?_eq_none_iff.1 hp)

/-- A walk from the empty path ends, with what bundling the entry gives. -/
theorem steps_bundle (b : Bundler) (entry : String) : Steps lib (start {} b entry)
    ⟨.stop (b.bundle lib entry).1, [], {}, (b.bundle lib entry).2⟩ := by
  unfold Bundler.bundle
  cases hmeans : lib.resolve? entry with
  | none => exact .first (by simp only [start, step, hmeans]; rfl) (.first rfl .refl)
  | some unit =>
    refine .first (by simp only [start, step, hmeans]; rfl) ?_
    refine (steps_visit {} unit none b.countResolve []).trans ?_
    dsimp only
    rcases Bundler.bundleUnit lib {} unit none b.countResolve with ⟨fault | lines, b'⟩
    · exact .first rfl .refl
    · exact .first rfl .refl

/-- A walk has one end, and every walk on the way leads to it. -/
theorem steps_end {w mid last : Walk} (hlast : Steps lib w last) (hstop : last.step lib = none)
    (hmid : Steps lib w mid) : Steps lib mid last := by
  have hunique : Relator.RightUnique fun w w' : Walk => w.step lib = some w' :=
    fun _ _ _ h h' => Option.some.inj (h.symm.trans h')
  rcases Relation.ReflTransGen.total_of_right_unique hunique hmid hlast with h | h
  · exact h
  · rcases Relation.ReflTransGen.cases_head h with rfl | ⟨next, hnext, -⟩
    · exact .refl
    · cases hstop.symm.trans hnext

/-! ## What every step keeps -/

/-- The units that are being read or wait for an import, from the entry unit down. -/
def openUnits (w : Walk) : List String :=
  (w.waiting.map Reading.unit).reverse ++
    match w.task with
    | .read reading => [reading.unit]
    | _ => []

/-- The path holds the open units, each once. They are readable, and none of them is finished. What
the bundler `b` had finished is finished still, with the same lines. -/
structure Tidy (lib : Library) (b : Bundler) (w : Walk) : Prop where
  path_eq : w.path.units = w.openUnits
  nodup : w.path.units.Nodup
  readable : ∀ unit ∈ w.path.units, ∃ text, lib.source? unit = some text
  unfinished : ∀ unit ∈ w.path.units, w.bundler.finished.lookup unit = none
  keeps : ∀ unit lines, b.finished.lookup unit = some lines →
    w.bundler.finished.lookup unit = some lines

namespace Tidy

variable {b : Bundler} {w w' : Walk}

theorem start (b : Bundler) (entry : String) : (start {} b entry).Tidy lib b where
  path_eq := rfl
  nodup := List.nodup_nil
  readable := by simp [Walk.start]
  unfinished := by simp [Walk.start]
  keeps _ _ h := h

/-- A step that opens and closes no unit. -/
theorem stay (h : w.Tidy lib b) (hpath : w'.path = w.path) (hopen : w'.openUnits = w.openUnits)
    (hfinished : w'.bundler.finished = w.bundler.finished) : w'.Tidy lib b where
  path_eq := by rw [hpath, hopen, h.path_eq]
  nodup := hpath ▸ h.nodup
  readable := hpath ▸ h.readable
  unfinished := by
    rw [hpath, hfinished]
    exact h.unfinished
  keeps := hfinished ▸ h.keeps

/-- A step that opens a unit : it is not on the path, is not finished and can be read. -/
theorem push {unit text : String} (h : w.Tidy lib b) (hpath : w'.path = w.path.push unit)
    (hopen : w'.openUnits = w.openUnits ++ [unit])
    (hfinished : w'.bundler.finished = w.bundler.finished) (hfresh : unit ∉ w.path.units)
    (hunfinished : w.bundler.finished.lookup unit = none) (htext : lib.source? unit = some text) :
    w'.Tidy lib b := by
  have hunits : w'.path.units = w.path.units ++ [unit] := by rw [hpath, ImportPath.push]
  refine ⟨by rw [hunits, hopen, h.path_eq], ?_, ?_, ?_, hfinished ▸ h.keeps⟩
  · rw [hunits]
    simpa using List.Nodup.concat hfresh h.nodup
  · rw [hunits]
    exact List.forall_mem_append.2 ⟨h.readable, by simp [htext]⟩
  · rw [hunits, hfinished]
    exact List.forall_mem_append.2 ⟨h.unfinished, List.forall_mem_singleton.2 hunfinished⟩

/-- A step that closes the last open unit, which may become finished by it. -/
theorem pop (unit : String) (h : w.Tidy lib b) (hpath : w'.path = w.path.popped)
    (hopen : w.openUnits = w'.openUnits ++ [unit])
    (hfinished : ∀ u, u ≠ unit → w'.bundler.finished.lookup u = w.bundler.finished.lookup u) :
    w'.Tidy lib b := by
  have hall : w.path.units = w'.openUnits ++ [unit] := by rw [h.path_eq, hopen]
  have hunits : w'.path.units = w'.openUnits := by
    rw [hpath, ImportPath.units_popped, hall, List.dropLast_concat]
  have hnodup := List.nodup_append.1 (hall ▸ h.nodup)
  have hunfinished := h.unfinished
  have hreadable := h.readable
  rw [hall] at hunfinished hreadable
  obtain ⟨habove, hunit⟩ := List.forall_mem_append.1 hunfinished
  rw [List.forall_mem_singleton] at hunit
  refine ⟨hunits, hunits ▸ hnodup.1, hunits ▸ (List.forall_mem_append.1 hreadable).1, ?_, ?_⟩
  · intro u hu
    rw [hunits] at hu
    rw [hfinished u (hnodup.2.2 u hu unit (by simp))]
    exact habove u hu
  · intro u lines hkept
    have hbefore := h.keeps u lines hkept
    rw [hfinished u fun heq => ?_]
    · exact hbefore
    · rw [heq, hunit] at hbefore
      cases hbefore

/-- Every step keeps a walk tidy. -/
theorem step (h : w.Tidy lib b) (hstep : w.step lib = some w') : w'.Tidy lib b := by
  obtain ⟨task, waiting, path, bundler⟩ := w
  cases task with
  | ask requested site =>
    simp only [Walk.step] at hstep
    split at hstep
    · obtain rfl := Option.some.inj hstep
      exact h.stay rfl rfl rfl
    · obtain rfl := Option.some.inj hstep
      exact h.stay rfl rfl rfl
  | visit unit site =>
    simp only [Walk.step] at hstep
    split at hstep
    · obtain rfl := Option.some.inj hstep
      exact h.stay rfl rfl rfl
    · rename_i hp
      split at hstep
      · obtain rfl := Option.some.inj hstep
        exact h.stay rfl rfl rfl
      · rename_i hf
        split at hstep
        · obtain rfl := Option.some.inj hstep
          exact h.stay rfl rfl rfl
        · rename_i text hs
          obtain rfl := Option.some.inj hstep
          exact h.push rfl (by simp [openUnits]) rfl (ImportPath.cycleTo?_eq_none_iff.1 hp) hf hs
  | read reading =>
    obtain ⟨unit, lines, output⟩ := reading
    cases lines with
    | nil =>
      obtain rfl := Option.some.inj hstep
      refine h.pop unit rfl (by simp [openUnits]) fun u hu => ?_
      exact (lookup_remember _ _ _ u).trans (if_neg hu)
    | cons line rest =>
      simp only [Walk.step] at hstep
      split at hstep
      · obtain rfl := Option.some.inj hstep
        exact h.stay rfl rfl rfl
      · obtain rfl := Option.some.inj hstep
        exact h.stay rfl (by simp [openUnits]) rfl
  | give unit lines =>
    cases waiting with
    | nil =>
      obtain rfl := Option.some.inj hstep
      exact h.stay rfl rfl rfl
    | cons r waiting =>
      obtain rfl := Option.some.inj hstep
      exact h.stay rfl (by simp [openUnits]) rfl
  | fail fault =>
    cases waiting with
    | nil =>
      obtain rfl := Option.some.inj hstep
      exact h.stay rfl rfl rfl
    | cons r waiting =>
      obtain rfl := Option.some.inj hstep
      exact h.pop r.unit rfl (by simp [openUnits]) fun u _ => rfl
  | stop result => cases hstep

theorem steps (h : w.Tidy lib b) (hsteps : Steps lib w w') : w'.Tidy lib b := by
  induction hsteps with
  | refl => exact h
  | tail _ hstep ih => exact ih.step hstep

end Tidy

/-! ## Walks one after the other -/

/-- The path and the bundler between walks, from a new bundler on. Each walk starts with the path
and the bundler that the one before it left. -/
inductive Between (lib : Library) : ImportPath → Bundler → Prop
  | new : Between lib {} {}
  | walk {path : ImportPath} {b : Bundler} {entry : String} {last : Walk} :
      Between lib path b → Steps lib (start path b entry) last → last.step lib = none →
        Between lib last.path last.bundler

/-- Between walks the path is empty. -/
theorem Between.path_eq {path : ImportPath} {b : Bundler} (h : Between lib path b) : path = {} := by
  induction h with
  | new => rfl
  | @walk path b entry last _ hsteps hstop ih =>
    subst ih
    have hend := steps_end hsteps hstop (steps_bundle b entry)
    rcases Relation.ReflTransGen.cases_head hend with rfl | ⟨next, hnext, -⟩
    · rfl
    · cases hnext

theorem Tidy.depth_le {files : FileSet} {b : Bundler} {w : Walk} (h : w.Tidy (.ofFiles files) b) :
    (∀ unit ∈ w.path.units, unit ∈ files.names) ∧ w.path.depth ≤ files.size := by
  have hnames : ∀ unit ∈ w.path.units, unit ∈ files.names := by
    intro unit hunit
    obtain ⟨text, htext⟩ := h.readable unit hunit
    exact FileSet.mem_names_of_text? htext
  have hlength := (h.nodup.subperm hnames).length_le
  rw [Catalog.names, List.length_map] at hlength
  exact ⟨hnames, hlength⟩

end Walk

/-- From every state that calls have left, bundling an entry of a file set stops, with the outcome
of `Bundler.bundle`, and then the path is what it was before, which is empty. All the way the path
holds units of the file set, each once and so no more than there are, none of which is finished, and
what was finished at the start is finished still, with the same lines. -/
theorem walk_stops_and_restores_path {files : FileSet} {path : ImportPath} {b : Bundler}
    (h : Walk.Between (.ofFiles files) path b) (entry : String) :
    path = {} ∧ ∃ last : Walk, last.task = .stop (b.bundle (.ofFiles files) entry).1 ∧
      last.path = path ∧ last.bundler = (b.bundle (.ofFiles files) entry).2 ∧
      last.step (.ofFiles files) = none ∧
      ∀ w, Walk.Steps (.ofFiles files) (.start path b entry) w →
        Walk.Steps (.ofFiles files) w last ∧ w.path.units.Nodup ∧
        (∀ unit ∈ w.path.units, unit ∈ files.names) ∧ w.path.depth ≤ files.size ∧
        (∀ unit ∈ w.path.units, w.bundler.finished.lookup unit = none) ∧
        ∀ unit lines, b.finished.lookup unit = some lines →
          w.bundler.finished.lookup unit = some lines := by
  obtain rfl := h.path_eq
  refine ⟨rfl, ⟨.stop (b.bundle (.ofFiles files) entry).1, [], {},
    (b.bundle (.ofFiles files) entry).2⟩, rfl, rfl, rfl, rfl, fun w hw => ?_⟩
  have htidy := (Walk.Tidy.start b entry).steps hw
  obtain ⟨hnames, hdepth⟩ := htidy.depth_le
  exact ⟨Walk.steps_end (Walk.steps_bundle b entry) rfl hw, htidy.nodup, hnames, hdepth,
    htidy.unfinished, htidy.keeps⟩

/-- A unit that imports a good unit and one that imports itself. -/
def selfImport : FileSet :=
  ⟨[⟨"m", "<import^z=\"ok.z\">\n<import^z=\"a.z\">"⟩, ⟨"ok.z", "<set^x=1>"⟩,
    ⟨"a.z", "<import^z=\"a.z\">"⟩]⟩

/-- A walk that met a cycle leaves the good unit finished and the path empty, and the next walk
gives the good unit. -/
theorem walk_stops_and_restores_path_selfImport : ∃ b last,
    Walk.Between (.ofFiles selfImport) {} b ∧
      b.finished = [("ok.z", [⟨"<set^x=1>", ⟨"ok.z", 1, 1⟩, none⟩])] ∧
      last.task = .stop (.ok ⟨"ok.z", [⟨"<set^x=1>", ⟨"ok.z", 1, 1⟩, none⟩]⟩) ∧ last.path = {} ∧
      Walk.Steps (.ofFiles selfImport) (.start {} b "ok") last ∧
      last.bundler.finished.lookup "ok.z" = some [⟨"<set^x=1>", ⟨"ok.z", 1, 1⟩, none⟩] := by
  have hbetween := Walk.Between.walk .new (@Walk.steps_bundle (.ofFiles selfImport) {} "m") rfl
  obtain ⟨-, last, htask, hpath, -, -, hall⟩ := walk_stops_and_restores_path hbetween "ok"
  have hfinished : ((Bundler.bundle (.ofFiles selfImport) {} "m").2).finished =
      [("ok.z", [⟨"<set^x=1>", ⟨"ok.z", 1, 1⟩, none⟩])] := by
    decide +kernel
  have hresult : (((Bundler.bundle (.ofFiles selfImport) {} "m").2).bundle
      (.ofFiles selfImport) "ok").1 = .ok ⟨"ok.z", [⟨"<set^x=1>", ⟨"ok.z", 1, 1⟩, none⟩]⟩ := by
    decide +kernel
  have hsteps := (hall _ .refl).1
  refine ⟨_, last, hbetween, hfinished, htask.trans (congrArg _ hresult), hpath, hsteps, ?_⟩
  exact (hall last hsteps).2.2.2.2.2 "ok.z" _ (by rw [hfinished]; rfl)

end ZScript
