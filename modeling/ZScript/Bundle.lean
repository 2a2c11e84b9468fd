import ZScript.Directive.Rules
import ZScript.Event
import ZScript.ImportPath
import ZScript.Library

/-!
# Bundles

A bundle is a unit with every import line replaced by the bundle of the unit it names. A bundler
makes bundles one after the other and keeps each unit it has finished, so that a unit is read once
however often it is imported. It stops at the first import, in the order of reading, that names no
unit or a unit on the active import path.
-/

namespace ZScript

/-- Why a unit could not be bundled. -/
inductive ImportFault
  /-- A name that means no unit. The entry has no import line that asks for it. -/
  | unitNotFound (requested : String) (site : Option Line)
  /-- Units each of which imports the next; the last is the first. -/
  | importCycle (cycle : List String) (site : Option Line)
deriving DecidableEq, Repr

/-- An entry unit with its imports inlined. -/
structure Bundle where
  entry : String
  lines : List Line
deriving DecidableEq, Repr

/-- The text of a bundle. -/
def Bundle.text (b : Bundle) : String :=
  Line.join b.lines

/-- The name that an import line asks for. -/
def Line.importRequest? (l : Line) : Option String :=
  match Directive.ofText l.text with
  | .importUnit name => some name
  | _ => none

/-- What a bundler keeps while it makes bundles. -/
structure Bundler where
  /-- The finished units with their lines. -/
  finished : List (String × List Line) := []
  /-- How often a name was resolved. -/
  resolves : Nat := 0
  /-- How often a text was asked for. -/
  reads : Nat := 0
  log : Array Event := #[]
deriving DecidableEq, Repr

namespace Bundler

/-- Notes an event. -/
def note (b : Bundler) (e : Event) : Bundler :=
  { b with log := b.log.push e }

/-- Counts a name that is resolved. -/
def countResolve (b : Bundler) : Bundler :=
  { b with resolves := b.resolves + 1 }

/-- Counts a text that is asked for. -/
def countRead (b : Bundler) : Bundler :=
  { b with reads := b.reads + 1 }

/-- Keeps a finished unit. -/
def remember (b : Bundler) (unit : String) (lines : List Line) : Bundler :=
  { b with finished := (unit, lines) :: b.finished }

/-- The outcome of a step, with the bundler after it. -/
abbrev Outcome (α : Type) := Except ImportFault α × Bundler

/-- Replaces the import lines of a unit by what `visit` gives for the units they name. -/
def inlineImports (lib : Library) (visit : String → Line → Bundler → Outcome (List Line)) :
    List Line → Array Line → Bundler → Outcome (List Line)
  | [], output, b => (.ok output.toList, b)
  | line :: rest, output, b =>
    match line.importRequest? with
    | none => inlineImports lib visit rest (output.push line) b
    | some requested =>
      match lib.resolve? requested with
      | none => (.error (.unitNotFound requested (some line)), b.countResolve)
      | some unit =>
        match visit unit line b.countResolve with
        | (.error fault, b) => (.error fault, b)
        | (.ok lines, b) => inlineImports lib visit rest (output ++ lines) b

/-- The number of units that may still come below a path. -/
def room (lib : Library) (path : ImportPath) : Nat :=
  lib.units.countP (· ∉ path.units)

theorem room_push_lt {lib : Library} {path : ImportPath} {unit : String} (hu : unit ∈ lib.units)
    (hp : unit ∉ path.units) : room lib (path.push unit) < room lib path := by
  unfold room ImportPath.push
  obtain ⟨before, after, hsplit⟩ := List.append_of_mem hu
  have hle : ∀ us : List String, us.countP (fun u => decide (u ∉ path.units ++ [unit])) ≤
      us.countP (fun u => decide (u ∉ path.units)) := by
    intro us
    refine List.countP_mono_left fun u _ h => ?_
    simp only [List.mem_append, not_or, decide_eq_true_eq] at h ⊢
    exact h.1
  have hb := hle before
  have ha := hle after
  simp only [hsplit, List.countP_append, List.countP_cons, List.mem_append, List.mem_singleton,
    or_true, not_true_eq_false, decide_false, hp, not_false_eq_true, decide_true]
  simp only [List.mem_append, List.mem_singleton] at hb ha
  simp only [Bool.false_eq_true, if_false, if_true]
  omega

/-- Bundles a unit below a path. A unit on the path is a cycle, a finished unit is reused, and any
other is read. -/
def bundleUnit (lib : Library) (path : ImportPath) (unit : String) (site : Option Line)
    (b : Bundler) : Outcome (List Line) :=
  match _hp : path.cycleTo? unit with
  | some cycle => (.error (.importCycle cycle site), b)
  | none =>
    match b.finished.lookup unit with
    | some lines => (.ok lines, b.note (.reusingUnit unit))
    | none =>
      match _hs : lib.source? unit with
      | none => (.error (.unitNotFound unit site), b.countRead)
      | some text =>
        let visit := fun imported line b => bundleUnit lib (path.push unit) imported (some line) b
        match inlineImports lib visit (Line.ofUnit unit text) #[]
            (b.countRead.note (.bundlingUnit unit path.units)) with
        | (.error fault, b) => (.error fault, b)
        | (.ok lines, b) => (.ok lines, b.remember unit lines)
termination_by room lib path
decreasing_by exact room_push_lt (lib.mem_units _hs) (ImportPath.cycleTo?_eq_none_iff.1 _hp)

/-- Bundles an entry unit. -/
def bundle (lib : Library) (b : Bundler) (entry : String) : Outcome Bundle :=
  match lib.resolve? entry with
  | none => (.error (.unitNotFound entry none), b.countResolve)
  | some unit =>
    match bundleUnit lib {} unit none b.countResolve with
    | (.error fault, b) => (.error fault, b)
    | (.ok lines, b) => (.ok ⟨unit, lines⟩, b.note (.bundledEntry unit lines.length))

end Bundler

/-- The bundle of an entry unit, made by a bundler of its own. -/
def bundle (lib : Library) (entry : String) : Except ImportFault Bundle :=
  (Bundler.bundle lib {} entry).1

end ZScript
