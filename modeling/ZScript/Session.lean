import ZScript.Fault
import ZScript.Macro.Extraction

/-!
# Sessions

A session takes projects from their units to code: it bundles an entry unit, takes the macro
definitions out of the bundle, expands the calls and compiles the lines. It keeps the bundler and
the macros between these steps, also when a step fails. `Session.run` takes all the steps in a
session of its own.
-/

namespace ZScript

/-- How a project is compiled. -/
structure Config where
  policy : Policy := .strict
  wrap : Bool := false
  limits : Limits := {}
deriving DecidableEq, Repr

/-- What a compilation of a project gives. -/
structure Compilation where
  bundle : Bundle
  macros : MacroTable
  /-- The lines that were compiled. -/
  lines : List Line
  code : String
deriving DecidableEq, Repr

/-- What is kept between the steps of a compilation. -/
structure Session where
  config : Config := {}
  bundler : Bundler := {}
  macros : MacroTable := .empty
  log : Array Event := #[]
deriving DecidableEq, Repr

/-- The code of an entry unit as it is handed out: in a closure if that is asked for. -/
def Config.finish (config : Config) (entry code : String) : String :=
  if config.wrap then wrapInClosure entry code else code

/-- The code for the lines of an entry unit. -/
def compileEntry (config : Config) (entry : String) (lines : List Line) :
    Except Unrecognized String :=
  (compile config.policy lines).map (config.finish entry)

/-- The unit that a text without a project is said to stand in. -/
def flatUnit : String :=
  "<flat>"

/-- The code for a text that has no imports and no macros, never in a closure. -/
def compileFlat (config : Config) (text : String) : Except Unrecognized String :=
  compile config.policy (Line.ofUnit flatUnit text)

namespace Session

/-- Notes an event. -/
def note (s : Session) (e : Event) : Session :=
  { s with log := s.log.push e }

/-- Bundles an entry unit. -/
def bundle (lib : Library) (s : Session) (entry : String) : Except ImportFault Bundle × Session :=
  let (result, bundler) := s.bundler.bundle lib entry
  (result, { s with bundler := { bundler with log := #[] }, log := s.log ++ bundler.log })

/-- Files the macros that a bundle defines, and expands its calls. -/
def expand (s : Session) (lines : List Line) : Except Overflow (List Line) × Session :=
  let extraction := Extraction.ofLines lines
  let macros := s.macros.insertAll extraction.table.entries
  let expansion := Expansion.run macros s.config.limits extraction.residual.toList
  let log := s.log ++ extraction.log ++ #[.collectedMacros macros.size] ++ expansion.log
  (expansion.result, { s with macros := macros, log := log })

/-- Compiles the expanded lines of an entry unit. -/
def compile (s : Session) (entry : String) (lines : List Line) :
    Except Unrecognized String × Session :=
  let script := Script.ofLines lines
  ((script.compile s.config.policy).map (s.config.finish entry),
    { s with log := s.log ++ script.log s.config.policy })

/-- Takes a project from its entry unit to its code. -/
def run (lib : Library) (s : Session) (entry : String) : Except Fault Compilation × Session :=
  match s.bundle lib entry with
  | (.error fault, s) => (.error (.imports fault), s)
  | (.ok bundle, s) =>
    match s.expand bundle.lines with
    | (.error overflow, s) => (.error (.expansion overflow), s)
    | (.ok lines, s) =>
      match s.compile bundle.entry lines with
      | (.error line, s) => (.error (.unrecognized line), s)
      | (.ok code, s) =>
        let event := .compiledProject bundle.entry lines.length code.utf8ByteSize
        (.ok ⟨bundle, s.macros, lines, code⟩, s.note event)

end Session

/-- What compiling a project from an entry unit gives. -/
def compileProject (config : Config) (files : FileSet) (entry : String) :
    Except Fault Compilation :=
  (Session.run (.ofFiles files) { config } entry).1

end ZScript
