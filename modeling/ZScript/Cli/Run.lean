import ZScript.Cli.Options
import ZScript.Cli.Project
import ZScript.Cli.Terminal

/-!
# Running a command

`Cli.job` is the program without its surroundings: from the arguments and the settings of the
terminal it makes the job to be done, which gives the exit status, the two output streams and the
log. A command that watches a project is done when it waits for a change, and is taken up again
with `Cli.rebuild`.
-/

namespace ZScript

/-- How output is to look. -/
structure Settings where
  paint : Paint := .plain
  /-- The rank of the least grave events to be logged, if it is set from outside. -/
  logRank : Option Nat := none
deriving DecidableEq, Repr

namespace Cli

/-- The name and version of the program. -/
def versionText : String :=
  "zlang 0.4.0\n"

/-- How to use the program. -/
def helpText : String :=
  "Z language compiler\n\nUsage: zlang [OPTIONS] <COMMAND>\n\nCommands:\n" ++
    "  build  Compile a project to JavaScript\n" ++
    "  watch  Compile a project, then recompile whenever one of its files changes\n" ++
    "  dev    Development tools for debugging and testing\n" ++
    "  help   Print this message or the help of the given subcommand(s)\n\nOptions:\n" ++
    "  -v, --verbose  Log pipeline events at debug level (`RUST_LOG` takes precedence)\n" ++
    "  -h, --help     Print help\n  -V, --version  Print version\n"

/-- A report as a command shows it. -/
def shown (paint : Paint) (project : ProjectOptions) (r : Report) : String :=
  paint.output (if project.records then r.renderRecord else r.render .ansi)

/-- Loads a project. Goes on with its units and what was noted, or with a report. -/
def load (project : ProjectOptions) (resume : Except Report FileSet → Array Event → Job) : Job :=
  Project.load project.dir fun
    | .error fault => resume (.error fault.report) #[]
    | .ok files => resume (.ok files) #[.loadedProject project.dir files.size]

/-- How a build ended. -/
inductive BuildResult
  | failed (report : Report)
  | unwritable (error : DiskError)
  | printed (code : String)
  | written

/-- Builds a project once, and goes on with how that ended and what was noted. -/
def build (project : ProjectOptions) (config : Config) (output : Option String)
    (resume : BuildResult → Array Event → Job) : Job :=
  load project fun
    | .error report, log => resume (.failed report) log
    | .ok files, log =>
      match Session.run (.ofFiles files) { config, log } project.entry with
      | (.error fault, s) => resume (.failed fault.report) s.log
      | (.ok c, s) =>
        match output with
        | none => resume (.printed c.code) s.log
        | some path =>
          .writeFile path c.code.toUTF8 fun
            | .error e => resume (.unwritable e) s.log
            | .ok () => resume .written (s.log.push (.wroteOutput c.bundle.entry path))

/-- The command `build`. -/
def buildJob (paint : Paint) (project : ProjectOptions) (config : Config)
    (output : Option String) : Job :=
  build project config output fun
    | .failed report, log => .finished { exit := 1, stderr := shown paint project report, log }
    | .unwritable e, log => .finished { exit := 1, log := log.push (.unwritableOutput e.message) }
    | .printed code, log => .finished { stdout := paint.output code, log }
    | .written, log => .finished { log }

/-- A build in a project that is watched. Only output that cannot be written ends the watching. -/
def rebuild (paint : Paint) (project : ProjectOptions) (config : Config)
    (output : Option String) : Job :=
  build project config output fun
    | .failed report, log =>
      let waiting := Paint.ansi.apply "33" "build failed" ++ ", waiting for changes\n"
      .finished { stderr := shown paint project report ++ paint.output waiting, log, waits := true }
    | .unwritable e, log => .finished { exit := 1, log := log.push (.stoppedWatching e.message) }
    | .printed code, log => .finished { stdout := paint.output code, log, waits := true }
    | .written, log => .finished { log, waits := true }

/-- The command `watch`, up to where it waits for a change. -/
def watchJob (paint : Paint) (project : ProjectOptions) (config : Config)
    (output : Option String) : Job :=
  (rebuild paint project config output).map fun a =>
    { a with log := #[.watchingDirectory project.dir] ++ a.log }

/-- A macro as it is listed, with colours. -/
def listing (m : Macro) : List String :=
  (Paint.ansi.apply "32;1" m.render ++ " " ++ Paint.ansi.apply "2" "@" ++ " " ++
    Paint.ansi.apply "34;1" m.origin.render) :: m.body.map ("    " ++ ·)

/-- The list of the macros of a project. Each line is put out by itself. -/
def macroList (paint : Paint) (table : MacroTable) : String :=
  if table.entries.isEmpty then "no macros defined\n"
  else String.join ((table.entries.flatMap listing).map fun l => paint.output (l ++ "\n"))

/-- Prints what `view` makes of a bundled project: a text, or a report. -/
def inspectJob (paint : Paint) (project : ProjectOptions) (config : Config)
    (view : Bundle → Session → Except Report String × Session) : Job :=
  let failed := fun (report : Report) (log : Array Event) =>
    Job.finished { exit := 1, stderr := shown paint project report, log }
  load project fun
    | .error report, log => failed report log
    | .ok files, log =>
      match Session.bundle (.ofFiles files) { config, log } project.entry with
      | (.error fault, s) => failed (Fault.imports fault).report s.log
      | (.ok bundle, s) =>
        match view bundle s with
        | (.error report, s) => failed report s.log
        | (.ok text, s) => .finished { stdout := text, log := s.log }

/-- The job that a command is. -/
def commandJob (paint : Paint) : Command → Job
  | .build project config output => buildJob paint project config output
  | .watch project config output => watchJob paint project config output
  | .printBundle project =>
    inspectJob paint project {} fun bundle s => (.ok (paint.output bundle.text), s)
  | .printMacros project =>
    inspectJob paint project {} fun bundle s =>
      match s.expand bundle.lines with
      | (.ok _, s) => (.ok (macroList paint s.macros), s)
      | (.error overflow, s) =>
        (.ok (macroList paint s.macros), s.note (.ignoredError overflow.message))
  | .printExpanded project maxPasses =>
    inspectJob paint project { limits := { passes := maxPasses } } fun bundle s =>
      match s.expand bundle.lines with
      | (.ok lines, s) => (.ok (paint.output (Line.join lines)), s)
      | (.error overflow, s) => (.error (Fault.expansion overflow).report, s)

/-- The rank that a setting of the log level means. -/
def rankOfSetting? (setting : String) : Option Nat :=
  match setting with
  | "off" => some 0
  | "error" => some Level.error.rank
  | "warn" => some Level.warn.rank
  | "info" => some Level.info.rank
  | "debug" | "trace" => some Level.debug.rank
  | _ => none

/-- Leaves the events in the log that are grave enough. -/
def filterLog (settings : Settings) (verbose : Bool) (a : Aftermath) : Aftermath :=
  let rank := settings.logRank.getD (if verbose then Level.debug.rank else Level.warn.rank)
  { a with log := a.log.filter fun e => e.level.rank ≤ rank }

/-- The job that a usable command line asks for. -/
def requestJob (settings : Settings) : Request → Job
  | .help => .finished { stdout := helpText }
  | .version => .finished { stdout := versionText }
  | .run command verbose => (commandJob settings.paint command).map (filterLog settings verbose)

/-- The job that the arguments ask for. Arguments that cannot be used end it with status 2. -/
def job (settings : Settings) (arguments : List String) : Job :=
  match Request.ofArguments? arguments with
  | none => .finished { exit := 2, stderr := helpText }
  | some request => requestJob settings request

end Cli

end ZScript
