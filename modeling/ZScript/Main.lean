import ZScript.Cli.Run

/-!
# The program

Does the job that the arguments ask for on the real file system. A project that is watched is
looked at again and again, and rebuilt whenever its units have changed.
-/

namespace ZScript.Program

/-- An error of the operating system by its number and wording. -/
def numbered (code : UInt32) (message : String) : DiskError :=
  if code == 2 then .notFound
  else if code == 20 then .notADirectory
  else if code == 21 then .isADirectory
  else if code == 28 then .noSpace
  else if code == 36 then .nameTooLong
  else .other (message ++ " (os error " ++ toString code ++ ")")

/-- The cause of a failed file operation. -/
def diskError : IO.Error → DiskError
  | .noFileOrDirectory _ _ _ => .notFound
  | .inappropriateType _ code message | .permissionDenied _ code message
  | .resourceExhausted _ code message | .invalidArgument _ code message
  | .noSuchThing _ code message | .alreadyExists _ code message => numbered code message
  | .otherError code message | .resourceBusy code message => numbered code message
  | error => .other (toString error)

/-- The outcome of a file operation as the answer to a job. -/
def answer {α : Type} (operation : IO α) : IO (Except DiskError α) := do
  try return .ok (← operation)
  catch error => return .error (diskError error)

/-- The names of the files in a directory. -/
def listFiles (dir : String) : IO (List String) := do
  let entries ← (← IO.FS.realPath dir).readDir
  let files ← entries.filterM fun entry => return (← entry.path.metadata).type == .file
  return (files.map (·.fileName)).toList

/-- Does a job on the real file system. -/
def perform : Job → IO Aftermath
  | .finished aftermath => return aftermath
  | .listFiles dir resume => do perform (resume (← answer (listFiles dir)))
  | .readFile path resume => do perform (resume (← answer (IO.FS.readBinFile path)))
  | .writeFile path bytes resume => do
    perform (resume (← answer (IO.FS.writeBinFile path bytes)))

/-- Puts out what a command leaves behind, the log first. -/
def putOut (aftermath : Aftermath) : IO Unit := do
  for event in aftermath.log do
    IO.eprintln event.render
  IO.eprint aftermath.stderr
  IO.print aftermath.stdout

/-- The units of a project as they are now, to see whether they change. -/
def snapshot (dir : String) : IO (List (String × Option ByteArray)) := do
  let names ← answer (listFiles dir)
  let units := Project.unitNames (names.toOption.getD [])
  units.mapM fun name => do
    let bytes ← answer (IO.FS.readBinFile (Disk.joinPath dir name))
    return (name, bytes.toOption)

/-- Rebuilds a watched project whenever its units change, until its output cannot be written. -/
partial def watch (dir : String) (rebuild : Job) (seen : List (String × Option ByteArray)) :
    IO Aftermath := do
  IO.sleep 300
  let now ← snapshot dir
  if now == seen then watch dir rebuild seen
  else
    let aftermath ← perform rebuild
    putOut aftermath
    if aftermath.waits then watch dir rebuild now else return aftermath

/-- How output is to look, by the environment. -/
def settings : IO Settings := do
  let forced ← IO.getEnv "CLICOLOR_FORCE"
  let level ← IO.getEnv "RUST_LOG"
  let paint := if forced.isSome && forced != some "0" then .ansi else .plain
  return { paint, logRank := level.bind Cli.rankOfSetting? }

end ZScript.Program

open ZScript Program in
/-- Runs the program and gives its exit status. -/
def main (arguments : List String) : IO UInt32 := do
  let settings ← settings
  let aftermath ← perform (Cli.job settings arguments)
  putOut aftermath
  if !aftermath.waits then return aftermath.exit.toUInt32
  match Request.ofArguments? arguments with
  | some (.run (.watch project config output) verbose) =>
    let rebuild := (Cli.rebuild settings.paint project config output).map
      (Cli.filterLog settings verbose)
    let last ← watch project.dir rebuild (← snapshot project.dir)
    return last.exit.toUInt32
  | _ => return aftermath.exit.toUInt32
