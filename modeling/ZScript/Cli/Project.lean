import ZScript.Cli.Job
import ZScript.Library
import ZScript.Report

/-!
# Projects on disk

A project is a directory. Its units are the files in it, though not in directories below it, whose
names end in `.z` and have something before that; they are taken in the order of their names.
-/

namespace ZScript

/-- Why a project could not be loaded. -/
inductive ProjectFault
  | unreadableDirectory (dir reason : String)
  | unreadableFile (path reason : String)
  | noUnits (dir : String)
deriving DecidableEq, Repr

/-- The fault explained to a user. -/
def ProjectFault.report : ProjectFault → Report
  | unreadableDirectory dir reason =>
    { message := "couldn't read directory `" ++ dir ++ "`: " ++ reason }
  | unreadableFile path reason => { message := "couldn't read `" ++ path ++ "`: " ++ reason }
  | noUnits dir =>
    { message := "no `.z` files in `" ++ dir ++ "`"
      advice := [.help "pass the project directory as the first argument"] }

namespace Project

/-- Whether a file of this name is a unit. -/
def isUnitFile (name : String) : Bool :=
  name.endsWith ".z" && name != ".z"

/-- The units among the files of a directory, in the order of their names. -/
def unitNames (names : List String) : List String :=
  (names.filter isUnitFile).mergeSort fun a b => decide (a ≤ b)

/-- Reads the named units of a directory and goes on with them. -/
def readUnits (dir : String) (resume : Except ProjectFault FileSet → Job) :
    FileSet → List String → Job
  | files, [] => resume (.ok files)
  | files, name :: names =>
    let path := Disk.joinPath dir name
    .readFile path fun
      | .error e => resume (.error (.unreadableFile path e.message))
      | .ok bytes =>
        match String.fromUTF8? bytes with
        | none => resume (.error (.unreadableFile path "stream did not contain valid UTF-8"))
        | some text => readUnits dir resume (files.insert ⟨name, text⟩) names

/-- Loads the project in a directory and goes on with its units. -/
def load (dir : String) (resume : Except ProjectFault FileSet → Job) : Job :=
  .listFiles dir fun
    | .error e => resume (.error (.unreadableDirectory dir e.message))
    | .ok names =>
      match unitNames names with
      | [] => resume (.error (.noUnits dir))
      | name :: names => readUnits dir resume .empty (name :: names)

end Project

end ZScript
