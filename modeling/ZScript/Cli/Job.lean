import ZScript.Cli.Disk
import ZScript.Event

/-!
# Jobs

A job is a command at work. It is finished, or it waits for an answer of the file system: the
names of the files in a directory, the bytes of a file, or whether bytes could be written.
`Job.runOn` answers from a disk.
-/

namespace ZScript

/-- What a command leaves behind, files apart. -/
structure Aftermath where
  exit : Nat := 0
  stdout : String := ""
  stderr : String := ""
  log : Array Event := #[]
  /-- Whether the command now waits for a change of its project. -/
  waits : Bool := false
deriving DecidableEq, Repr

/-- A command at work. -/
inductive Job
  | finished (aftermath : Aftermath)
  | listFiles (dir : String) (resume : Except DiskError (List String) → Job)
  | readFile (path : String) (resume : Except DiskError ByteArray → Job)
  | writeFile (path : String) (bytes : ByteArray) (resume : Except DiskError Unit → Job)

namespace Job

/-- The job with its aftermath changed. -/
def map (f : Aftermath → Aftermath) : Job → Job
  | finished a => finished (f a)
  | listFiles dir resume => listFiles dir fun answer => (resume answer).map f
  | readFile path resume => readFile path fun answer => (resume answer).map f
  | writeFile path bytes resume => writeFile path bytes fun answer => (resume answer).map f

/-- Runs a job on a disk, and gives the disk after it. What was put out through a device comes
before what the job puts out in the end. -/
def runOn (d : Disk) : Job → Aftermath × Disk
  | finished a => ({ a with stdout := d.stdout ++ a.stdout, stderr := d.stderr ++ a.stderr }, d)
  | listFiles dir resume => (resume (d.list dir)).runOn d
  | readFile path resume => (resume (d.read path)).runOn d
  | writeFile path bytes resume =>
    match d.write path bytes with
    | .error e => (resume (.error e)).runOn d
    | .ok d => (resume (.ok ())).runOn d

end Job

end ZScript
