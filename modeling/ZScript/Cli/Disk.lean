/-!
# A file system

A disk is the file system that a command works on, with its working directory. Paths are followed
name by name, so that each of the ways in which that can fail has its own cause. A few devices are
there under their usual names; they take bytes as a file does, and keep none.
-/

namespace ZScript

/-- Why a file or a directory could not be used. -/
inductive DiskError
  | notFound
  | notADirectory
  | isADirectory
  | noSpace
  | nameTooLong
  | other (message : String)
deriving DecidableEq, Repr

/-- The wording of the operating system. -/
def DiskError.message : DiskError → String
  | notFound => "No such file or directory (os error 2)"
  | notADirectory => "Not a directory (os error 20)"
  | isADirectory => "Is a directory (os error 21)"
  | noSpace => "No space left on device (os error 28)"
  | nameTooLong => "File name too long (os error 36)"
  | other message => message

/-- The names that lead from the root of a file system to a file or a directory. -/
abbrev Place := List String

/-- A device, by what becomes of the bytes written to it. -/
inductive Device
  /-- Bytes are dropped. -/
  | null
  /-- There is no room for any byte. -/
  | full
  /-- Bytes are put out. -/
  | stdout
  /-- Bytes are put out as errors are. -/
  | stderr
deriving DecidableEq, Repr

/-- A file system. A directory is there if it is listed or something below it is. -/
structure Disk where
  files : List (Place × ByteArray) := []
  directories : List Place := []
  devices : List (Place × Device) := []
  /-- Where a path starts that does not start at the root. -/
  workingDirectory : Place := []
  /-- What was put out through a device. -/
  stdout : String := ""
  /-- What was put out as errors are through a device. -/
  stderr : String := ""

namespace Disk

/-- The directories that every system has. -/
def usualDirectories : List Place :=
  ["bin", "boot", "dev", "etc", "home", "lib", "media", "mnt", "opt", "proc", "root", "run", "sbin",
    "srv", "sys", "tmp", "usr", "var"].map ([·])

/-- The devices that every system has. -/
def usualDevices : List (Place × Device) :=
  [(["dev", "null"], .null), (["dev", "zero"], .null), (["dev", "full"], .full),
    (["dev", "stdout"], .stdout), (["dev", "stderr"], .stderr)]

/-- A usual system with a working directory. The places of the files and the directories in it
start there. -/
def ofWorkingDirectory (files : List (Place × ByteArray)) (directories : List Place) : Disk :=
  let workingDirectory := ["tmp", "work"]
  { files := files.map fun f => (workingDirectory ++ f.1, f.2)
    directories := usualDirectories ++ directories.map (workingDirectory ++ ·)
    devices := usualDevices
    workingDirectory }

/-- The bytes of the file at a place. -/
def file? (d : Disk) (p : Place) : Option ByteArray :=
  d.files.lookup p

/-- The device at a place. -/
def device? (d : Disk) (p : Place) : Option Device :=
  d.devices.lookup p

/-- Whether there is a directory at a place. -/
def isDirectory (d : Disk) (p : Place) : Bool :=
  (d.workingDirectory :: d.directories).any p.isPrefixOf ||
    (d.files.map (·.1) ++ d.devices.map (·.1)).any fun q => p.isPrefixOf q && p.length < q.length

/-- Why there is no directory at a place. -/
def noDirectory (d : Disk) (p : Place) : DiskError :=
  if (d.file? p).isSome || (d.device? p).isSome then .notADirectory else .notFound

/-- Follows names from a place. Each name but the last must be that of a directory, and none may
have more than 255 bytes. The root is above itself. -/
def follow (d : Disk) : Place → List String → Except DiskError Place
  | p, [] => .ok p
  | p, name :: names =>
    if !d.isDirectory p then .error (d.noDirectory p)
    else if 255 < name.utf8ByteSize then .error .nameTooLong
    else follow d (if name == "." then p else if name == ".." then p.dropLast else p ++ [name]) names

/-- The names in a path. -/
def names (path : String) : List String :=
  ((path.toList.splitOn '/').map String.ofList).filter (!·.isEmpty)

/-- The least number of bytes that is too many for a path. -/
def pathLimit : Nat :=
  4096

/-- Where a path starts, if it is not too long to be used at all. -/
def start (d : Disk) (path : String) : Except DiskError Place :=
  if pathLimit ≤ path.utf8ByteSize then .error .nameTooLong
  else .ok (if path.startsWith "/" then [] else d.workingDirectory)

/-- The place that a path leads to, whether or not something is there. -/
def locate (d : Disk) (path : String) : Except DiskError Place := do
  d.follow (← d.start path) (names path)

/-- The path of a file in a directory. -/
def joinPath (dir name : String) : String :=
  if dir.endsWith "/" then dir ++ name else dir ++ "/" ++ name

/-- The names of the files in a directory. A file is passed over if its path would be too long. -/
def list (d : Disk) (path : String) : Except DiskError (List String) := do
  let dir ← d.locate path
  if !d.isDirectory dir then throw (d.noDirectory dir)
  let names := d.files.filterMap fun f => if f.1.dropLast == dir then f.1.getLast? else none
  return names.filter fun name => (joinPath path name).utf8ByteSize < pathLimit

/-- The bytes of a file. A device has none. -/
def read (d : Disk) (path : String) : Except DiskError ByteArray := do
  let p ← d.locate path
  match d.file? p, d.device? p with
  | some bytes, _ => return bytes
  | none, some _ => return .empty
  | none, none => throw (if d.isDirectory p then .isADirectory else .notFound)

/-- The disk after bytes were written to a device. -/
def writeDevice (d : Disk) (bytes : ByteArray) : Device → Except DiskError Disk
  | .null => return d
  | .full => if bytes.isEmpty then return d else throw .noSpace
  | .stdout => return { d with stdout := d.stdout ++ (String.fromUTF8? bytes).getD "" }
  | .stderr => return { d with stderr := d.stderr ++ (String.fromUTF8? bytes).getD "" }

/-- The disk after bytes were written to a file, which is made if it is not there. The directory
for it must be there, and a path that ends in a slash is that of a directory. -/
def write (d : Disk) (path : String) (bytes : ByteArray) : Except DiskError Disk := do
  let parent ← d.follow (← d.start path) (names path).dropLast
  if !d.isDirectory parent then throw (d.noDirectory parent)
  if path.endsWith "/" then throw .isADirectory
  let p ← d.follow parent (names path).getLast?.toList
  if d.isDirectory p then throw .isADirectory
  match d.device? p with
  | some device => d.writeDevice bytes device
  | none => return { d with files := (p, bytes) :: d.files.filter (·.1 != p) }

end Disk

end ZScript
