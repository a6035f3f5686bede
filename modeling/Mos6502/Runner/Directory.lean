import Mos6502.Runner.Session
import Mos6502.Text.Blank

/-!
# A working directory

Surroundings that consist of the files of one directory. There are no directories in it, and what
lies above it is out of sight, but for the device that discards all that is written and the one that
is always full. A path is followed name by name, so the first name that leads nowhere decides what
is wrong with it.
-/

namespace Mos6502.Runner

inductive PathError where
  | missing | notDirectory | isDirectory | nameTooLong
deriving DecidableEq

def PathError.message : PathError → String
  | missing => "No such file or directory (os error 2)"
  | notDirectory => "Not a directory (os error 20)"
  | isDirectory => "Is a directory (os error 21)"
  | nameTooLong => "File name too long (os error 36)"

inductive Place where
  /-- The working directory. -/
  | here
  /-- The directory above all others, the one in it that holds the devices, and any other. -/
  | root | devices | elsewhere
  /-- A file of the working directory. -/
  | file (name : String)
  /-- A device, which takes either all bytes or none. -/
  | device (full : Bool)
deriving DecidableEq

def Place.isDirectory : Place → Bool
  | here | root | devices | elsewhere => true
  | file _ | device _ => false

structure Path where
  start : Place
  names : List String
  /-- The path ends with a slash. -/
  closed : Bool

/-- The length of the longest path, in bytes. -/
def Path.limit : Nat := 4095

/-- The length of the longest name on a path, in bytes. -/
def Path.nameLimit : Nat := 255

/-- Cut a path at its slashes; several in a row count as one. An empty path leads nowhere. -/
def Path.ofString (path : String) : Except PathError Path :=
  if path.isEmpty then .error .missing
  else if path.utf8ByteSize > limit then .error .nameTooLong
  else
    let parts := Text.splitOn '/' path.toList
    .ok {
      start := if parts.head? = some [] then .root else .here
      names := (parts.filter (!·.isEmpty)).map String.ofList
      closed := parts.getLast? = some [] }

/-- The files of a directory, the newest first. -/
structure Directory where
  files : List (String × Array UInt8) := []

namespace Directory

/-- Follow one name from a place. -/
def enter (d : Directory) (place : Place) (name : String) : Except PathError Place :=
  if !place.isDirectory then .error .notDirectory
  else if name = "." then .ok place
  else if name = ".." then .ok (if place = .root || place = .devices then .root else .elsewhere)
  else if name.utf8ByteSize > Path.nameLimit then .error .nameTooLong
  else
    match place, name with
    | .here, _ => if (d.files.lookup name).isSome then .ok (.file name) else .error .missing
    | .root, "dev" => .ok .devices
    | .devices, "null" => .ok (.device false)
    | .devices, "full" => .ok (.device true)
    | _, _ => .error .missing

/-- The content of the file at a path. Nothing can be read from a device. -/
def read (d : Directory) (path : String) : Except PathError (Array UInt8) := do
  let path ← Path.ofString path
  let place ← path.names.foldlM d.enter path.start
  let place ← if path.closed then d.enter place "." else pure place
  match place with
  | .file name => .ok ((d.files.lookup name).getD #[])
  | .device _ => .ok #[]
  | _ => .error .isDirectory

/-- The place that takes what is written to a path. A new file outside of the directory is out of
sight, so it is as good as a device that takes all bytes. -/
def target (d : Directory) (path : String) : Except PathError Place := do
  let path ← Path.ofString path
  let parent ← path.names.dropLast.foldlM d.enter path.start
  match path.names.getLast? with
  | none => .error .isDirectory
  | some name =>
    if parent.isDirectory && path.closed then .error .isDirectory
    else
      match d.enter parent name with
      | .ok place => if place.isDirectory then .error .isDirectory else .ok place
      | .error .missing => .ok (if parent = .here then .file name else .device false)
      | .error e => .error e

def create (d : Directory) (path : String) (content : List UInt8) : Except FileError Directory :=
  match d.target path with
  | .ok (.file name) => .ok { d with files := (name, content.toArray) :: d.files }
  | .ok (.device true) =>
    if content.isEmpty then .ok d
    else .error (.notWritten "No space left on device (os error 28)")
  | .ok _ => .ok d
  | .error e => .error (.notCreated e.message)

/-- The directory after files have been created; those that cannot be are left out. -/
def createAll (d : Directory) (files : Creations) : Directory :=
  files.foldl (fun d file => (d.create file.1 file.2).toOption.getD d) d

def surroundings (d : Directory) : Surroundings where
  content created path := ((d.createAll created).read path).mapError PathError.message
  creatable created path content := ((d.createAll created).create path content).map fun _ => ()

end Directory

end Mos6502.Runner
