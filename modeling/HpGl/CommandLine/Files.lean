import HpGl.Sink

/-!
# Files

The files of a system and the devices beside them, as the program finds them and leaves them. A
path leads from name to name, each looked up in the directory that was reached before it, from the
root or from the working directory: empty names and `.` stay there, `..` goes up. What the system is
like, with its working directory, its devices and what it refuses to open, is given with the files.

* `System`: the surroundings of the files; `System.usual`.
* `Files.enter`: a step to a directory.
* `Files.locate`: where the last name of a path is to be looked up.
* `Files.read`: the text of a file.
* `Files.create`: an output, emptied if it was there.
* `Place`: where an output goes, and what bytes do there.
-/

namespace HpGl

/-- A device, by what becomes of the bytes that it is given. -/
inductive Device where
  /-- Standard output prints the bytes. -/
  | stdout
  /-- The bytes are lost. -/
  | void
  /-- There is no room for the bytes. -/
  | full
  deriving DecidableEq, Repr

/-- The surroundings of the files. Every path is given by the names on the way from the root. -/
structure System where
  /-- The working directory. -/
  working : List String
  /-- Directories that are there even with nothing in them. -/
  directories : List (List String)
  devices : List (List String × Device)
  /-- The files and devices that cannot be opened, and the directories in which no file can be
  made. -/
  refused : List (List String × SystemFault)

/-- A system with the usual directories and devices, at work below the temporary ones. -/
def System.usual : System where
  working := ["tmp", "working directory"]
  directories := [
    ["bin"], ["boot"], ["dev"], ["etc"], ["home"], ["lib"], ["media"], ["mnt"], ["opt"], ["proc"],
    ["root"], ["run"], ["sbin"], ["srv"], ["sys"], ["tmp"], ["usr"], ["var"], ["dev", "fd"],
    ["dev", "mqueue"], ["dev", "pts"], ["dev", "shm"]]
  devices := [
    (["dev", "null"], .void), (["dev", "zero"], .void), (["dev", "random"], .void),
    (["dev", "urandom"], .void), (["dev", "full"], .full), (["dev", "tty"], .void),
    (["dev", "stdin"], .void), (["dev", "stdout"], .stdout), (["dev", "stderr"], .void),
    (["dev", "fd", "0"], .void), (["dev", "fd", "1"], .stdout), (["dev", "fd", "2"], .void)]
  refused := [(["proc"], .notFound), (["dev", "fd"], .notFound), (["dev", "tty"], .noDevice)]

/-- What a directory has under a name. -/
inductive Entry where
  | directory
  | file
  | device (d : Device)
  | absent
  deriving DecidableEq, Repr

/-- Where an output goes. -/
inductive Place where
  /-- A file, by the names on the way to it from the root. -/
  | file (path : List String)
  | device (d : Device)
  deriving DecidableEq, Repr

/-- The regular files of a system, by the names on the way to them from the root. -/
structure Files where
  system : System
  contents : List (List String × List UInt8)

namespace Files

/-- The names in a path; slashes that follow each other count as one. -/
def names (path : String) : List String :=
  (path.toList.splitOn '/').filterMap fun cs => if cs = [] then none else some (String.ofList cs)

/-- The path starts from the root. -/
def isAbsolute (path : String) : Bool := path.toList.head? == some '/'

/-- The path can only be that of a directory. -/
def endsInSlash (path : String) : Bool := path.toList.getLast? == some '/'

/-- Bytes that a name may have. -/
def maxName : Nat := 255

/-- Bytes that a path may have. -/
def maxPath : Nat := 4095

/-- The files with these names and texts, in the working directory of the usual system. -/
def ofTexts (texts : List (String × String)) : Files where
  system := .usual
  contents := texts.map fun (name, text) =>
    (System.usual.working ++ (names name).filter (· != "."), text.toUTF8.toList)

variable (files : Files)

/-- A regular file. -/
def isFile (path : List String) : Bool := (files.contents.lookup path).isSome

/-- A directory: one of the system, the working directory, or whatever something is in. -/
def isDirectory (path : List String) : Bool :=
  (files.system.working :: files.system.directories).any path.isPrefixOf ||
    (files.system.devices.map Prod.fst ++ files.contents.map Prod.fst).any fun p =>
      path.isPrefixOf p && path != p

/-- What there is at a path. -/
def entry (path : List String) : Entry :=
  if files.isDirectory path then .directory
  else if files.isFile path then .file
  else ((files.system.devices.lookup path).map .device).getD .absent

/-- What a directory has under a name, if it can have the name at all. -/
def lookUp (dir : List String) (name : String) : Except SystemFault Entry :=
  if maxName < name.utf8ByteSize then .error .nameTooLong else .ok (files.entry (dir ++ [name]))

/-- The directory to which a name leads. The root is its own parent. -/
def enter (dir : List String) (name : String) : Except SystemFault (List String) :=
  if name = "." then .ok dir
  else if name = ".." then .ok dir.dropLast
  else
    match files.lookUp dir name with
    | .error f => .error f
    | .ok .directory => .ok (dir ++ [name])
    | .ok .absent => .error .notFound
    | .ok _ => .error .notDirectory

/-- The directory in which the last name of a path is looked up, and that name. The root, `.` and
`..` are directories without being looked up. -/
def locate (path : String) : Except SystemFault (List String × Option String) :=
  if maxPath < path.utf8ByteSize then .error .nameTooLong
  else do
    let start := if isAbsolute path then [] else files.system.working
    let dir ← (names path).dropLast.foldlM files.enter start
    return (dir, (names path).getLast?.filter fun n => n != "." && n != "..")

/-- The text of bytes. -/
def textOf (bytes : List UInt8) : Except SystemFault String :=
  match String.fromUTF8? ⟨bytes.toArray⟩ with
  | some s => .ok s
  | none => .error .notText

/-- A file or a device may be opened, or a file may be made in a directory. -/
def allow (path : List String) : Except SystemFault Unit :=
  match files.system.refused.lookup path with
  | some f => .error f
  | none => .ok ()

/-- The text of a file. Nothing is read from a device, not even from one that has no end. -/
def read (path : String) : Except SystemFault String := do
  match ← files.locate path with
  | (_, none) => throw .isDirectory
  | (dir, some name) =>
    match ← files.lookUp dir name with
    | .directory => throw .isDirectory
    | .absent => throw .notFound
    | .file =>
      if endsInSlash path then throw .notDirectory
      files.allow (dir ++ [name])
      textOf ((files.contents.lookup (dir ++ [name])).getD [])
    | .device _ =>
      if endsInSlash path then throw .notDirectory
      files.allow (dir ++ [name])
      return ""

/-- Gives a file its content. -/
def store (path : List String) (bytes : List UInt8) : Files where
  system := files.system
  contents :=
    if files.isFile path then
      files.contents.map fun (p, old) => if p = path then (p, bytes) else (p, old)
    else files.contents ++ [(path, bytes)]

/-- The output that is a file, which is emptied or made. -/
def emptied (path : List String) : Place × Files := (.file path, files.store path [])

/-- An output: where it goes, and the files once it is open. Nothing is made of a path that ends in
a slash. -/
def create (path : String) : Except SystemFault (Place × Files) := do
  match ← files.locate path with
  | (_, none) => throw .isDirectory
  | (dir, some name) =>
    if endsInSlash path then throw .isDirectory
    match ← files.lookUp dir name with
    | .directory => throw .isDirectory
    | .device d =>
      files.allow (dir ++ [name])
      return (.device d, files)
    | .file =>
      files.allow (dir ++ [name])
      return files.emptied (dir ++ [name])
    | .absent =>
      files.allow dir
      files.allow (dir ++ [name])
      return files.emptied (dir ++ [name])

end Files

namespace Place

/-- How a place takes bytes while nothing is wrong with it. -/
def script : Place → Script
  | device .full => .failingAfter 0 (.system .noSpace)
  | _ => .accepting

/-- The files once bytes have gone to a place. -/
def keep (place : Place) (opened : Files) (bytes : List UInt8) : Files :=
  match place with
  | file p => opened.store p bytes
  | device _ => opened

/-- What is on standard output once bytes have gone to a place. -/
def shown (place : Place) (bytes : List UInt8) : List UInt8 :=
  match place with
  | device .stdout => bytes
  | _ => []

end Place

end HpGl
