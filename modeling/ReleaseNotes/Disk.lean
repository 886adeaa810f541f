/-!
# Disks

What a run of the program finds on a disk, and what it leaves there.

A path is a way, taken step by step. It starts in the working directory, or at
the root if a slash stands in front of it, and the name between two slashes is
a step from a directory to something in it. An empty name and a single point
are steps that stay in the directory, and two points lead up. Every step needs
a directory to start from, so a path may lead nowhere although the place it
spells is there: what is behind the slash at the end of a file's name is one
step too many.

A place is where a path ends, told without detours: by the names on the way
down from the root, or from some directory above the working directory or that
directory itself. A disk lists what it holds by place. A directory need not be
listed if something in it is, and some directories are on every disk.

Reading yields bytes, which may or may not be text. Writing a file needs a
directory to put it into and no directory in its place, and a slash at the end
always asks for a directory. A write that fails changes nothing.

## Main definitions

* `PathFault`: Why a path leads nowhere.
* `FileState`: What is found at a path.
* `FileFault`: Why a file cannot be read or written.
* `FileState.text`: The text of a file.
* `Place`: Where a path ends.
* `Disk`: What there is, by place.
* `Disk.find`: What is found at a path of a disk.
* `Disk.write`: A disk after a file has been written.

## Theorems

* `Disk.listed_put_of_ne`: Putting something in a place changes no other one.
-/

namespace ReleaseNotes

/-- Why a path leads nowhere: something on the way is not there, or is no
    directory, or has a name that nothing can have. -/
inductive PathFault where
  | notFound
  | notDirectory
  | nameTooLong
deriving DecidableEq, Repr

namespace PathFault

/-- The text of a fault. -/
def message : PathFault → String
  | .notFound => "No such file or directory (os error 2)"
  | .notDirectory => "Not a directory (os error 20)"
  | .nameTooLong => "File name too long (os error 36)"

end PathFault

/-- What is found at a path: nothing, a directory, a file with its bytes, or a
    file that is always empty and takes in whatever is written to it. -/
inductive FileState where
  | absent (fault : PathFault)
  | directory
  | file (bytes : ByteArray)
  | sink

/-- Why a file cannot be read or written. -/
inductive FileFault where
  | path (fault : PathFault)
  | isDirectory
  | notText
deriving DecidableEq, Repr

namespace FileFault

/-- The text of a fault. -/
def message : FileFault → String
  | .path fault => fault.message
  | .isDirectory => "Is a directory (os error 21)"
  | .notText => "stream did not contain valid UTF-8"

end FileFault

namespace FileState

/-- There is something at the path. -/
def isPresent : FileState → Bool
  | .absent _ => false
  | _ => true

/-- The text of a file, or why there is none. -/
def text : FileState → Except FileFault String
  | .absent fault => .error (.path fault)
  | .directory => .error .isDirectory
  | .file bytes =>
    match String.fromUTF8? bytes with
    | some text => .ok text
    | none => .error .notText
  | .sink => .ok ""

end FileState

/-- Where the way down to a place starts: at the root, or in a directory so
    many steps above the working directory. -/
inductive Origin where
  | root
  | above (steps : Nat)
deriving DecidableEq, Repr

/-- Where a path ends: an origin and the names on the way down from it. -/
structure Place where
  origin : Origin
  names : List String
deriving DecidableEq, Repr

namespace Place

/-- A place in the working directory, or below it. -/
def below (names : List String) : Place := ⟨.above 0, names⟩

/-- The place in the working directory that a text spells, going down only. -/
def ofText (text : String) : Place :=
  below (((text.toList.splitOn '/').map String.ofList).filter fun name =>
    name != "" && name != ".")

/-- The directory that a place is in. The root is in itself. -/
def parent (place : Place) : Place :=
  match place.names, place.origin with
  | [], .root => place
  | [], .above steps => ⟨.above (steps + 1), []⟩
  | names, origin => ⟨origin, names.dropLast⟩

/-- The number of bytes that a name may have. -/
def maxName : Nat := 255

/-- The place that a step leads to from a directory. -/
def step (place : Place) (name : String) : Except PathFault Place :=
  if name == "" || name == "." then .ok place
  else if name == ".." then .ok place.parent
  else if maxName < name.utf8ByteSize then .error .nameTooLong
  else .ok { place with names := place.names ++ [name] }

/-- The directories that stand below the root on every machine. -/
def standardDirectories : List String :=
  ["bin", "dev", "etc", "home", "lib", "opt", "proc", "root", "run", "sbin", "srv", "sys",
   "tmp", "usr", "var"]

/-- What is at a place on every machine. -/
def standing? (place : Place) : Option FileState :=
  match place.origin, place.names with
  | _, [] => some .directory
  | .root, [name] => if standardDirectories.contains name then some .directory else none
  | .root, ["dev", "null"] => some .sink
  | _, _ => none

end Place

/-- The number of bytes that a path may have. -/
def maxPath : Nat := 4095

/-- The steps of a path. A text without characters is no path. -/
def pathSteps (text : String) : Except PathFault (List String) :=
  if text.isEmpty then .error .notFound
  else if maxPath < text.utf8ByteSize then .error .nameTooLong
  else .ok ((text.toList.splitOn '/').map String.ofList)

/-- The place where a path starts. -/
def pathStart (text : String) : Place :=
  if text.toList.head? == some '/' then ⟨.root, []⟩ else .below []

/-- What there is, by place. -/
structure Disk where
  entries : List (Place × FileState) := []

namespace Disk

/-- The entry that a disk lists for a place. -/
def listed (disk : Disk) (place : Place) : Option FileState :=
  (disk.entries.find? (·.1 == place)).map (·.2)

/-- There is an entry below a place. -/
def holdsBelow (disk : Disk) (place : Place) : Bool :=
  disk.entries.any fun entry =>
    entry.1.origin == place.origin && place.names.isPrefixOf entry.1.names

/-- What is at a place. -/
def stateAt (disk : Disk) (place : Place) : FileState :=
  match disk.listed place, place.standing? with
  | some state, _ => state
  | none, some state => state
  | none, none => if disk.holdsBelow place then .directory else .absent .notFound

/-- The place that a step leads to, which has to start from a directory. -/
def step (disk : Disk) (place : Place) (name : String) : Except PathFault Place :=
  match disk.stateAt place with
  | .directory => place.step name
  | .absent fault => .error fault
  | .file _ | .sink => .error .notDirectory

/-- The place that a path leads to. -/
def locate (disk : Disk) (text : String) : Except PathFault Place := do
  (← pathSteps text).foldlM disk.step (pathStart text)

/-- What a path leads to. -/
def find (disk : Disk) (text : String) : FileState :=
  match disk.locate text with
  | .ok place => disk.stateAt place
  | .error fault => .absent fault

/-- A disk with this in a place, whatever was there. -/
def put (disk : Disk) (place : Place) (state : FileState) : Disk :=
  ⟨disk.entries.filter (·.1 != place) ++ [(place, state)]⟩

/-- The place that a path names for a file, whether there is one or not. A path
    that ends in a slash or in points names a directory. -/
def locateFile (disk : Disk) (text : String) : Except FileFault Place := do
  let steps ← (pathSteps text).mapError .path
  match (steps.reverse.dropWhile (·.isEmpty)).reverse with
  | [] => throw .isDirectory
  | first :: rest =>
    let last := (first :: rest).getLast (List.cons_ne_nil first rest)
    let directory ← ((first :: rest).dropLast.foldlM disk.step (pathStart text)).mapError .path
    discard <| (disk.step directory ".").mapError .path
    if steps.getLast? == some "" || last == "." || last == ".." then throw .isDirectory
    (directory.step last).mapError .path

/-- A disk after a text has been written to a file, or why it cannot be. -/
def write (disk : Disk) (text content : String) : Except FileFault Disk := do
  let place ← disk.locateFile text
  match disk.stateAt place with
  | .directory => throw .isDirectory
  | .sink => return disk
  | .file _ | .absent _ => return disk.put place (.file content.toUTF8)

theorem listed_put_self (disk : Disk) (place : Place) (state : FileState) :
    (disk.put place state).listed place = some state := by
  have hnone : (disk.entries.filter (·.1 != place)).find? (·.1 == place) = none := by
    simp [List.find?_eq_none]
  simp [listed, put, List.find?_append, hnone]

theorem listed_put_of_ne (disk : Disk) {place other : Place} (state : FileState)
    (h : other ≠ place) : (disk.put place state).listed other = disk.listed other := by
  have hne : (place == other) = false := by simpa using fun e => h e.symm
  simp only [listed, put, List.find?_append, List.find?_filter, List.find?_cons, hne,
    List.find?_nil, Option.or_none]
  congr 1
  congr 1
  funext entry
  by_cases he : entry.1 = other
  · simp [he, h]
  · simp [he]

end Disk

end ReleaseNotes
