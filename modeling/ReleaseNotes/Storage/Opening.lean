import ReleaseNotes.Disk
import ReleaseNotes.Storage.Survey

/-!
# Opening a Repository

Where a repository is kept, and what is found there.

A repository lies in a directory of its own, below the directory that it is
about, or is that directory. In the place of the first there may be a file
that says where it is instead. It has a file for the place where the history
stands, and directories for its objects and for its references; these may lie
elsewhere, in a directory that several repositories share. The directory that
is about one is looked for upwards.

How files are looked at is left open: `Access` is a way to do so, in any kind
of computation. A disk that is a plain value gives one, and so does a real
machine. Both look in the same directories, one above the other (`upwards`).
How many there are above the working directory is known to a machine; on a
disk there is nothing to be found above the highest place that is listed.

## Main definitions

* `Access`: A way to look at files.
* `Access.discover`: The directories of a repository.
* `Survey.ofFiles`: What a repository keeps, taken from its files.
* `Access.openIn`: The repository that is found from a list of directories.
* `upwards`: The working directory and those above it.
* `Disk.repository`: The repository around the working directory of a disk.
-/

namespace ReleaseNotes

namespace Storage

/-- The directory of a repository and the one that it shares with others,
    which may be the same. -/
structure Directories where
  own : String
  shared : String
deriving DecidableEq, Repr

/-- A file by the names on the way to it. -/
abbrev NamedFile := List String × ByteArray

/-- A way to look at files: what is found at a path, and all files below a
    directory. -/
structure Access (m : Type → Type) where
  look : String → m FileState
  files : String → m (List NamedFile)

/-- The name of the directory that a repository lies in, and of the file in its
    place. -/
def directoryName : String := ".git"

/-- What stands in front of the path of the directory in the file in its
    place. -/
def linkMark : String := "gitdir:"

/-- The path of a name in a directory, or the name itself if it starts at the
    root. -/
def pathIn (directory name : String) : String :=
  if name.toList.head? == some '/' then name else directory ++ "/" ++ name

/-- The path that the file in the place of a directory leads to. -/
def linkedPath? (bytes : ByteArray) : Option String :=
  let text := trimEnd bytes.toList
  let mark := bytesOf linkMark
  if mark.isPrefixOf text && mark.length < text.length then
    some (textOf ((text.drop mark.length).dropWhile Signature.isBlank))
  else none

namespace Access

variable {m : Type → Type} [Monad m] (access : Access m)

/-- The directory that a repository shares with others. -/
def shared (directory : String) : m String := do
  match ← access.look (pathIn directory "commondir") with
  | .file bytes => return pathIn directory (textOf (trimEnd bytes.toList))
  | .absent _ | .directory | .sink => return directory

/-- The directories of a repository, if one is kept in a directory. -/
def holds (directory : String) : m (Option Directories) := do
  let shared ← access.shared directory
  match ← access.look (pathIn directory "HEAD"), ← access.look (pathIn shared "objects"),
      ← access.look (pathIn shared "refs") with
  | .file _, .directory, .directory => return some { own := directory, shared }
  | _, _, _ => return none

/-- The directories of the repository that a file leads to. -/
def follow (directory : String) (bytes : ByteArray) :
    m (Except OpeningFault (Option Directories)) := do
  match linkedPath? bytes with
  | none => return .error (.badLink (pathIn directory directoryName))
  | some path =>
    let place := pathIn directory path
    match ← access.look place with
    | .absent _ => return .error (.badPlace place)
    | _ =>
      match ← access.holds place with
      | some found => return .ok (some found)
      | none => return .error .absent

/-- The directories of the repository that a directory is about, or that it
    is. -/
def around (directory : String) : m (Except OpeningFault (Option Directories)) := do
  let place := pathIn directory directoryName
  match ← access.look place with
  | .file bytes => access.follow directory bytes
  | .directory =>
    match ← access.holds place with
    | some found => return .ok (some found)
    | none => return .ok (← access.holds directory)
  | .absent _ | .sink => return .ok (← access.holds directory)

/-- The directories of the repository that the first of some directories is
    about that is about one. -/
def discover : List String → m (Except OpeningFault Directories)
  | [] => return .error .absent
  | directory :: others => do
    match ← access.around directory with
    | .error fault => return .error fault
    | .ok (some found) => return .ok found
    | .ok none => discover others

end Access

/-- The file at the end of some names. -/
def fileAt? (files : List NamedFile) (names : List String) : Option (List UInt8) :=
  (files.find? (·.1 == names)).map (·.2.toList)

/-- A reference that each repository keeps for itself, whatever it shares. -/
def isOwn (names : List String) : Bool :=
  names.head? != some "refs" || ["refs", "bisect"].isPrefixOf names

/-- The references that are files. -/
def refFiles (own shared : List NamedFile) : List (String × Target) :=
  (own.filter (isOwn ·.1) ++ shared.filter fun file => !isOwn file.1).map fun file =>
    ("/".intercalate file.1, .read file.2.toList)

/-- The logs of references among the files. -/
def logFiles (files : List NamedFile) : List (String × List LogEntry) :=
  files.filterMap fun file =>
    match file.1 with
    | "logs" :: names => some ("/".intercalate names, readLog file.2.toList)
    | _ => none

/-- The files that are there for objects, with their hashes. -/
def objectFiles (files : List NamedFile) : List (String × ByteArray) :=
  files.filterMap fun file =>
    match file.1 with
    | ["objects", start, rest] =>
      let hash := start ++ rest
      if start.length = 2 && hash.length = hashSize && (bytesOf hash).all isHexByte then
        some (hash, file.2)
      else none
    | _ => none

/-- The name of the pack that belongs to an index. -/
def packOf? (name : String) : Option String :=
  let ending := ".idx".toList
  if ending.isSuffixOf name.toList then
    some (String.ofList (name.toList.take (name.length - ending.length)) ++ ".pack")
  else none

/-- The objects that lie in packs. -/
def packedObjects (files : List NamedFile) : List (String × StoredObject) :=
  files.flatMap fun file =>
    match file.1 with
    | ["objects", "pack", name] =>
      let content := (packOf? name).bind fun pack =>
        (files.find? (·.1 == ["objects", "pack", pack])).map (·.2)
      match content with
      | some content => Pack.objects { index := file.2, content }
      | none => []
    | _ => []

/-- The newest form in which a repository may be kept. -/
def maxForm : Int := 1

/-- The key of the form in which a repository is kept. -/
def formKey : String := "core.repositoryformatversion"

/-- The start of the keys of what a repository has in addition. -/
def extensionKey : String := "extensions."

/-- What a repository may have in addition. -/
def extensions : List String := ["noop", "objectformat"]

/-- Why a repository with such settings cannot be opened, if it cannot. -/
def settingsFault? (settings : List (String × String)) : Option OpeningFault := do
  let version ← (← settings.lookup formKey).toInt?
  if maxForm < version then return .newForm version
  guard (version = maxForm)
  let (key, _) ← settings.reverse.find? fun (key, _) =>
    ((Repository.behind? extensionKey key).map fun name => !extensions.contains name).getD false
  return .newExtension key

/-- What a repository keeps, taken from the files in its own directory and in
    the one that it shares. -/
def Survey.ofFiles (own shared : List NamedFile) : Except OpeningFault Survey := do
  let settings := ((fileAt? shared ["config"]).map readSettings).getD []
  if let some fault := settingsFault? settings then throw fault
  let grafts ← readGrafts ((fileAt? shared ["info", "grafts"]).getD [])
  let shallow ← readGrafts ((fileAt? own ["shallow"]).getD [])
  let loose := (objectFiles shared).map fun (hash, bytes) => (hash, StoredObject.ofFile? bytes)
  return {
    objects := (loose.filterMap fun (hash, object?) => object?.map (hash, ·)) ++
      packedObjects shared
    garbled := loose.filterMap fun (hash, object?) => if object?.isNone then some hash else none
    refs := refFiles own shared
    table := match fileAt? shared ["packed-refs"] with
      | some text => readTable? text
      | none => some []
    logs := logFiles own ++ logFiles shared
    grafts := grafts ++ shallow
    settings }

/-- The repository that is found from a list of directories, of which the first
    one counts that is about one. In it texts mean these times. -/
def Access.openIn {m : Type → Type} [Monad m] (access : Access m)
    (dates : String → Option Int) (directories : List String) :
    m (Except OpeningFault Repository) := do
  match ← access.discover directories with
  | .error fault => return .error fault
  | .ok found =>
    let own ← access.files found.own
    let shared ← if found.shared = found.own then pure own else access.files found.shared
    return (Survey.ofFiles own shared).map (·.repository dates)

/-- The path of the directory so many steps above the working directory. -/
def upPath (steps : Nat) : String :=
  "/".intercalate ("." :: List.replicate steps "..")

/-- The paths of the working directory and of those above it, together so
    many. -/
def upwards (count : Nat) : List String :=
  (List.range count).map upPath

end Storage

namespace Disk

open Storage

/-- The files below a directory, by the names on the way from there. -/
def filesIn (disk : Disk) (path : String) : List NamedFile :=
  match disk.locate path with
  | .error _ => []
  | .ok place =>
    disk.entries.filterMap fun (there, state) =>
      match state with
      | .file bytes =>
        if there.origin == place.origin && place.names.isPrefixOf there.names then
          some (there.names.drop place.names.length, bytes)
        else none
      | .absent _ | .directory | .sink => none

/-- A disk as a way to look at files. -/
def access (disk : Disk) : Access Id where
  look := disk.find
  files := disk.filesIn

/-- How far above the working directory something is listed. -/
def height (disk : Disk) : Nat :=
  disk.entries.foldl
    (fun height entry =>
      match entry.1.origin with
      | .above steps => max height steps
      | .root => height)
    0

/-- The repository around the working directory of a disk, which is looked for
    upwards. -/
def repository (disk : Disk) (dates : String → Option Int) : Except OpeningFault Repository :=
  (disk.access.openIn dates (upwards (disk.height + 1))).run

end Disk

end ReleaseNotes
