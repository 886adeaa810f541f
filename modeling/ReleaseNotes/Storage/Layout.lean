import ReleaseNotes.Storage.Opening

/-!
# The Layout of a Repository

The files that a repository is kept in.

A repository lies in one directory. A file there says where it stands, each
reference is a file under its own name, and so is each log; objects have a
directory to themselves, with a file for each. A few files say things that do
not matter here. What is laid out like that is what `Survey.ofFiles` reads.

## Main definitions

* `Survey.files`: The files and directories of a repository.
* `Disk.holding`: A disk with a repository in the working directory.
-/

namespace ReleaseNotes

namespace Storage

namespace Survey

/-- The text that says in which form a repository is kept. -/
def formText : String :=
  "[core]\n\tbare = false\n\trepositoryformatversion = 0\n\tfilemode = true\n" ++
    "\tlogallrefupdates = true\n"

/-- The text that could say what a repository is about. -/
def description : String :=
  "Unnamed repository; edit this file 'description' to name the repository.\n"

/-- The text that could say which files are not looked at. -/
def exclusions : String :=
  "# File patterns to ignore; see `git help ignore` for more information.\n" ++
    "# Lines that start with '#' are comments.\n"

/-- The names on the way to the file of a reference. -/
def namesOf (ref : String) : List String :=
  (ref.toList.splitOn '/').map String.ofList

/-- The names on the way to the file of an object. -/
def objectNames (hash : String) : List String :=
  ["objects", String.ofList (hash.toList.take 2), String.ofList (hash.toList.drop 2)]

/-- The person who makes the changes that logs hold. -/
def keeper : Signature := { name := [], address := [], time := 0 }

/-- The text of a log, given the changes from the last one on. -/
def logText : List LogEntry → List UInt8
  | [] => []
  | entry :: older =>
    logText older ++
      entry.write ((older.head?.map (·.hash)).getD Repository.zeroHash) keeper

/-- The files of a repository with their bytes. -/
def fileBytes (survey : Survey) : List (List String × List UInt8) :=
  [(["config"], bytesOf formText), (["description"], bytesOf description),
    (["info", "exclude"], bytesOf exclusions)] ++
  survey.refs.map (fun (name, target) => (namesOf name, bytesOf target.write)) ++
  survey.logs.map (fun (name, entries) => ("logs" :: namesOf name, logText entries)) ++
  survey.objects.map fun (hash, object) => (objectNames hash, object.toFile)

/-- The directories of a repository that need not have anything in them. -/
def directories : List (List String) :=
  [["objects", "info"], ["objects", "pack"], ["refs", "heads"], ["refs", "tags"], ["hooks"]]

/-- The files and directories in which a repository is kept, by their names on
    the way down. -/
def files (survey : Survey) : List (List String × FileState) :=
  directories.map (·, .directory) ++
    survey.fileBytes.map fun (names, bytes) => (names, .file bytes.toByteArray)

end Survey

end Storage

open Storage

/-- A disk with this in a place, unless there is something already. -/
def Disk.putIfFree (disk : Disk) (place : Place) (state : FileState) : Disk :=
  if (disk.listed place).isSome then disk else disk.put place state

/-- A disk with a repository in the working directory, if there is one. What is
    there already stays. -/
def Disk.holding (disk : Disk) : Option Survey → Disk
  | none => disk
  | some survey =>
    survey.files.foldl
      (fun disk file => disk.putIfFree (.below (directoryName :: file.1)) file.2) disk

end ReleaseNotes
