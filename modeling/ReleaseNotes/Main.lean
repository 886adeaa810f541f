import ReleaseNotes.CommandLine.Run
import Std.Time

/-!
# The Program

Runs performed on a real machine.

Nothing is decided here. `Machine.perform` follows the tree of a run and does
its acts one after the other. Opening the repository needs a way to look at
files and the directories in which to look for it; what is found there is left
to `Access.openIn`.

A file that cannot be read is taken not to be there, unless it is a directory.

## Main definitions

* `Machine.perform`: The acts of a run done.
* `main`: The program.
-/

namespace ReleaseNotes

namespace Machine

open CommandLine Storage

/-- Why there is no file where one was looked for, told from what the system
    reports. -/
def faultOf : IO.Error → FileFault
  | .inappropriateType _ code _ => if code == 21 then .isDirectory else .path .notDirectory
  | .invalidArgument .. => .path .nameTooLong
  | _ => .path .notFound

/-- What is found at a path. -/
def stateOf (path : String) : IO FileState := do
  try
    return .file (← IO.FS.readBinFile path)
  catch error =>
    match faultOf error with
    | .path fault => return .absent fault
    | .isDirectory | .notText => return .directory

/-- A file with this text. -/
def writeText (path text : String) : IO (Except FileFault Unit) := do
  try
    IO.FS.writeFile path text
    return .ok ()
  catch error => return .error (faultOf error)

/-- The bytes up to the next end of a line, behind those that are there. -/
partial def bytesOfLine (stream : IO.FS.Stream) (bytes : ByteArray) : IO ByteArray := do
  let next ← stream.read 1
  if next.isEmpty || next.toList.contains '\n'.toUInt8 then return bytes
  bytesOfLine stream (bytes ++ next)

/-- The next line of the input. -/
def readLine (stream : IO.FS.Stream) : IO (Except FileFault String) := do
  return (FileState.file (← bytesOfLine stream .empty)).text

/-- The names in a directory. -/
def namesIn (path : String) : IO (List String) := do
  try
    let entry : IO.FS.DirEntry := ⟨path, ""⟩
    return (← entry.path.readDir).toList.map (·.fileName)
  catch _ => return []

/-- The directory of the user's settings. -/
def homeDirectory : IO String := do
  match ← IO.getEnv "XDG_CONFIG_HOME", ← IO.getEnv "HOME" with
  | some directory, home =>
    if directory.startsWith "/" then return directory
    else return home.getD "" ++ "/.config"
  | none, home => return home.getD "" ++ "/.config"

/-- The names of what lies beside references and objects in the directory of a
    repository and is never read. -/
def unread : List String := ["hooks", "index", "lfs", "modules", "worktrees"]

/-- The files below a directory, by the names on the way from another one. -/
partial def filesBelow (path : String) (names : List String) : IO (List NamedFile) := do
  match ← stateOf path with
  | .file bytes => return [(names, bytes)]
  | .directory =>
    let parts := (← namesIn path).filter fun name => !(names.isEmpty && unread.contains name)
    return (← parts.mapM fun part => filesBelow (pathIn path part) (names ++ [part])).flatten
  | .absent _ | .sink => return []

/-- The machine as a way to look at files. -/
def access : Access IO where
  look := stateOf
  files path := filesBelow path []

/-- The time that a text means, given what time it is: now, a day ago, or a
    date with a time of the day. Other texts are not read. -/
def timeOf? (now : Int) (text : String) : Option Int :=
  if text == "now" then some now
  else if text == "yesterday" then some (now - 24 * 60 * 60)
  else
    (Std.Time.PlainDateTime.parse (text.replace " " "T")).toOption.map fun moment =>
      moment.toWallTime.toSeconds.val

/-- The repository around the working directory, which is looked for
    upwards. -/
def openRepository : IO (Except OpeningFault Repository) := do
  let now := (← Std.Time.Timestamp.now).toSecondsSinceUnixEpoch.val
  let depth := ((← IO.currentDir).toString.toList.splitOn '/').length
  access.openIn (timeOf? now) (upwards depth)

/-- The acts of a run done, one after the other. -/
def perform : Run → IO UInt32
  | .done status => return UInt32.ofNat status
  | .print channel text rest => do
    let stream ← match channel with
      | .output => IO.getStdout
      | .messages => IO.getStderr
    stream.putStr text
    stream.flush
    perform rest
  | .look (.working path) rest => do perform (rest (← stateOf path))
  | .look (.home path) rest => do perform (rest (← stateOf (pathIn (← homeDirectory) path)))
  | .openRepository rest => do perform (rest (← openRepository))
  | .ask rest => do perform (rest (← readLine (← IO.getStdin)))
  | .write path text rest => do perform (rest (← writeText path text))

end Machine

end ReleaseNotes

/-- The program: the run that the words of the command line ask for. -/
def main (words : List String) : IO UInt32 :=
  ReleaseNotes.Machine.perform (.ofRequest (.ofWords words))
