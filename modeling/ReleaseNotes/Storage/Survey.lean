import ReleaseNotes.Storage.Pack
import ReleaseNotes.Storage.RefText
import Std.Data.HashMap

/-!
# Surveys

Everything that a repository keeps, and the repository that it makes.

A survey is a list of objects with their hashes, in any order, together with
references, their logs, and settings. Commits can be given other parents in it
than those that they name. The repository that a survey makes has a history,
so the commits have to be put into an order with parents first. That is done
by going down from each of them along parents and writing a commit down on the
way back, with a list of what is still to be done instead of a recursion. A
parent that cannot be read leaves a gap.

A survey can be made piece by piece, too. It starts with nothing but the tree
that holds nothing, and a place for the history to stand at, and branches and
tags are added to it one after the other. A branch has a log, and a tag may be
an object of its own.

## Main definitions

* `Survey`: What a repository keeps.
* `Survey.history`: The commits, parents first.
* `Survey.repository`: The repository that a survey makes.
* `Survey.bare`, `Survey.addCommit`, `Survey.addBranch`, `Survey.addTag`,
  `Survey.detach`: A survey made piece by piece.
-/

namespace ReleaseNotes

namespace Storage

/-- What a repository keeps. -/
structure Survey where
  objects : List (String × StoredObject) := []
  /-- The hashes of objects in whose place something else is kept. -/
  garbled : List String := []
  refs : List (String × Target) := []
  /-- The table of references, if it can be read. -/
  table : Option (List (String × Target)) := some []
  logs : List (String × List LogEntry) := []
  /-- The parents that commits are given. -/
  grafts : List (String × List String) := []
  settings : List (String × String) := []

/-- The way a tree writes that an entry is a tree itself. -/
def treeMode : List UInt8 := bytesOf "40000"

/-- The number of bytes of a hash. -/
def hashBytes : Nat := 20

/-- Bytes in hexadecimal digits. -/
def hexOf (bytes : List UInt8) : String :=
  String.ofList (bytes.flatMap fun byte =>
    [Nat.digitChar (byte.toNat / 16), Nat.digitChar (byte.toNat % 16)])

/-- What a tree holds, at most so many entries. -/
def readTree : Nat → List UInt8 → List TreeEntry
  | 0, _ => []
  | bound + 1, text =>
    let mode := text.takeWhile (· != ' '.toUInt8)
    let rest := text.drop (mode.length + 1)
    let name := rest.takeWhile (· != 0)
    let rest := rest.drop (name.length + 1)
    if rest.length < hashBytes then []
    else
      { name := textOf name, hash := hexOf (rest.take hashBytes), isTree := mode == treeMode } ::
        readTree bound (rest.drop hashBytes)

namespace Survey

/-- The commits with what they say, or why they cannot be read. -/
def commits (survey : Survey) : List (String × Except ReadFault CommitContent) :=
  survey.objects.filterMap fun (hash, object) =>
    if object.kind = .commit then
      some (hash, do
        let content := (← CommitText.read object.content.get).content
        match survey.grafts.lookup hash with
        | some parents => return { content with parents }
        | none => return content)
    else none

/-- Something for each of some hashes. -/
abbrev Table (α : Type) := Std.HashMap String α

/-- A commit still to be looked at, or one whose parents have been written
    down. -/
inductive Task where
  | visit (hash : String)
  | write (hash : String)

/-- The commits that have been written down, the last one first, and the set
    of their hashes. -/
structure Written where
  commits : List (String × CommitContent) := []
  hashes : Table Unit := {}

/-- A commit written down behind its parents. -/
def Written.add (written : Written) (hash : String) (commit : CommitContent) : Written :=
  { commits := (hash, commit) :: written.commits, hashes := written.hashes.insert hash () }

/-- The commits written down by doing at most so many tasks. -/
def order (commits : Table CommitContent) : Nat → List Task → Written → Written
  | 0, _, written => written
  | _, [], written => written
  | bound + 1, task :: tasks, written =>
    match task with
    | .visit hash =>
      match written.hashes[hash]?, commits[hash]? with
      | none, some commit =>
        order commits bound (commit.parents.map .visit ++ .write hash :: tasks) written
      | _, _ => order commits bound tasks written
    | .write hash =>
      match written.hashes[hash]?, commits[hash]? with
      | none, some commit => order commits bound tasks (written.add hash commit)
      | _, _ => order commits bound tasks written

/-- The objects of a survey by their hashes, and the faults of those that are
    commits and cannot be read. -/
structure Index where
  stored : Table StoredObject
  faults : Table ReadFault

/-- The index of a survey. -/
def index (survey : Survey) : Index where
  stored := .ofList survey.objects
  faults := .ofList <|
    survey.garbled.map (·, .garbled) ++ survey.commits.filterMap fun
      | (hash, .error fault) => some (hash, fault)
      | (_, .ok _) => none

/-- Why a hash stands for no commit that can be read. -/
def Index.reason (index : Index) (hash : String) : ReadFault :=
  if hash == Repository.zeroHash then .zeroHash
  else
    match index.faults[hash]?, index.stored[hash]? with
    | some fault, _ => fault
    | none, some _ => .notCommit
    | none, none => .missing hash

/-- The commits, parents first. -/
def history (survey : Survey) (index : Index) : History :=
  let commits := survey.commits.filterMap fun
    | (hash, .ok commit) => some (hash, commit)
    | (_, .error _) => none
  let links := (commits.flatMap (·.2.parents)).length
  let bound := 2 * (links + commits.length) + links + 1
  let written := order (.ofList commits) bound (commits.map (.visit ·.1)) {}
  .ofList index.reason written.commits.reverse

/-- What a hash stands for, following tags at most so far. -/
def Index.object (index : Index) (history : History) : Nat → String → Object history
  | 0, hash => .unreadable (.missing hash)
  | bound + 1, hash =>
    match index.stored[hash]? with
    | none =>
      if hash == Repository.emptyTree then .tree hash else .unreadable (index.reason hash)
    | some found =>
      match found.kind with
      | .commit =>
        match history.ofHash? hash with
        | some position => .commit position
        | none => .unreadable (index.reason hash)
      | .tree => .tree hash
      | .blob => .blob hash
      | .tag =>
        match readTag found.content.get with
        | .ok target => .tag hash (index.object history bound target)
        | .error fault => .unreadable fault

/-- What the tree of a hash holds. -/
def Index.entries (index : Index) (hash : String) : List TreeEntry :=
  match index.stored[hash]? with
  | some found =>
    let content := found.content.get
    if found.kind = .tree then readTree content.length content else []
  | none => []

/-- The repository that a survey makes, given the times that texts mean. -/
def repository (survey : Survey) (dates : String → Option Int := fun _ => none) : Repository :=
  let index := survey.index
  let history := survey.history index
  let others := survey.objects.filter fun (hash, object) =>
    object.kind ≠ .commit || index.faults.contains hash
  { history
    objects := (others.map (·.1) ++ survey.garbled).map fun hash =>
      (hash, index.object history (survey.objects.length + 1) hash)
    entries := index.entries
    refs := survey.refs
    table := survey.table
    logs := survey.logs
    settings := survey.settings
    dates }

/-- The survey of a repository without references but the one that says where
    the history stands, which leads to a branch that is not there. -/
def bare (branch : String) : Survey where
  objects := [(Repository.emptyTree, { kind := .tree, content := ([] : List UInt8) })]
  refs := [(Repository.headRef, .name (Repository.branchRef branch))]

/-- A survey with one more object. -/
def addObject (survey : Survey) (hash : String) (kind : ObjectKind) (content : List UInt8) :
    Survey :=
  if survey.objects.any (·.1 == hash) then survey
  else { survey with objects := survey.objects ++ [(hash, { kind, content })] }

/-- A survey with one more commit. -/
def addCommit (survey : Survey) (hash : String) (commit : CommitText) : Survey :=
  survey.addObject hash .commit commit.write

/-- A survey with one more reference, or with a reference changed. -/
def setRef (survey : Survey) (name : String) (target : Target) : Survey :=
  { survey with refs := survey.refs.filter (·.1 != name) ++ [(name, target)] }

/-- A survey with one more change in the log of a reference. When it was made
    is left open. -/
def log (survey : Survey) (name hash : String) : Survey :=
  let entries := { hash, time := 0, message := "" } :: (survey.logs.lookup name).getD []
  { survey with logs := (name, entries) :: survey.logs.filter (·.1 != name) }

/-- A survey with one more branch, or with a branch changed. -/
def addBranch (survey : Survey) (name hash : String) : Survey :=
  (survey.setRef (Repository.branchRef name) (.hash hash none)).log
    (Repository.branchRef name) hash

/-- A hash that no object of a survey has. -/
def freshHash (survey : Survey) : String :=
  let digits := Nat.toDigits 16 survey.objects.length
  String.ofList (List.replicate (hashSize - digits.length) 'f' ++ digits)

/-- The object that a tag of this name would be, about the object of a
    hash. -/
def addTagObject (survey : Survey) (name hash : String) : Survey × String :=
  let fresh := survey.freshHash
  let kind := ((survey.objects.lookup hash).map (·.kind.name)).getD ObjectKind.commit.name
  (survey.addObject fresh .tag (writeTag hash kind name), fresh)

/-- A survey with one more tag, or with a tag changed, about the object of a
    hash. An annotated tag is an object of its own. -/
def addTag (survey : Survey) (name : String) (annotated : Bool) (hash : String) : Survey :=
  let (survey, hash) := if annotated then survey.addTagObject name hash else (survey, hash)
  survey.setRef (Repository.tagRef name) (.hash hash none)

/-- A survey of a history that stands at a commit and at no branch. -/
def detach (survey : Survey) (hash : String) : Survey :=
  survey.setRef Repository.headRef (.hash hash none)

/-- The hash that a tag leads to. -/
def tagged? (survey : Survey) (name : String) : Option String :=
  (survey.repository.resolve (Repository.tagRef name)).toOption.map (·.hash)

end Survey

end Storage

end ReleaseNotes
