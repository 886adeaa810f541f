import ReleaseNotes.CommitRange
import ReleaseNotes.History.Resolution

/-!
# Releases

The commits of a repository since a release.

A release is a tag that leads to a commit, its boundary. The range since a
release holds the commits that the start leads to and the boundary does not,
whether or not the boundary itself lies behind the start. Without a release
it holds everything the start leads to.

The release can be given by the name of its tag. Then anything wrong with that
tag is a fault. Or it is looked for: the commits that the start leads to are
gone through in the order of a walk, and the first tagged one is the boundary.
A walk shows no commit before one that leads to it, so no release is chosen
while a newer one lies in between. Of several tags of a commit the one whose
name is last counts. Tags about other objects are passed over there. The tags
are listed as a whole, however: one that leads through references to nothing
breaks the list, and then there are none to look for.

Names and messages are recorded as bytes, and what is behind a zero byte is
not read. What is not text says nothing.

## Main definitions

* `OpeningFault`, `SourceFault`: Why there is no range.
* `Repository.tagCommit`: The commit that a tag leads to.
* `Repository.latestTag`: The release that is looked for.
* `CommitRecord.toCommit`: A record as a commit of the notes.
* `Repository.range`: The commits since a release.
-/

namespace ReleaseNotes

/-- Why a tag leads to no commit. -/
inductive TagFault where
  /-- The text has a character that no name has. -/
  | zeroCharacter
  /-- The reference of the tag cannot be looked up. -/
  | ref (fault : RefFault)
  /-- The tag leads through references to nothing. -/
  | chain (fault : RefFault)
  /-- The object of the tag cannot be read. -/
  | lost (fault : ReadFault)
  /-- The tag is not about a commit. -/
  | notCommit (fault : PeelFault)
deriving DecidableEq, Repr

/-- Why a repository cannot be opened. -/
inductive OpeningFault where
  /-- There is none. -/
  | absent
  /-- What should lead to its directory does not. -/
  | badLink (path : String)
  /-- The directory that it should be in is not there. -/
  | badPlace (path : String)
  /-- A line that says which parents a commit has is not about a commit. -/
  | badGraft (line : Nat)
  /-- A line that says which parents a commit has names no parent where one
      should be. -/
  | badGraftParent (line : Nat)
  /-- It is kept in a form that is not known. -/
  | newForm (version : Int)
  /-- It has something in addition that is not known. -/
  | newExtension (key : String)
deriving DecidableEq, Repr

/-- Why there is no range of commits. -/
inductive SourceFault where
  /-- There is no repository that can be opened. -/
  | opening (fault : OpeningFault)
  /-- The start leads nowhere. -/
  | revision (text : String) (fault : RevisionFault)
  /-- The start is no commit. -/
  | startNotCommit (fault : PeelFault)
  /-- The tag that was given is not there, or leads to no commit. -/
  | tag (name : String) (fault : TagFault)
  /-- A commit on the way cannot be read. -/
  | walk (fault : ReadFault)
deriving DecidableEq, Repr

namespace CommitRecord

/-- Bytes as text, if they are text. -/
def decode? (bytes : ByteArray) : Option String :=
  String.fromUTF8? bytes

/-- The name of the author, if it is text. -/
def authorName (record : CommitRecord) : Option String :=
  decode? (untilZero record.author.toList).toByteArray

/-- The message without the line ends in front of it, if it is text. -/
def messageText (record : CommitRecord) : Option String :=
  decode? record.visibleMessage

/-- A record as a commit of the notes. -/
def toCommit (record : CommitRecord) : Commit :=
  let commit := Commit.ofMessage record.hash record.messageText
  match record.authorName with
  | some name => commit.withAuthor name
  | none => commit

end CommitRecord

namespace Repository

variable (repository : Repository)

/-- The object that a tag leads to. If it is recorded what is left of it when
    its tags are taken off, that is taken. -/
def tagObject (name : String) : Except TagFault (Object repository.history) := do
  if name.toList.contains '\x00' then throw .zeroCharacter
  let ref ← (lookedFor (tagRef name)).mapError .ref
  let target ← (repository.ref ref).mapError .ref
  let lead ←
    match target with
    | .hash hash peeled => pure { name := ref, hash, peeled }
    | .name other => (repository.resolve other).mapError .chain
    | .garbled likeName => throw (.ref (.garbled ref likeName))
  (repository.object (lead.peeled.getD lead.hash)).mapError .lost

/-- The commit that a tag leads to. -/
def tagCommit (name : String) : Except TagFault repository.history.Position := do
  (← repository.tagObject name).peelToCommit.mapError .notCommit

/-- The tags as they are listed. One that leads to no hash breaks the list. -/
def listedTags : List String :=
  if repository.tags.all fun name => (repository.resolve (tagRef name)).toOption.isSome then
    repository.tags
  else []

/-- The listed tags that lead to commits, with these commits. -/
def tagged : List (repository.history.Position × String) :=
  repository.listedTags.filterMap fun name =>
    (repository.tagCommit name).toOption.map fun i => (i, name)

/-- The later of two names. -/
def laterName (a b : String) : String := if a < b then b else a

/-- The tag that counts for a commit, of those that lead to it. -/
def tagOf (tagged : List (repository.history.Position × String))
    (i : repository.history.Position) : Option String :=
  match tagged.filterMap fun entry => if entry.1 = i then some entry.2 else none with
  | [] => none
  | name :: names => some (names.foldl laterName name)

/-- The latest release before a commit or at it, with its boundary. It is not
    looked for if there are no tags. -/
def latestTag (start : repository.history.Position) :
    Except ReadFault (Option (String × repository.history.Position)) :=
  let tagged := repository.tagged
  if tagged.isEmpty then .ok none
  else do
    let walk ← repository.history.between start none
    return walk.findSome? fun i => (repository.tagOf tagged i).map (·, i)

/-- The commit that a text means as the start of a range. -/
def start (text : String) : Except SourceFault repository.history.Position := do
  let object ← (repository.revision text).mapError (.revision text)
  object.peelToCommit.mapError .startNotCommit

/-- The release that is given by its tag, or else the latest one, with its
    boundary. -/
def release (start : repository.history.Position) :
    Option String → Except SourceFault (Option (String × repository.history.Position))
  | some name => do
    let boundary ← (repository.tagCommit name).mapError (.tag name)
    return some (name, boundary)
  | none => (repository.latestTag start).mapError .walk

/-- The commits since a release, read from a start. -/
def range (revision : String) (since : Option String) : Except SourceFault CommitRange := do
  let start ← repository.start revision
  let release ← repository.release start since
  let positions ← (repository.history.between start (release.map (·.2))).mapError .walk
  return {
    sinceTag := release.map (·.1)
    head := (repository.history.record start).hash
    commits := positions.map fun i => (repository.history.record i).toCommit }

end Repository

end ReleaseNotes
