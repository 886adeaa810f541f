import ReleaseNotes.History.Graph
import ReleaseNotes.History.RefName

/-!
# Repositories

A history together with the names that people give to its commits.

Objects are commits, trees, blobs, and annotated tags, which in turn are about
an object. Each has a hash. Of blobs nothing more is known here than that they
are no commits. The tree that holds nothing is known everywhere.

A reference leads to a hash, or to another reference by its name. References
are kept one by one, or in a table; one that is kept by itself hides an entry
of the table. What is written in the place of a reference may lead nowhere at
all.

References that lead to references are followed only so far. `follow` takes
the number of references that may still be looked at, so a circle of
references is given up on like a chain that is too long; a chain that ends in
a name without a reference leads nowhere.

Peeling an object takes its tags off. A commit is what most questions are
about, but a question can also ask for a tree or a blob, and a commit has a
tree. When a tree or a blob itself is asked for something else, the question
makes no sense; when a tag leads to one, the tag cannot be peeled.

## Main definitions

* `Object`: What a hash may stand for.
* `Target`: What a reference leads to.
* `Repository`: A history with its references.
* `Repository.object`: What a hash stands for.
* `Repository.startingWith`: The objects whose hash starts like a text.
* `Repository.resolve`: What a chain of references leads to.
* `Object.peel`, `Object.peelToCommit`: What an object leads to, by kind.
-/

namespace ReleaseNotes

/-- A commit of a history, a tree, a blob, or an annotated tag of an object,
    which may be one that cannot be read. -/
inductive Object (history : History) where
  | commit (position : history.Position)
  | tree (hash : String)
  | blob (hash : String)
  | tag (hash : String) (target : Object history)
  | unreadable (fault : ReadFault)
deriving DecidableEq

/-- The kinds of objects. -/
inductive ObjectKind where
  | commit
  | tree
  | blob
  | tag
deriving DecidableEq, Repr

namespace ObjectKind

/-- The name of a kind. -/
def name : ObjectKind → String
  | .commit => "commit"
  | .tree => "tree"
  | .blob => "blob"
  | .tag => "tag"

/-- The kind of a name. -/
def ofName? (name : String) : Option ObjectKind :=
  [commit, tree, blob, tag].find? (·.name == name)

end ObjectKind

/-- Why a peeled object does not lead to what was asked for. -/
inductive PeelCause where
  /-- An object of this kind never leads to one of that kind. -/
  | senseless
  /-- A tag leads to something else. -/
  | unpeelable
  /-- A tag leads to something that cannot be read. -/
  | unreadable (fault : ReadFault)
deriving DecidableEq, Repr

/-- An object that does not lead to what was asked for. -/
structure PeelFault where
  hash : String
  wanted : ObjectKind
  cause : PeelCause
deriving DecidableEq, Repr

namespace Object

variable {history : History}

/-- The kind of an object that can be read. -/
def kind? : Object history → Option ObjectKind
  | .commit _ => some .commit
  | .tree _ => some .tree
  | .blob _ => some .blob
  | .tag _ _ => some .tag
  | .unreadable _ => none

/-- The hash of an object that can be read. -/
def hash : Object history → String
  | .commit position => (history.record position).hash
  | .tree hash | .blob hash | .tag hash _ => hash
  | .unreadable _ => ""

/-- The commit that an object leads to when its tags are taken off. -/
def commit? : Object history → Option history.Position
  | .commit position => some position
  | .tag _ target => target.commit?
  | .tree _ | .blob _ | .unreadable _ => none

/-- What is left of an object when all its tags are taken off. -/
def untagged : Object history → Object history
  | .tag _ target => target.untagged
  | object => object

/-- What an object without tags leads to: itself, or the tree of a commit. -/
def step (object : Object history) (wanted : ObjectKind) : Option (Object history) :=
  if object.kind? = some wanted then some object
  else
    match object, wanted with
    | .commit position, .tree => some (.tree (history.record position).tree)
    | _, _ => none

/-- Why a tag does not lead to what was asked for, given what it is about. -/
def tagCause : Object history → PeelCause
  | .unreadable fault => .unreadable fault
  | _ => .unpeelable

/-- What an object leads to, given the kind of what is wanted. -/
def peel (object : Object history) (wanted : ObjectKind) :
    Except PeelFault (Object history) :=
  match object.step wanted, object with
  | some found, _ => .ok found
  | none, .tag hash target =>
    match target.untagged.step wanted with
    | some found => .ok found
    | none => .error ⟨hash, wanted, target.untagged.tagCause⟩
  | none, _ => .error ⟨object.hash, wanted, .senseless⟩

/-- The commit that an object leads to, or why it leads to none. -/
def peelToCommit (object : Object history) : Except PeelFault history.Position :=
  match object.commit?, object with
  | some position, _ => .ok position
  | none, .tag hash target => .error ⟨hash, .commit, target.untagged.tagCause⟩
  | none, _ => .error ⟨object.hash, .commit, .senseless⟩

end Object

/-- What a reference leads to. -/
inductive Target where
  /-- The object of a hash. It may be recorded what is left of it when its
      tags are taken off. -/
  | hash (hash : String) (peeled : Option String)
  /-- Another reference. -/
  | name (name : String)
  /-- Nothing, since what is written there is neither. It may at least look
      like the name of another reference. -/
  | garbled (likeName : Bool)
deriving DecidableEq, Repr

/-- What a tree holds under a name. -/
structure TreeEntry where
  name : String
  hash : String
  isTree : Bool
deriving DecidableEq, Repr

/-- A change of a reference: the hash that it has led to since then, when that
    was, and what was said about it. -/
structure LogEntry where
  hash : String
  time : Int
  message : String
deriving DecidableEq, Repr

/-- A history with its references. -/
structure Repository where
  history : History
  /-- The objects other than the commits of the history, with their hashes. -/
  objects : List (String × Object history)
  /-- What a tree holds, by its hash. -/
  entries : String → List TreeEntry
  /-- The references that are kept one by one. -/
  refs : List (String × Target)
  /-- The table of references, if it can be read. -/
  table : Option (List (String × Target))
  /-- The changes of references, the last one first. -/
  logs : List (String × List LogEntry)
  /-- The settings of the repository, by their keys. -/
  settings : List (String × String)
  /-- The time that a text means, if it means one. This is asked of the clock
      and not of the repository. -/
  dates : String → Option Int := fun _ => none

/-- Why a reference leads to no hash. -/
inductive RefFault where
  /-- There is no reference of this name. -/
  | dangling (name : String)
  /-- There are more references on the way than are looked at. -/
  | tooLong
  /-- What is written in the place of a reference is no reference. -/
  | garbled (name : String) (likeName : Bool)
  /-- The table of references cannot be read. -/
  | garbledTable
  /-- The text is no name of a reference. -/
  | badName (name : String)
  /-- The name is too long. -/
  | longName (name : String)
  /-- A segment of the name is too long to be kept in a file. -/
  | longSegment (name : String)
deriving DecidableEq, Repr

/-- The number of references that are looked at behind the first one. -/
def maxChain : Nat := 5

/-- A reference that leads to a hash. -/
structure Lead where
  name : String
  hash : String
  peeled : Option String
deriving DecidableEq, Repr

namespace Repository

/-- The hash of the tree that holds nothing. -/
def emptyTree : String := "4b825dc642cb6eb9a060e54bf8d69288fbee4904"

/-- The hash that no object has. -/
def zeroHash : String := "0000000000000000000000000000000000000000"

/-- The name of the reference that says where the history stands. -/
def headRef : String := "HEAD"

/-- The name of the reference of a tag. -/
def tagRef (tag : String) : String := "refs/tags/" ++ tag

/-- The name of the reference of a branch. -/
def branchRef (branch : String) : String := "refs/heads/" ++ branch

/-- What is left of a name behind the place of the references that it belongs
    to. -/
def behind? (place name : String) : Option String :=
  if place.toList.isPrefixOf name.toList then
    some (String.ofList (name.toList.drop place.length))
  else none

variable (repository : Repository)

/-- What a hash stands for. -/
def object (hash : String) : Except ReadFault (Object repository.history) :=
  if hash == zeroHash then .error .zeroHash
  else
    match repository.history.ofHash? hash, repository.objects.lookup hash with
    | some position, _ => .ok (.commit position)
    | none, some (.unreadable fault) => .error fault
    | none, some object => .ok object
    | none, none => if hash == emptyTree then .ok (.tree emptyTree) else .error (.missing hash)

/-- The objects whose hash starts like this, in either case. -/
def startingWith (text : String) : List (Object repository.history) :=
  let fits (hash : String) : Bool := (text.toList.map Char.toLower).isPrefixOf hash.toList
  ((List.finRange repository.history.size).filter fun i =>
      fits (repository.history.record i).hash).map .commit ++
    (repository.objects.filter (fits ·.1)).map (·.2)

/-- The reference of a name, as it is written down. -/
def ref (name : String) : Except RefFault Target :=
  match repository.refs.lookup name, repository.table with
  | some (.garbled likeName), _ => .error (.garbled name likeName)
  | some target, _ => .ok target
  | none, some table =>
    match table.lookup name with
    | some target => .ok target
    | none => .error (.dangling name)
  | none, none => .error .garbledTable

/-- The hash that a reference leads to when this many more of them may be
    looked at. -/
def follow : (count : Nat) → (name : String) → Target → Except RefFault Lead
  | _, name, .hash hash peeled => .ok { name, hash, peeled }
  | _, name, .garbled likeName => .error (.garbled name likeName)
  | 0, _, .name _ => .error .tooLong
  | count + 1, _, .name other =>
    match repository.ref other with
    | .ok target => follow count other target
    | .error fault => .error fault

/-- The name under which a reference is looked for, if the text is a name and
    there can be one. -/
def lookedFor (text : String) : Except RefFault String :=
  match RefName.find? text with
  | none => .error (.badName text)
  | some name =>
    if !RefName.fits name.text then .error (.longName text)
    else if !RefName.isStorable name.text then .error (.longSegment text)
    else .ok name.text

/-- What the reference of a name leads to. -/
def resolve (text : String) : Except RefFault Lead := do
  let name ← lookedFor text
  repository.follow maxChain name (← repository.ref name)

/-- The ending of the names of files that are not finished. -/
def unfinished : String := ".lock"

/-- The names of the references in a place, those that are kept one by one
    before those of the table. What is no reference is passed over. -/
def namesIn (place : String) : List String :=
  let isIn (ref : String × Target) : Bool := place.toList.isPrefixOf ref.1.toList
  let isKept (ref : String × Target) : Bool :=
    match ref.2 with
    | .garbled _ => false
    | .hash _ _ | .name _ => !unfinished.toList.isSuffixOf ref.1.toList
  let kept := ((repository.refs.filter fun ref => isIn ref && isKept ref)).map (·.1)
  let others := ((repository.table.getD []).filter isIn).map (·.1)
  let inOrder (names : List String) := names.mergeSort fun a b => a ≤ b
  inOrder kept ++ inOrder (others.filter fun name => !kept.contains name)

/-- The names of the tags. -/
def tags : List String :=
  if repository.table.isNone then []
  else (repository.namesIn (tagRef "")).filterMap (behind? (tagRef ""))

end Repository

end ReleaseNotes
