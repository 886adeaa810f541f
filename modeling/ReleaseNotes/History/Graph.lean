import ReleaseNotes.History.Heap

/-!
# Commit Graphs

The commits of a repository and their parents.

A commit names the commits it was made from, and those existed before it. A
finite history can therefore be listed so that every commit stands behind its
parents, and `History` is such a list together with the fact that it is one.
That no commit is its own ancestor needs no further condition, and a sweep over
the list from its end comes to a commit when it has passed all that could lead
to it.

Commits are spoken of by their positions in the list. A position belongs to a
history by its type, so it always leads to a commit. Outside, commits are
named by their hashes, and parents too. The hash of a commit stands for all it
says, so a history holds no hash twice, and a commit that is added once more
changes nothing.

A parent that is named may not be there, or its text may not have the form of
a commit. It is no part of the history then, and the commit that names it
records why. Such a commit has a gap, and going past it is a fault.

The order in which commits are shown is that of `walk`. Of a set of commits,
those are ready that no commit still waiting has as a parent; the latest of
them comes next. Taking it out of the set makes at most some of its own
parents ready, and only those are looked at again. The ready ones are kept in
a heap, and it depends on the places they have come to there which one of
those with the same time comes first.

## Main definitions

* `ReadFault`: Why an object cannot be read.
* `CommitContent`: What a commit says.
* `CommitRecord`: A commit in its history.
* `History`: Commits, each behind its parents.
* `History.add`: A history with one more commit.
* `History.gap?`: Why the parents of a commit cannot be read.
* `History.walk`: A set of commits, the latest first.
-/

namespace ReleaseNotes

/-- What is wrong with a line about a person and a time. -/
inductive SignatureFault where
  /-- The line does not end. -/
  | endless
  /-- The line is about something else. -/
  | otherWord
  /-- There is no address in the line. -/
  | badAddress
  /-- What stands for the time is no number. -/
  | badTime
deriving DecidableEq, Repr

/-- Why an object cannot be read. -/
inductive ReadFault where
  /-- There is no object with this hash. -/
  | missing (hash : String)
  /-- The hash is zero, which no object has. -/
  | zeroHash
  | signature (fault : SignatureFault)
  /-- The text of the object does not have the form of its kind. -/
  | badText (kind : String)
  /-- The object is no commit. -/
  | notCommit
  /-- What is kept in the place of the object is no object. -/
  | garbled
deriving DecidableEq, Repr

/-- What a commit says. Its tree and its parents are named by their hashes.
    Name and message are bytes, since nothing makes sure that they are
    text. -/
structure CommitContent where
  tree : String
  parents : List String
  time : Int
  author : ByteArray
  message : ByteArray

/-- A parent as it is recorded: a position in the history, or the reason why
    the commit that is named there cannot be read. -/
inductive Parent where
  | at (position : Nat)
  | unreadable (fault : ReadFault)
deriving DecidableEq, Repr

/-- A commit in its history. -/
structure CommitRecord where
  hash : String
  tree : String
  parents : List Parent
  time : Int
  author : ByteArray
  message : ByteArray

namespace CommitRecord

/-- The bytes in front of a zero byte. -/
def untilZero (bytes : List UInt8) : List UInt8 :=
  bytes.takeWhile (· != 0)

/-- The message as far as it is read, without the line ends in front of it. -/
def visibleMessage (record : CommitRecord) : ByteArray :=
  ((untilZero record.message.toList).dropWhile (· == 10)).toByteArray

end CommitRecord

/-- Every commit of the list stands behind its parents. -/
def ParentsFirst (records : Array CommitRecord) : Prop :=
  ∀ i : Fin records.size, ∀ p, Parent.at p ∈ records[i].parents → p < i.val

/-- Commits in an order in which each of them stands behind its parents. No
    two of them have the same hash. -/
structure History where
  records : Array CommitRecord
  ordered : ParentsFirst records
  distinct : (records.toList.map (·.hash)).Nodup

namespace History

/-- The number of commits. -/
abbrev size (history : History) : Nat := history.records.size

/-- A commit, by its position in the history. -/
abbrev Position (history : History) := Fin history.size

/-- The history without commits. -/
def empty : History := ⟨#[], fun i => i.elim0, .nil⟩

instance : Inhabited History := ⟨empty⟩

variable (history : History)

/-- The commit at a position. -/
def record (i : history.Position) : CommitRecord := history.records[i]

/-- The position with this number, if there is one. -/
def position? (i : Nat) : Option history.Position :=
  if h : i < history.size then some ⟨i, h⟩ else none

/-- The parents of a commit, each as a position or with the reason why it
    cannot be read. -/
def links (i : history.Position) : List (Except ReadFault history.Position) :=
  (history.record i).parents.filterMap fun
    | .at p => (history.position? p).map .ok
    | .unreadable fault => some (.error fault)

/-- The parents of a commit that can be read. -/
def parents (i : history.Position) : List history.Position :=
  (history.links i).filterMap Except.toOption

/-- Why the parents of a commit cannot be read, if one of them cannot. -/
def gap? (i : history.Position) : Option ReadFault :=
  (history.links i).findSome? fun
    | .ok _ => none
    | .error fault => some fault

/-- The position of the commit with this hash, if there is one. -/
def ofHash? (hash : String) : Option history.Position :=
  (List.finRange history.size).find? fun i => (history.record i).hash == hash

/-- A commit as it is recorded behind the commits of a history, given why
    those are not there that are not. -/
def recordOf (reason : String → ReadFault) (hash : String) (content : CommitContent) :
    CommitRecord where
  hash
  tree := content.tree
  parents := content.parents.map fun parent =>
    match history.ofHash? parent with
    | some i => .at i.val
    | none => .unreadable (reason parent)
  time := content.time
  author := content.author
  message := content.message

theorem parentsFirst_push {records : Array CommitRecord} {record : CommitRecord}
    (h : ParentsFirst records)
    (hrecord : ∀ p, Parent.at p ∈ record.parents → p < records.size) :
    ParentsFirst (records.push record) := by
  rintro ⟨i, hi⟩ p hp
  by_cases hlt : i < records.size
  · refine h ⟨i, hlt⟩ p ?_
    simpa [Array.getElem_push_lt hlt] using hp
  · have heq : i = records.size := by
      simp only [Array.size_push] at hi
      omega
    subst heq
    exact hrecord p (by simpa using hp)

theorem lt_size_of_mem_recordOf {reason : String → ReadFault} {hash : String}
    {content : CommitContent} {p : Nat}
    (h : Parent.at p ∈ (history.recordOf reason hash content).parents) : p < history.size := by
  simp only [recordOf, List.mem_map] at h
  obtain ⟨parent, -, hparent⟩ := h
  split at hparent
  · injection hparent with hp
    omega
  · cases hparent

/-- A history with one more commit. One that is there already is not added
    again. -/
def add (reason : String → ReadFault) (hash : String) (content : CommitContent) : History :=
  if h : hash ∈ history.records.toList.map (·.hash) then history
  else
    { records := history.records.push (history.recordOf reason hash content)
      ordered := parentsFirst_push history.ordered fun _ => history.lt_size_of_mem_recordOf
      distinct := by
        rw [Array.toList_push, List.map_append, List.nodup_append]
        refine ⟨history.distinct, by simp, ?_⟩
        rintro a ha b hb rfl
        simp only [List.map_cons, List.map_nil, List.mem_singleton, recordOf] at hb
        exact h (hb ▸ ha) }

/-- The history of a list of commits with their hashes, each behind those of
    its parents that can be read. -/
def ofList (reason : String → ReadFault) (commits : List (String × CommitContent)) : History :=
  commits.foldl (fun history commit => history.add reason commit.1 commit.2) empty

/-- No commit that is waiting has this one as a parent. -/
def isReady (waiting : List history.Position) (i : history.Position) : Bool :=
  waiting.all fun j => !(history.parents j).contains i

/-- The time of a commit, by which the ready ones are ranked. -/
def time (i : history.Position) : Int := (history.record i).time

/-- The parents of a commit that are waiting and have become ready. One that is
    named more than once becomes ready where it is named last. -/
def freed (waiting : List history.Position) (i : history.Position) :
    List history.Position :=
  ((history.parents i).filter fun p =>
    waiting.contains p && history.isReady waiting p).reverse.eraseDups.reverse

/-- The commits that are waiting in the order of a walk, at most `count` of
    them. The ready ones among them are in a heap. -/
def walkFrom : (count : Nat) → (waiting : List history.Position) →
    (ready : Array history.Position) → List history.Position
  | 0, _, _ => []
  | count + 1, waiting, ready =>
    match Heap.pop? history.time ready with
    | none => []
    | some (i, others) =>
      let rest := waiting.erase i
      i :: walkFrom count rest (Heap.pushAll history.time others (history.freed rest i))

/-- A set of commits in the order in which they are shown: each before its
    parents, and of those that can come next the latest first. -/
def walk (commits : List history.Position) : List history.Position :=
  history.walkFrom commits.length commits
    (Heap.pushAll history.time #[] (commits.filter (history.isReady commits)))

end History

end ReleaseNotes
