import ReleaseNotes.Commit

/-!
# Commit Ranges

The commits that a set of notes is about: those since a release, the latest
first.

A range says which tag it starts behind, if any, and which commit it was read
from. It need not come from a repository. One can be put together by hand,
which is how the rest of the library is used without one.

## Main definitions

* `CommitRange`: The commits since a release.
* `CommitRange.push`: A range with one more commit, behind the others.
-/

namespace ReleaseNotes

/-- The commits since a release, the latest first. Without a tag they are the
    whole history. `head` is the hash of the commit that was read from. -/
structure CommitRange where
  sinceTag : Option String := none
  head : String := ""
  commits : List Commit := []
deriving DecidableEq, Repr

namespace CommitRange

/-- The range without commits, of no repository. -/
def empty : CommitRange := {}

/-- The range with one more commit behind the others. -/
def push (range : CommitRange) (commit : Commit) : CommitRange :=
  { range with commits := range.commits ++ [commit] }

end CommitRange

end ReleaseNotes
