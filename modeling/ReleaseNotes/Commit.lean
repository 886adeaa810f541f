import ReleaseNotes.Text.Blank
import ReleaseNotes.Text.Line

/-!
# Commits

A commit as the notes see it: a hash, a title, perhaps an author, and perhaps
a label that says what kind of change it is.

Hash and title are given once. A label is given at most once, either by
whoever hands the commit in or by the first rule that fits, and a second
assignment changes nothing. An author can be set again, and the last setting
is the one that holds; a blank name is no author.

The three ways of changing a commit are also collected as a type, `Step`, so
that a whole history of changes can be spoken about. A step that tries to
assign a label reports whether it did.

## Main definitions

* `Commit`: A commit of the history, with its label.
* `Commit.ofMessage`: A commit from its whole message.
* `Commit.withAuthor`: Setting or clearing the author.
* `Commit.assignLabel`: Setting the label, once.
* `shortHash`: The first seven characters of a hash.

## Theorems

* `Commit.label_assignLabel`: A label that is there stays.
* `Commit.newline_notMem_ofMessage`: A title read off a message has no line
  feed in it.
-/

namespace ReleaseNotes

/-- The number of characters of a hash that are shown to readers. -/
def shortHashLength : Nat := 7

/-- A hash cut to the length that is shown to readers. -/
def shortHash (hash : String) : String :=
  String.ofList (hash.toList.take shortHashLength)

/-- A commit. The label names the kind of change, once that is known. -/
structure Commit where
  hash : String
  title : String
  author : Option String := none
  label : Option String := none
deriving DecidableEq, Repr

namespace Commit

/-- A commit whose title is the first line of its message. Without a message
    the title is empty. -/
def ofMessage (hash : String) (message : Option String) : Commit :=
  { hash, title := String.ofList (Text.firstLine (message.getD "").toList) }

/-- The commit with this author. A blank name leaves it without one. -/
def withAuthor (commit : Commit) (name : String) : Commit :=
  { commit with author := if Text.isBlank name then none else some name }

/-- The commit with this label, and whether the label was assigned. A commit
    that has a label keeps it. -/
def assignLabel (commit : Commit) (label : String) : Commit × Bool :=
  match commit.label with
  | some _ => (commit, false)
  | none => ({ commit with label := some label }, true)

theorem label_assignLabel (commit : Commit) (label : String) :
    (commit.assignLabel label).1.label = some (commit.label.getD label) := by
  unfold assignLabel
  split <;> simp_all

theorem newline_notMem_ofMessage (hash : String) (message : Option String) :
    '\n' ∉ (ofMessage hash message).title.toList := by
  simp only [ofMessage, String.toList_ofList]
  exact Text.newline_notMem_firstLine _

end Commit

end ReleaseNotes
