import ReleaseNotes.Commit

/-!
# Label Rules

How a commit gets its label. A rule names a label and the text that a title
has to start with; of a list of rules the first that fits decides.

The comparison is exact, character by character, so upper case and blanks
count. An empty opening fits every title. A title that no rule fits stays
without a label, and that is a normal outcome: such commits are simply not
mentioned in the notes.

A label that a commit already has is never replaced. `apply` therefore
reports whether it did assign one.

## Main definitions

* `LabelRule`: An opening of titles, and the label it stands for.
* `labelFor`: The label that a list of rules gives a title.
* `applyLabels`: A commit labelled by a list of rules.
* `Commit.Step`: One change to a commit.
* `Commit.take`: A commit after a step, and what the step reports.
-/

namespace ReleaseNotes

/-- Titles that start with `opening` are of the kind `label`. -/
structure LabelRule where
  label : String
  opening : String
deriving DecidableEq, Repr

/-- The title starts with the opening of the rule. -/
def LabelRule.fits (rule : LabelRule) (title : String) : Bool :=
  rule.opening.toList.isPrefixOf title.toList

/-- The label of the first rule that fits the title. -/
def labelFor (rules : List LabelRule) (title : String) : Option String :=
  (rules.find? (·.fits title)).map (·.label)

/-- The commit labelled by the first rule that fits its title, and whether a
    label was assigned. -/
def applyLabels (rules : List LabelRule) (commit : Commit) : Commit × Bool :=
  match labelFor rules commit.title with
  | some label => commit.assignLabel label
  | none => (commit, false)

namespace Commit

/-- One change to a commit. -/
inductive Step where
  /-- Assign this label. -/
  | assign (label : String)
  /-- Assign the label that these rules give. -/
  | labelBy (rules : List LabelRule)
  /-- Record this author. -/
  | author (name : String)
deriving DecidableEq, Repr

/-- The commit after a step. A step that assigns a label reports whether it
    did; recording an author reports nothing. -/
def take (commit : Commit) : Step → Commit × Option Bool
  | .assign label =>
    let (after, done) := commit.assignLabel label
    (after, some done)
  | .labelBy rules =>
    let (after, done) := applyLabels rules commit
    (after, some done)
  | .author name => (commit.withAuthor name, none)

/-- The commit after each of the steps in turn, with what each step reports. -/
def takeAll (commit : Commit) : List Step → List (Commit × Option Bool)
  | [] => []
  | step :: steps => commit.take step :: (commit.take step).1.takeAll steps

end Commit

end ReleaseNotes
