import ReleaseNotes.Rendering

/-!
# Generation

From commits to a document. Each commit is labelled by its title as it was
committed, and shown with its title as reworded; then the labelled commits
are collected under their categories.

Labelling looks at the title before any rewording, so a title rule can change
what a reader sees but never where it stands. A commit that came with a label
keeps it.

The functions here take any rule set. Callers that want the faults of a rule
set reported first go through `RuleSet.checked`.

## Main definitions

* `RuleSet.entry`: A commit labelled, with the title it is shown with.
* `RuleSet.document`: The document for a list of commits.
* `RuleSet.notes`: The text for a list of commits.
* `RuleSet.checked`: A rule set that has been found faultless.
-/

namespace ReleaseNotes

namespace RuleSet

/-- A commit labelled by the rules, with the title it is shown with. -/
def entry (rules : RuleSet) (commit : Commit) : Entry where
  commit := (applyLabels rules.labelRules commit).1
  display := reword rules.titleRules commit.title

/-- The commits in their order, labelled and with the titles they are shown
    with. -/
def entries (rules : RuleSet) (commits : List Commit) : List Entry :=
  commits.map rules.entry

/-- The document for a list of commits. -/
def document (rules : RuleSet) (commits : List Commit) : Document :=
  .ofSections (collect rules.categories (rules.entries commits))

/-- The text for a list of commits. -/
def notes (rules : RuleSet) (commits : List Commit) : String :=
  (rules.document commits).render rules

/-- The rule set itself, unless it has a fault. -/
def checked (rules : RuleSet) : Except RuleFault RuleSet := do
  rules.check
  return rules

end RuleSet

end ReleaseNotes
