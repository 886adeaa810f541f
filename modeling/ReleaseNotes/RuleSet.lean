import ReleaseNotes.LabelRule
import ReleaseNotes.TitleRule
import ReleaseNotes.Template

/-!
# Rule Sets

Everything that decides what the notes for given commits look like: how
commits get their labels, which categories there are, how titles are
reworded, and the templates of the lines.

A rule set can be written down that makes no sense. Two categories with the
same number have no order, and two with the same key cannot be told apart, so
such a set is refused rather than read in some way. `check` goes through the
categories in the order they are declared and looks back at the earlier ones.
For each category the number is looked at first; the fault names the first
repetition that this order of looking finds.

What a user does not say is taken from `RuleSet.standard`, which knows the
five openings of conventional commit titles.

## Main definitions

* `ContributorRules`: Whether and how contributors are listed.
* `RuleSet`: All rules together.
* `RuleSet.standard`: The rules that hold when nothing is said.
* `RuleSet.check`: The fault of a rule set, if it has one.
* `RuleSet.sortedCategories`: The categories in the order of their numbers.
-/

namespace ReleaseNotes

/-- Whether contributors are listed, under which title, and how each of them
    is named. -/
structure ContributorRules where
  enabled : Bool
  title : String
  format : String
deriving DecidableEq, Repr

/-- The rules that decide what the notes look like. -/
structure RuleSet where
  /-- The template of an entry's line. -/
  entryFormat : String
  /-- The template of a category's heading. -/
  headingFormat : String
  contributors : ContributorRules
  labelRules : List LabelRule
  categories : List Category
  titleRules : List TitleRule
deriving DecidableEq, Repr

/-- What can be wrong with the categories of a rule set. -/
inductive RuleFault where
  /-- Two categories, named by their keys, have the same number. -/
  | sharedOrder (order : Int) (first second : String)
  /-- Two categories have this key. -/
  | repeatedKey (key : String)
deriving DecidableEq, Repr

namespace ContributorRules

/-- Contributors are not listed, and if they were, by their bare names. -/
def standard : ContributorRules where
  enabled := false
  title := "## Contributors"
  format := slot "contributorName"

end ContributorRules

namespace RuleSet

/-- The openings of conventional commit titles, with their labels. -/
def standardLabelRules : List LabelRule :=
  [⟨"feature", "feat:"⟩, ⟨"bug", "fix:"⟩, ⟨"task", "chore:"⟩, ⟨"task", "ci:"⟩,
   ⟨"doc", "docs:"⟩]

/-- One category for each label of `standardLabelRules`. -/
def standardCategories : List Category :=
  [⟨"feature", "🚀 New Features", .ofList ["feature"], 1⟩,
   ⟨"bug", "🐞 Bug Fixes", .ofList ["bug"], 2⟩,
   ⟨"task", "🔨 Tasks", .ofList ["task"], 3⟩,
   ⟨"doc", "📔 Docs", .ofList ["doc"], 4⟩]

/-- The openings that have become a label are dropped from the titles. -/
def standardTitleRules : List TitleRule :=
  [⟨"feat: ", ""⟩, ⟨"fix: ", ""⟩, ⟨"chore: ", ""⟩, ⟨"ci: ", ""⟩, ⟨"docs: ", ""⟩]

/-- The template of an entry's line when none is given. -/
def standardEntryFormat : String :=
  "- " ++ slot "commitShortHash" ++ " " ++ slot "commitTitle"

/-- The template of a heading when none is given. -/
def standardHeadingFormat : String :=
  "## " ++ slot "categoryTitle"

/-- The rules that hold when nothing is said. -/
def standard : RuleSet where
  entryFormat := standardEntryFormat
  headingFormat := standardHeadingFormat
  contributors := .standard
  labelRules := standardLabelRules
  categories := standardCategories
  titleRules := standardTitleRules

/-- Looks for a fault in a list of categories, `earlier` being the ones that
    have been looked at. -/
def checkAfter (earlier : List Category) : List Category → Except RuleFault Unit
  | [] => .ok ()
  | category :: rest =>
    match earlier.find? (·.order == category.order) with
    | some first => .error (.sharedOrder category.order first.key category.key)
    | none =>
      if earlier.any (·.key == category.key) then .error (.repeatedKey category.key)
      else checkAfter (earlier ++ [category]) rest

/-- The first fault of a rule set, if it has one. -/
def check (rules : RuleSet) : Except RuleFault Unit :=
  checkAfter [] rules.categories

/-- The categories in the order of their numbers. -/
def sortedCategories (rules : RuleSet) : List Category :=
  rules.categories.mergeSort fun a b => a.order ≤ b.order

/-- The rules with the list of contributors switched on or off. -/
def listContributors (rules : RuleSet) (enabled : Bool) : RuleSet :=
  { rules with contributors := { rules.contributors with enabled } }

end RuleSet

end ReleaseNotes
