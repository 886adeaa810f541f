import ReleaseNotes.Notes

/-!
# Drafts

Rules and commits put together by hand, one change after the other.

A draft is a rule set beside a range of commits. Changes never fail and are
not checked as they are made: rules that make no sense on the way to rules that
do are nothing unusual. What a draft amounts to is asked of it afterwards, and
that is when faults are found.

A change that is about something that is not there, such as the order of a
category beyond the last one, changes nothing.

## Main definitions

* `Draft`: A rule set and a range of commits.
* `Draft.Change`: One change to a draft.
* `Draft.change`: A draft after a change.
* `Draft.notes`, `Draft.document`: What a draft amounts to.
-/

namespace ReleaseNotes

/-- A rule set and a range of commits, put together by hand. -/
structure Draft where
  rules : RuleSet := .standard
  range : CommitRange := .empty
deriving DecidableEq, Repr

namespace Draft

/-- One change to a draft. -/
inductive Change where
  | addCommit (commit : Commit)
  | sinceTag (tag : String)
  | head (hash : String)
  | clearRange
  | useRules (rules : RuleSet)
  | addCategory (category : Category)
  | dropCategory
  | reorder (index : Nat) (order : Int)
  | addLabelRule (rule : LabelRule)
  | addTitleRule (rule : TitleRule)
  | entryFormat (template : String)
  | headingFormat (template : String)
  | contributorTitle (title : String)
  | contributorFormat (template : String)
  | listContributors (enabled : Bool)
deriving DecidableEq, Repr

/-- The rules after a change. -/
def changeRules (rules : RuleSet) : Change → RuleSet
  | .useRules other => other
  | .addCategory category => { rules with categories := rules.categories ++ [category] }
  | .dropCategory => { rules with categories := rules.categories.dropLast }
  | .reorder index order =>
    { rules with
      categories := rules.categories.modify index fun category => { category with order } }
  | .addLabelRule rule => { rules with labelRules := rules.labelRules ++ [rule] }
  | .addTitleRule rule => { rules with titleRules := rules.titleRules ++ [rule] }
  | .entryFormat entryFormat => { rules with entryFormat }
  | .headingFormat headingFormat => { rules with headingFormat }
  | .contributorTitle title =>
    { rules with contributors := { rules.contributors with title } }
  | .contributorFormat format =>
    { rules with contributors := { rules.contributors with format } }
  | .listContributors enabled => rules.listContributors enabled
  | .addCommit _ | .sinceTag _ | .head _ | .clearRange => rules

/-- The range after a change. -/
def changeRange (range : CommitRange) : Change → CommitRange
  | .addCommit commit => range.push commit
  | .sinceTag tag => { range with sinceTag := some tag }
  | .head head => { range with head }
  | .clearRange => .empty
  | _ => range

/-- A draft after a change. -/
def change (draft : Draft) (change : Change) : Draft where
  rules := changeRules draft.rules change
  range := changeRange draft.range change

/-- The key of the category that was added last. -/
def lastKey (draft : Draft) : Option String :=
  draft.rules.categories.getLast?.map (·.key)

/-- The document of a draft, if its rules are faultless. -/
def document (draft : Draft) : Except RuleFault Document := do
  return (← draft.rules.checked).document draft.range.commits

/-- The notes of a draft, with the list of contributors if it is asked for. -/
def notes (draft : Draft) (contributors : Bool) : Except Fault Notes :=
  draft.rules.run (.ok draft.range) contributors

end Draft

end ReleaseNotes
