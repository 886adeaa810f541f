import ReleaseNotes.RuleSet
import ReleaseNotes.Toml.Record
import ReleaseNotes.Toml.Text

/-!
# Settings

How a rule set is written down in a configuration text.

Everything stands under the one entry `changelog`. Each field of a rule set
has an entry of its own there, and one that is left out means the standard
rule. A category must have a key, a title and an order; without labels it
takes in nothing. A label rule must have both its fields, and a title rule
without a replacement deletes what it finds.

Texts are read in three stages, and a fault of an earlier stage hides those of
the later ones: the notation, the form of the values, and the rules
themselves.

## Main definitions

* `readRuleSet`: A rule set out of the value under `changelog`.
* `readSettings`: A rule set out of a whole configuration.
* `SettingsFault`: What can be wrong with a configuration text.
* `RuleSet.ofText`: A faultless rule set out of a configuration text.
-/

namespace ReleaseNotes

namespace Settings

open Toml

/-- The form of a label rule. -/
def labelRuleRecord : Record where
  name := "LabelRule"
  fields := [("label", checking readText), ("title", checking readText)]

/-- A label rule. -/
def readLabelRule : Reader LabelRule := fun value => do
  let fields ← labelRuleRecord.read value
  let label ← fields.required "label" readText
  let opening ← fields.required "title" readText
  return { label, opening }

/-- The form of a title rule. -/
def titleRuleRecord : Record where
  name := "ReplacementRule"
  fields := [("search", checking readText), ("replace", checking readText)]

/-- A title rule. -/
def readTitleRule : Reader TitleRule := fun value => do
  let fields ← titleRuleRecord.read value
  let search ← fields.required "search" readText
  let replacement ← fields.optional "replace" readText ""
  return { search, replacement }

/-- A set of labels, written as a list. -/
def readLabels : Reader LabelSet := fun value => do
  return .ofList (← readList readText value)

/-- The form of a category. -/
def categoryRecord : Record where
  name := "Category"
  fields := [("key", checking readText), ("title", checking readText),
    ("labels", checking readLabels), ("order", checking readInteger)]

/-- A category. -/
def readCategory : Reader Category := fun value => do
  let fields ← categoryRecord.read value
  let key ← fields.required "key" readText
  let title ← fields.required "title" readText
  let labels ← fields.optional "labels" readLabels .empty
  let order ← fields.required "order" readInteger
  return { key, title, labels, order }

/-- The form of the rules for contributors. -/
def contributorRecord : Record where
  name := "ContributorsConfig"
  fields := [("enabled", checking readBoolean), ("title", checking readText),
    ("format", checking readText)]

/-- The rules for contributors. -/
def readContributorRules : Reader ContributorRules := fun value => do
  let fields ← contributorRecord.read value
  let enabled ← fields.optional "enabled" readBoolean ContributorRules.standard.enabled
  let title ← fields.optional "title" readText ContributorRules.standard.title
  let format ← fields.optional "format" readText ContributorRules.standard.format
  return { enabled, title, format }

/-- The form of a rule set. -/
def ruleSetRecord : Record where
  name := "ChangelogConfig"
  fields := [("format", checking readText), ("category_title_format", checking readText),
    ("contributors", checking readContributorRules),
    ("labelers", checking (readList readLabelRule)),
    ("categories", checking (readList readCategory)),
    ("replacers", checking (readList readTitleRule))]

/-- A rule set out of the value under `changelog`. -/
def readRuleSet : Reader RuleSet := fun value => do
  let fields ← ruleSetRecord.read value
  let standard := RuleSet.standard
  let entryFormat ← fields.optional "format" readText standard.entryFormat
  let headingFormat ← fields.optional "category_title_format" readText standard.headingFormat
  let contributors ← fields.optional "contributors" readContributorRules standard.contributors
  let labelRules ← fields.optional "labelers" (readList readLabelRule) standard.labelRules
  let categories ← fields.optional "categories" (readList readCategory) standard.categories
  let titleRules ← fields.optional "replacers" (readList readTitleRule) standard.titleRules
  return { entryFormat, headingFormat, contributors, labelRules, categories, titleRules }

/-- The form of a whole configuration. -/
def settingsRecord : Record where
  name := "Config"
  fields := [("changelog", checking readRuleSet)]

/-- A rule set out of a whole configuration. -/
def readSettings (entries : Entries) : Except SchemaFault RuleSet := do
  let fields ← settingsRecord.read (.table entries)
  fields.optional "changelog" readRuleSet RuleSet.standard

end Settings

/-- What can be wrong with a configuration text. -/
inductive SettingsFault where
  /-- The text is against the notation. -/
  | unreadable
  /-- A value has not the form it should have. -/
  | schema (fault : Toml.SchemaFault)
  /-- The rules that are written down make no sense. -/
  | rules (fault : RuleFault)
deriving DecidableEq, Repr

/-- A faultless rule set out of the entries of a configuration. -/
def RuleSet.ofEntries (entries : Toml.Entries) : Except SettingsFault RuleSet := do
  let rules ← (Settings.readSettings entries).mapError .schema
  rules.check.mapError .rules
  return rules

/-- A faultless rule set out of a configuration text. -/
def RuleSet.ofText (text : String) : Except SettingsFault RuleSet := do
  match Toml.parse text with
  | none => .error .unreadable
  | some entries => RuleSet.ofEntries entries

end ReleaseNotes
