import ReleaseNotes.Proofs.Attempts
import ReleaseNotes.Proofs.Settings.Loading

/-!
# Rule Sets Spelled Out

A rule set written down in full is read back as it is.

Every record of a configuration has two forms, a table with the fields by their
names and an array with the fields in their declared order, and which one is
taken can be decided for each record by itself. `Forms` makes that choice: for the
rule set, for the rules for contributors, and for each of the label rules,
categories and title rules by its place.

Nothing is left out when a rule set is spelled out, so no standard rule comes in.
What has to be shown of a record is that the value of each field is found under
its name. In a table that needs names that differ, and in an array the same, since
a name is looked up by its place among the names. `Record.read_write` says it for
both forms at once; for a record in particular it remains to see that each field is
written with the value that its reader gives back.

## Main definitions

* `Form`, `Forms`: The forms of a record, and of all records of a rule set.
* `Record.write`: A record written down.
* `RuleSet.spelled`: A rule set written down with all its fields.

## Theorems

* `Record.read_table_eq_ok_iff`, `Record.read_array_eq_ok_iff`: When a record is read,
  and which fields it has.
* `Record.read_write`: The fields of a record that was written down are found
  again.
* `readList_write`: A list that was written down is read back.
* `readRuleSet_write`: A rule set that was written down is read back.
* `RuleSet.ofEntries_spelled`: What comes of a configuration that spells out a
  rule set.
-/

namespace ReleaseNotes

namespace Toml

/-- The forms in which a record is written: with its fields by their names, or in
    their declared order. -/
inductive Form where
  | table
  | array
deriving DecidableEq, Repr

theorem checking_eq_ok_iff {α : Type} {reader : Reader α} {value : Value} {done : Unit} :
    checking reader value = .ok done ↔ ∃ a, reader value = .ok a := by
  unfold checking
  cases reader value with
  | error fault => exact ⟨nofun, nofun⟩
  | ok a => exact ⟨fun _ => ⟨a, rfl⟩, fun _ => rfl⟩

theorem mem_of_lookup {β : Type} {entries : List (String × β)} {name : String} {value : β}
    (h : entries.lookup name = some value) : (name, value) ∈ entries := by
  rcases List.lookup_eq_some_iff.1 h with ⟨front, back, rfl, -⟩
  exact List.mem_append_right _ List.mem_cons_self

/-- An entry is found under its name if no other one has the name. -/
theorem lookup_of_mem {β : Type} {entries : List (String × β)} {entry : String × β}
    (hnodup : (entries.map (·.1)).Nodup) (h : entry ∈ entries) :
    entries.lookup entry.1 = some entry.2 := by
  induction entries with
  | nil => cases h
  | cons first rest ih =>
      rw [List.map_cons, List.nodup_cons] at hnodup
      rcases List.mem_cons.1 h with rfl | h
      · exact List.lookup_cons_self
      · have hne : entry.1 ≠ first.1 := by
          intro heq
          exact hnodup.1 (heq ▸ List.mem_map_of_mem h)
        rw [List.lookup_cons, beq_false_of_ne hne]
        exact ih hnodup.2 h

namespace Record

/-- A record written down, with these values for its fields in their declared
    order. -/
def write (record : Record) (form : Form) (values : List Value) : Value :=
  match form with
  | .table => .table (record.names.zip values)
  | .array => .array values

variable {record : Record} {values : List Value}

/-- A table is read if each of its entries is sound, and its fields are the entries. -/
theorem read_table_eq_ok_iff {entries : Entries} {fields : Fields} :
    record.read (.table entries) = .ok fields ↔
      (∀ entry ∈ entries, record.checkEntry entry = .ok ()) ∧
        ⟨fun name => entries.lookup name, .missingField⟩ = fields := by
  rw [← forM_eq_ok_iff, read]
  cases entries.forM record.checkEntry with
  | error fault => exact ⟨nofun, nofun⟩
  | ok done => exact ⟨fun h => ⟨rfl, Except.ok.inj h⟩, fun h => congrArg Except.ok h.2⟩

/-- An array is read if each item that stands for a field is sound, and its fields are
    the items at their positions. -/
theorem read_array_eq_ok_iff {items : List Value} {fields : Fields} :
    record.read (.array items) = .ok fields ↔
      (∀ field ∈ record.fields.zip items, field.1.2 field.2 = .ok ()) ∧
        ⟨fun name => items[record.position name]?,
          fun name => .tooShort (record.position name) record.name record.fields.length⟩ =
            fields := by
  rw [← forM_eq_ok_iff, read]
  cases (record.fields.zip items).forM fun field => field.1.2 field.2 with
  | error fault => exact ⟨nofun, nofun⟩
  | ok done => exact ⟨fun h => ⟨rfl, Except.ok.inj h⟩, fun h => congrArg Except.ok h.2⟩

/-- The fields of a record that was written down are found again under their
    names, if each of them passes its own check. -/
theorem read_write (hnames : record.names.Nodup)
    (hlength : values.length = record.fields.length)
    (hvalues : ∀ field ∈ record.fields.zip values, field.1.2 field.2 = .ok ()) (form : Form) :
    ∃ fields, record.read (record.write form values) = .ok fields ∧
      ∀ entry ∈ record.names.zip values, fields.get entry.1 = some entry.2 := by
  cases form with
  | table =>
      -- The keys of the table are the names, so none of them hides another.
      have hkeys : ((record.names.zip values).map (·.1)).Nodup := by
        rwa [← List.unzip_fst, List.unzip_zip_left (by simp [names, hlength])]
      have hcheck : ∀ entry ∈ record.names.zip values, record.checkEntry entry = .ok () := by
        intro entry hentry
        rw [names, List.zip_map_left] at hentry
        obtain ⟨field, hfield, rfl⟩ := List.mem_map.1 hentry
        have hlookup := lookup_of_mem hnames (List.of_mem_zip hfield).1
        rw [checkEntry]
        exact hlookup ▸ hvalues field hfield
      exact ⟨_, read_table_eq_ok_iff.2 ⟨hcheck, rfl⟩, fun entry hentry =>
        lookup_of_mem hkeys hentry⟩
  | array =>
      refine ⟨_, read_array_eq_ok_iff.2 ⟨hvalues, rfl⟩, fun entry hentry => ?_⟩
      -- A name that is there once stands at the position that is looked up.
      obtain ⟨i, hi, rfl⟩ := List.mem_iff_getElem.1 hentry
      rw [List.length_zip, Nat.lt_min] at hi
      rw [List.getElem_zip]
      show values[record.position record.names[i]]? = some values[i]
      rw [position, hnames.idxOf_getElem, List.getElem?_eq_getElem hi.2]

end Record

namespace Fields

variable {α : Type} {fields : Fields} {name : String} {value : Value}

theorem required_of_get (h : fields.get name = some value) (reader : Reader α) :
    fields.required name reader = reader value := by
  rw [required, h]

theorem optional_of_get (h : fields.get name = some value) (reader : Reader α) (standard : α) :
    fields.optional name reader standard = reader value := by
  rw [optional, h]

end Fields

/-- A list written down, each item in the form for its place. -/
def writeList {α : Type} (write : Form → α → Value) (forms : Nat → Form) (list : List α) : Value :=
  .array (list.mapIdx fun i => write (forms i))

theorem readList_write {α : Type} {reader : Reader α} {write : Form → α → Value}
    (h : ∀ form a, reader (write form a) = .ok a) (forms : Nat → Form) (list : List α) :
    readList reader (writeList write forms list) = .ok list := by
  show (list.mapIdx fun i => write (forms i)).mapM reader = .ok list
  -- The rest of a list is written in the forms for the places from the second on.
  induction list generalizing forms with
  | nil => rfl
  | cons a rest ih =>
      rw [List.mapIdx_cons, List.mapM_cons, h, ih fun i => forms (i + 1)]
      rfl

end Toml

namespace Settings

open Toml

/-- A label rule written down. -/
def writeLabelRule (form : Form) (rule : LabelRule) : Value :=
  labelRuleRecord.write form [.string rule.label, .string rule.opening]

/-- A title rule written down. -/
def writeTitleRule (form : Form) (rule : TitleRule) : Value :=
  titleRuleRecord.write form [.string rule.search, .string rule.replacement]

/-- A set of labels written down in its order. -/
def writeLabels (labels : LabelSet) : Value :=
  .array (labels.toList.map .string)

/-- A category written down. -/
def writeCategory (form : Form) (category : Category) : Value :=
  categoryRecord.write form
    [.string category.key, .string category.title, writeLabels category.labels,
      .integer category.order]

/-- The rules for contributors written down. -/
def writeContributorRules (form : Form) (rules : ContributorRules) : Value :=
  contributorRecord.write form [.boolean rules.enabled, .string rules.title, .string rules.format]

/-- The form of each record of a rule set: of the whole, of the rules for
    contributors, and of the members of each list by their places. -/
structure Forms where
  ruleSet : Form
  contributors : Form
  labelRules : Nat → Form
  categories : Nat → Form
  titleRules : Nat → Form

/-- A rule set written down. -/
def writeRuleSet (forms : Forms) (rules : RuleSet) : Value :=
  ruleSetRecord.write forms.ruleSet
    [.string rules.entryFormat, .string rules.headingFormat,
      writeContributorRules forms.contributors rules.contributors,
      writeList writeLabelRule forms.labelRules rules.labelRules,
      writeList writeCategory forms.categories rules.categories,
      writeList writeTitleRule forms.titleRules rules.titleRules]

theorem readLabelRule_write (form : Form) (rule : LabelRule) :
    readLabelRule (writeLabelRule form rule) = .ok rule := by
  have hvalues : ∀ field ∈ labelRuleRecord.fields.zip [.string rule.label, .string rule.opening],
      field.1.2 field.2 = .ok () := by
    simp [labelRuleRecord, checking, readText, Except.map]
  obtain ⟨fields, hread, hget⟩ := Record.read_write (by decide) rfl hvalues form
  have hlabel := hget ("label", .string rule.label) (by simp [Record.names, labelRuleRecord])
  have hopening := hget ("title", .string rule.opening) (by simp [Record.names, labelRuleRecord])
  simp only [readLabelRule, writeLabelRule, hread, ok_bind, Fields.required_of_get hlabel,
    Fields.required_of_get hopening, readText]
  rfl

theorem readTitleRule_write (form : Form) (rule : TitleRule) :
    readTitleRule (writeTitleRule form rule) = .ok rule := by
  have hvalues : ∀ field ∈ titleRuleRecord.fields.zip
      [.string rule.search, .string rule.replacement], field.1.2 field.2 = .ok () := by
    simp [titleRuleRecord, checking, readText, Except.map]
  obtain ⟨fields, hread, hget⟩ := Record.read_write (by decide) rfl hvalues form
  have hsearch := hget ("search", .string rule.search) (by simp [Record.names, titleRuleRecord])
  have hreplacement := hget ("replace", .string rule.replacement)
    (by simp [Record.names, titleRuleRecord])
  simp only [readTitleRule, writeTitleRule, hread, ok_bind, Fields.required_of_get hsearch,
    Fields.optional_of_get hreplacement, readText]
  rfl

theorem readLabels_write (labels : LabelSet) : readLabels (writeLabels labels) = .ok labels := by
  have hlist : readList readText (writeLabels labels) = .ok labels.toList := by
    show (labels.toList.map Value.string).mapM readText = .ok labels.toList
    induction labels.toList with
    | nil => rfl
    | cons label rest ih =>
        rw [List.map_cons, List.mapM_cons, ih]
        rfl
  rw [readLabels, hlist, ok_bind, LabelSet.ofList_toList]
  rfl

theorem readCategory_write (form : Form) (category : Category) :
    readCategory (writeCategory form category) = .ok category := by
  have hvalues : ∀ field ∈ categoryRecord.fields.zip
      [.string category.key, .string category.title, writeLabels category.labels,
        .integer category.order], field.1.2 field.2 = .ok () := by
    simp [categoryRecord, checking, readText, readInteger, readLabels_write, Except.map]
  obtain ⟨fields, hread, hget⟩ := Record.read_write (by decide) rfl hvalues form
  have hkey := hget ("key", .string category.key) (by simp [Record.names, categoryRecord])
  have htitle := hget ("title", .string category.title) (by simp [Record.names, categoryRecord])
  have hlabels := hget ("labels", writeLabels category.labels)
    (by simp [Record.names, categoryRecord])
  have horder := hget ("order", .integer category.order) (by simp [Record.names, categoryRecord])
  simp only [readCategory, writeCategory, hread, ok_bind, Fields.required_of_get hkey,
    Fields.required_of_get htitle, Fields.optional_of_get hlabels, Fields.required_of_get horder,
    readText, readLabels_write, readInteger]
  rfl

theorem readContributorRules_write (form : Form) (rules : ContributorRules) :
    readContributorRules (writeContributorRules form rules) = .ok rules := by
  have hvalues : ∀ field ∈ contributorRecord.fields.zip
      [.boolean rules.enabled, .string rules.title, .string rules.format],
      field.1.2 field.2 = .ok () := by
    simp [contributorRecord, checking, readText, readBoolean, Except.map]
  obtain ⟨fields, hread, hget⟩ := Record.read_write (by decide) rfl hvalues form
  have henabled := hget ("enabled", .boolean rules.enabled)
    (by simp [Record.names, contributorRecord])
  have htitle := hget ("title", .string rules.title) (by simp [Record.names, contributorRecord])
  have hformat := hget ("format", .string rules.format) (by simp [Record.names, contributorRecord])
  simp only [readContributorRules, writeContributorRules, hread, ok_bind,
    Fields.optional_of_get henabled, Fields.optional_of_get htitle,
    Fields.optional_of_get hformat, readBoolean, readText]
  rfl

/-- A rule set that was written down is read back, whatever forms were taken. -/
theorem readRuleSet_write (forms : Forms) (rules : RuleSet) :
    readRuleSet (writeRuleSet forms rules) = .ok rules := by
  have hlabelRules := readList_write readLabelRule_write forms.labelRules rules.labelRules
  have hcategories := readList_write readCategory_write forms.categories rules.categories
  have htitleRules := readList_write readTitleRule_write forms.titleRules rules.titleRules
  have hcontributors := readContributorRules_write forms.contributors rules.contributors
  have hvalues : ∀ field ∈ ruleSetRecord.fields.zip
      [.string rules.entryFormat, .string rules.headingFormat,
        writeContributorRules forms.contributors rules.contributors,
        writeList writeLabelRule forms.labelRules rules.labelRules,
        writeList writeCategory forms.categories rules.categories,
        writeList writeTitleRule forms.titleRules rules.titleRules],
      field.1.2 field.2 = .ok () := by
    simp [ruleSetRecord, checking, readText, hcontributors, hlabelRules, hcategories, htitleRules,
      Except.map]
  obtain ⟨fields, hread, hget⟩ := Record.read_write (by decide) rfl hvalues forms.ruleSet
  obtain ⟨hentry, hheading, hcontributor, hlabel, hcategory, htitle⟩ :
      fields.get "format" = some (.string rules.entryFormat) ∧
      fields.get "category_title_format" = some (.string rules.headingFormat) ∧
      fields.get "contributors" =
        some (writeContributorRules forms.contributors rules.contributors) ∧
      fields.get "labelers" = some (writeList writeLabelRule forms.labelRules rules.labelRules) ∧
      fields.get "categories" = some (writeList writeCategory forms.categories rules.categories) ∧
      fields.get "replacers" =
        some (writeList writeTitleRule forms.titleRules rules.titleRules) := by
    simpa [Record.names, ruleSetRecord] using hget
  simp only [readRuleSet, writeRuleSet, hread, ok_bind, Fields.optional_of_get hentry,
    Fields.optional_of_get hheading, Fields.optional_of_get hcontributor,
    Fields.optional_of_get hlabel, Fields.optional_of_get hcategory,
    Fields.optional_of_get htitle, readText, hcontributors, hlabelRules, hcategories, htitleRules]
  rfl

/-- The reader of a whole configuration, as of any other value. -/
def readWhole : Reader RuleSet := fun value => do
  let fields ← settingsRecord.read value
  fields.optional "changelog" readRuleSet RuleSet.standard

end Settings

/-- A rule set written down with all its fields, as a whole configuration. -/
def RuleSet.spelled (forms : Settings.Forms) (rules : RuleSet) : Toml.Entries :=
  [("changelog", Settings.writeRuleSet forms rules)]

/-- A configuration that spells out a rule set yields that rule set, and the fault
    of the rule set if it has one. -/
theorem RuleSet.ofEntries_spelled (forms : Settings.Forms) (rules : RuleSet) :
    RuleSet.ofEntries (rules.spelled forms) =
      match rules.check with
      | .ok () => .ok rules
      | .error fault => .error (.rules fault) := by
  have hread : Settings.readSettings (rules.spelled forms) = .ok rules := by
    have hrules := Settings.readRuleSet_write forms rules
    have hvalues : ∀ field ∈ Settings.settingsRecord.fields.zip
        [Settings.writeRuleSet forms rules], field.1.2 field.2 = .ok () := by
      simp [Settings.settingsRecord, Toml.checking_eq_ok_iff, hrules]
    obtain ⟨fields, hfields, hget⟩ := Toml.Record.read_write (by decide) rfl hvalues .table
    have hchangelog := hget ("changelog", Settings.writeRuleSet forms rules)
      (by simp [Toml.Record.names, Settings.settingsRecord])
    have hentries : Settings.settingsRecord.read (.table (rules.spelled forms)) = .ok fields :=
      hfields
    rw [Settings.readSettings, hentries, ok_bind, Toml.Fields.optional_of_get hchangelog]
    exact hrules
  rw [RuleSet.ofEntries_eq, hread]
  cases hcheck : rules.check <;> simp only [hcheck]

end ReleaseNotes
