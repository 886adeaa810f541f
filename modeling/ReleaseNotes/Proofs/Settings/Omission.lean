import Mathlib.Tactic.MkIffOfInductiveProp
import ReleaseNotes.Proofs.Settings.Spelling

/-!
# Entries Left Out

What a configuration means without some of the entries that need not be given.

What is not said is taken from the standard rules, at each place for itself. A place
can be a field of the rule set or of the rules for contributors, either of these as a
whole, the labels of a category or the replacement of a title rule, and any number of
places can be left out at once.

A place is told by the steps that lead down to it, and an `Omission` is a set of places.
What is left out has to be there (`Value.Holds`). Where no categories are given, leaving
out the labels of the second one means nothing, and above all it does not mean the
second of the standard categories. A record that is written as an array has no entries,
so nothing is left out of it.

Readers are made of readers, and so is what they make of an omission. A reader `Keeps`
what is not left out if it still accepts what is left and yields what it yielded before,
but for a change that is told from the omission alone. Each way to make a reader comes
with a lemma that tells its change from those of the readers inside it. The one with an
argument in it is the reading of a record (`Record.read_without`): an entry that stays is
looked at with something left out inside it, and a field is found again unless it was
left out itself. The fields that must be given are never left out, and for one that need
not be given the standard is taken, as it is where the field was never there.

The rules are checked after they have been read, and they pass. Categories are left out
all together, and then the standard ones hold, which are without a fault; and labels are
nothing that the check looks at.

## Main definitions

* `Path`, `Omission`: A place inside a value, and a set of places.
* `Value.without`: A value without the entries at some places.
* `Value.Has`, `Value.Holds`: What is left out is there.
* `Keeps`: What a reader makes of a value with something left out.
* `Settings.Optional`: The entries that need not be given.
* `RuleSet.standardWhere`: Rules with the standard ones in some places.

## Theorems

* `Record.read_without`: The fields of a record with something left out.
* `Keeps.read`, `Keeps.readList`: How records and lists are read then.
* `keeps_readRuleSet`: What is read of a rule set.
* `RuleSet.ofEntries_without`: What a configuration means without some of its entries.
-/

namespace ReleaseNotes

namespace Toml

/-- A step down into a value: to the entry with a name, or to the item at an index. -/
inductive Step where
  | entry (name : String)
  | item (index : Nat)
deriving DecidableEq, Repr

/-- A place inside a value, told by the steps down to it. -/
abbrev Path := List Step

/-- The places at which something is left out. -/
abbrev Omission := Path → Bool

/-- The places at which something is left out inside what a step leads to. -/
def Omission.below (omitted : Omission) (step : Step) : Omission :=
  fun path => omitted (step :: path)

mutual

/-- A value without the entries at these places. Items of arrays stay, as those
    behind them would move. -/
def Value.without (omitted : Omission) : Value → Value
  | .table entries => .table (withoutEntries omitted entries)
  | .array items => .array (withoutItems omitted 0 items)
  | value => value

/-- Entries of a table without those at these places. -/
def withoutEntries (omitted : Omission) : Entries → Entries
  | [] => []
  | (name, value) :: rest =>
    -- Either the whole entry is left out, or what is left out inside it.
    if omitted [.entry name] then withoutEntries omitted rest
    else (name, value.without (omitted.below (.entry name))) :: withoutEntries omitted rest

/-- Items of an array from an index on, without the entries at these places. -/
def withoutItems (omitted : Omission) (start : Nat) : List Value → List Value
  | [] => []
  | value :: rest =>
    value.without (omitted.below (.item start)) :: withoutItems omitted (start + 1) rest

end

/-- There is something at this place of the value. Where a table has a name more than
    once, there is something at the place below each. -/
def Value.Has : Path → Value → Prop
  | [], _ => True
  | .entry name :: path, .table entries =>
    (∃ entry ∈ entries, entry.1 = name) ∧ ∀ entry ∈ entries, entry.1 = name → Has path entry.2
  | .item index :: path, .array items => ∃ item, items[index]? = some item ∧ Has path item
  | _ :: _, _ => False

/-- Nothing is left out that is not there. -/
def Value.Holds (value : Value) (omitted : Omission) : Prop :=
  ∀ path, omitted path = true → value.Has path

/-- Nothing is left out. -/
def Omission.nowhere : Omission :=
  fun _ => false

mutual

theorem without_nowhere : (value : Value) → value.without .nowhere = value
  | .table entries => by rw [Value.without, withoutEntries_nowhere entries]
  | .array items => by rw [Value.without, withoutItems_nowhere 0 items]
  | .string _ | .integer _ | .float _ | .boolean _ | .moment => by rw [Value.without] <;> nofun

theorem withoutEntries_nowhere : (entries : Entries) → withoutEntries .nowhere entries = entries
  | [] => by rw [withoutEntries]
  | (name, value) :: rest => by
    have hkept : ¬ Omission.nowhere [.entry name] = true := Bool.false_ne_true
    rw [withoutEntries, if_neg hkept, withoutEntries_nowhere rest]
    exact congrArg (fun value => (name, value) :: rest) (without_nowhere value)

theorem withoutItems_nowhere (start : Nat) :
    (items : List Value) → withoutItems .nowhere start items = items
  | [] => by rw [withoutItems]
  | value :: rest => by
    rw [withoutItems, withoutItems_nowhere (start + 1) rest]
    exact congrArg (· :: rest) (without_nowhere value)

end

section

variable {omitted : Omission} {value : Value} {entries : Entries} {items : List Value}

theorem below_eq_nowhere {step : Step} (h : ∀ path, omitted (step :: path) = false) :
    omitted.below step = .nowhere :=
  funext h

theorem mem_withoutEntries {entry : String × Value} (h : entry ∈ withoutEntries omitted entries) :
    omitted [.entry entry.1] = false ∧ ∃ value, (entry.1, value) ∈ entries ∧
      entry.2 = value.without (omitted.below (.entry entry.1)) := by
  induction entries with
  | nil =>
      rw [withoutEntries] at h
      cases h
  | cons first rest ih =>
      unfold withoutEntries at h
      by_cases hfirst : omitted [.entry first.1] = true
      · rw [if_pos hfirst] at h
        rcases ih h with ⟨hkept, value, hvalue, heq⟩
        exact ⟨hkept, value, List.mem_cons_of_mem _ hvalue, heq⟩
      · rw [if_neg hfirst] at h
        rcases List.mem_cons.1 h with rfl | h
        · exact ⟨Bool.eq_false_iff.2 hfirst, first.2, List.mem_cons_self, rfl⟩
        · rcases ih h with ⟨hkept, value, hvalue, heq⟩
          exact ⟨hkept, value, List.mem_cons_of_mem _ hvalue, heq⟩

theorem lookup_withoutEntries (name : String) :
    (withoutEntries omitted entries).lookup name =
      if omitted [.entry name] = true then none
      else (entries.lookup name).map (Value.without (omitted.below (.entry name))) := by
  induction entries with
  | nil => simp [withoutEntries]
  | cons first rest ih =>
      rw [withoutEntries, List.lookup_cons]
      by_cases hname : name = first.1
      · subst hname
        by_cases hfirst : omitted [.entry first.1] = true
        · rw [if_pos hfirst, ih, if_pos hfirst, if_pos hfirst]
        · rw [if_neg hfirst, if_neg hfirst, List.lookup_cons]
          simp only [beq_self_eq_true, Option.map_some]
      · have hne : (name == first.1) = false := beq_false_of_ne hname
        by_cases hfirst : omitted [.entry first.1] = true
        · rw [if_pos hfirst, ih, hne]
        · rw [if_neg hfirst, List.lookup_cons, hne, ih]

theorem withoutItems_eq_mapIdx (start : Nat) :
    withoutItems omitted start items =
      items.mapIdx fun index => Value.without (omitted.below (.item (start + index))) := by
  induction items generalizing start with
  | nil => rw [withoutItems, List.mapIdx_nil]
  | cons value rest ih =>
      rw [withoutItems, ih, List.mapIdx_cons]
      simp only [Nat.add_zero, Nat.add_assoc, Nat.add_comm 1]

/-- What is not left out holds of the places below as well. -/
theorem Value.Holds.below_entry (h : (Value.table entries).Holds omitted) {name : String}
    (hvalue : (name, value) ∈ entries) : value.Holds (omitted.below (.entry name)) :=
  fun path hpath => (h (.entry name :: path) hpath).2 _ hvalue rfl

theorem Value.Holds.below_item (h : (Value.array items).Holds omitted) {index : Nat}
    (hvalue : items[index]? = some value) : value.Holds (omitted.below (.item index)) := by
  intro path hpath
  rcases h (.item index :: path) hpath with ⟨item, hitem, hhas⟩
  rw [hvalue, Option.some.injEq] at hitem
  rwa [hitem]

end

/-- Leaving something out of a value changes what is read by this function, if all that
    is left out is there. -/
def Keeps {α : Type} (reader : Reader α) (omitted : Omission) (change : α → α) : Prop :=
  ∀ ⦃value : Value⦄ ⦃a : α⦄, value.Holds omitted → reader value = .ok a →
    reader (value.without omitted) = .ok (change a)

/-- The fields of a record with something left out. -/
structure Fields.Lessened (fields lessened : Fields) (omitted : Omission) : Prop where
  get_eq : ∀ name, lessened.get name =
    if omitted [.entry name] = true then none
    else (fields.get name).map (Value.without (omitted.below (.entry name)))
  /-- What is left out inside a field is there. -/
  holds : ∀ {name value}, fields.get name = some value →
    value.Holds (omitted.below (.entry name))
  /-- Nothing is left out inside a field that is not there. -/
  nowhere : ∀ {name}, fields.get name = none → omitted.below (.entry name) = .nowhere

theorem Fields.Lessened.of_nowhere (fields : Fields) : fields.Lessened fields .nowhere where
  get_eq name := by
    show fields.get name = (fields.get name).map (Value.without .nowhere)
    rw [show Value.without .nowhere = id from funext without_nowhere, Option.map_id]
    rfl
  holds _ _ hpath := nomatch hpath
  nowhere _ := rfl

namespace Keeps

variable {α : Type} {reader : Reader α} {omitted : Omission} {change : α → α}

theorem of_nowhere (h : omitted = .nowhere) : Keeps reader omitted id := by
  intro value a _ hread
  rw [h, without_nowhere]
  exact hread

theorem checking (h : Keeps reader omitted change) : Keeps (checking reader) omitted id := by
  intro value done hvalue hread
  rw [checking_eq_ok_iff] at hread ⊢
  rcases hread with ⟨a, ha⟩
  exact ⟨change a, h hvalue ha⟩

end Keeps

namespace Record

variable {record : Record} {omitted : Omission} {value : Value} {fields : Fields}

/-- A record is read with something left out, if each of its fields is read where the
    field itself is not left out. -/
theorem read_without (hentries : ∀ path, omitted path = true → ∃ name below,
      path = .entry name :: below)
    (hkeeps : ∀ field ∈ record.fields, omitted [.entry field.1] = false →
      Keeps field.2 (omitted.below (.entry field.1)) id)
    (hholds : value.Holds omitted) (hread : record.read value = .ok fields) :
    ∃ lessened, record.read (value.without omitted) = .ok lessened ∧
      fields.Lessened lessened omitted := by
  cases value with
  | table entries =>
      rcases read_table_eq_ok_iff.1 hread with ⟨hsound, rfl⟩
      refine ⟨_, read_table_eq_ok_iff.2 ⟨fun entry hentry => ?_, rfl⟩, ?_⟩
      · -- An entry that stays was looked at before, with more inside it.
        rcases mem_withoutEntries hentry with ⟨hkept, before, hbefore, heq⟩
        have hcheck := hsound _ hbefore
        unfold checkEntry at hcheck ⊢
        cases hreader : record.fields.lookup entry.1 with
        | none =>
            rw [hreader] at hcheck
            cases hcheck
        | some reader =>
            rw [hreader] at hcheck
            rw [heq]
            exact hkeeps _ (mem_of_lookup hreader) hkept (hholds.below_entry hbefore) hcheck
      · refine ⟨lookup_withoutEntries, fun h => hholds.below_entry (mem_of_lookup h), ?_⟩
        intro name hnone
        refine below_eq_nowhere fun path => Bool.eq_false_iff.2 fun hpath => ?_
        -- What is left out is there, so the name is found.
        rcases (hholds _ hpath).1 with ⟨entry, hentry, rfl⟩
        have hne := List.lookup_eq_none_iff.1 hnone entry hentry
        simp only [bne_self_eq_false, Bool.false_eq_true] at hne
  | array items =>
      -- An array has no entries, so nothing is left out of it.
      have hnowhere : omitted = .nowhere := by
        funext path
        refine Bool.eq_false_iff.2 fun hpath => ?_
        rcases hentries path hpath with ⟨name, below, rfl⟩
        exact hholds _ hpath
      subst hnowhere
      exact ⟨fields, (without_nowhere _).symm ▸ hread, .of_nowhere fields⟩
  | _ => cases hread

end Record

namespace Fields.Lessened

variable {α : Type} {fields lessened : Fields} {omitted : Omission} {reader : Reader α}
  {name : String} {a : α}

/-- A field that must be given is taken out as before. -/
theorem required (h : fields.Lessened lessened omitted)
    (hkept : ∀ path, omitted (.entry name :: path) = false)
    (hread : fields.required name reader = .ok a) : lessened.required name reader = .ok a := by
  unfold Fields.required at hread ⊢
  cases hget : fields.get name with
  | none =>
      rw [hget] at hread
      cases hread
  | some value =>
      rw [h.get_eq, if_neg (by rw [hkept]; exact Bool.false_ne_true), hget,
        below_eq_nowhere hkept, Option.map_some, without_nowhere]
      rwa [hget] at hread

/-- Of a field that need not be given the standard is taken if it is left out, and what
    is kept of it if not. -/
theorem optional {change : α → α} {standard : α} (h : fields.Lessened lessened omitted)
    (hkeeps : omitted [.entry name] = false → Keeps reader (omitted.below (.entry name)) change)
    (hchange : omitted.below (.entry name) = .nowhere → change a = a)
    (hread : fields.optional name reader standard = .ok a) :
    lessened.optional name reader standard =
      .ok (if omitted [.entry name] = true then standard else change a) := by
  unfold Fields.optional at hread ⊢
  rw [h.get_eq]
  by_cases hname : omitted [.entry name] = true
  · rw [if_pos hname, if_pos hname]
  · rw [if_neg hname, if_neg hname]
    cases hget : fields.get name with
    | none =>
        -- The standard was taken before as well, and nothing is left out inside it.
        rw [hget] at hread
        rw [hchange (h.nowhere hget)]
        exact hread
    | some value =>
        rw [hget] at hread
        exact hkeeps (Bool.eq_false_iff.2 hname) (h.holds hget) hread

/-- If it can only be left out as a whole, it is kept as it is. -/
theorem optional_whole {standard : α} (h : fields.Lessened lessened omitted)
    (hwhole : omitted [.entry name] = false → omitted.below (.entry name) = .nowhere)
    (hread : fields.optional name reader standard = .ok a) :
    lessened.optional name reader standard =
      .ok (if omitted [.entry name] = true then standard else a) :=
  h.optional (fun hname => .of_nowhere (hwhole hname)) (fun _ => rfl) hread

end Fields.Lessened

/-- Where something is left out of each item of a list, each item is changed for
    itself. -/
theorem Keeps.readList {α : Type} {reader : Reader α} {omitted : Omission} {change : Nat → α → α}
    (hitems : ∀ index, Keeps reader (omitted.below (.item index)) (change index)) :
    Keeps (readList reader) omitted fun list => list.mapIdx change := by
  intro value list hholds hread
  cases value with
  | array items =>
      -- No item is left out, so each keeps the index that it is told by.
      rw [Value.without, withoutItems_eq_mapIdx]
      simp only [Nat.zero_add]
      exact mapM_mapIdx (fun index _ hitem _ => hitems index (hholds.below_item hitem)) hread
  | _ => cases hread

/-- Where whole fields only are left out, one that is not left out stays whole. -/
theorem below_eq_nowhere_of_fields {omitted : Omission}
    (hfields : ∀ path, omitted path = true → ∃ name, path = [.entry name]) (name : String)
    (hname : omitted [.entry name] = false) : omitted.below (.entry name) = .nowhere := by
  refine below_eq_nowhere fun path => Bool.eq_false_iff.2 fun hpath => ?_
  rcases hfields _ hpath with ⟨other, heq⟩
  rw [heq, ← (List.cons.inj heq).1, hname] at hpath
  cases hpath

section

variable {α : Type} {record : Record} {take : Fields → Except SchemaFault α} {omitted : Omission}
  {change : α → α}

/-- A reader that takes something out of the fields of a record notices no more than
    its fields do. -/
theorem Keeps.read
    (hentries : ∀ path, omitted path = true → ∃ name below, path = .entry name :: below)
    (hkeeps : ∀ field ∈ record.fields, omitted [.entry field.1] = false →
      Keeps field.2 (omitted.below (.entry field.1)) id)
    (htake : ∀ {fields lessened a}, fields.Lessened lessened omitted → take fields = .ok a →
      take lessened = .ok (change a)) :
    Keeps (fun value => record.read value >>= take) omitted change := by
  intro value a hholds hread
  rcases bind_eq_ok_iff.1 hread with ⟨fields, hfields, ha⟩
  rcases Record.read_without hentries hkeeps hholds hfields with ⟨lessened, hlessened, h⟩
  exact bind_eq_ok_iff.2 ⟨lessened, hlessened, htake h ha⟩

/-- The same where whole fields only are left out. -/
theorem Keeps.read_fields
    (hfields : ∀ path, omitted path = true → ∃ name, path = [.entry name])
    (htake : ∀ {fields lessened a}, fields.Lessened lessened omitted → take fields = .ok a →
      take lessened = .ok (change a)) :
    Keeps (fun value => record.read value >>= take) omitted change := by
  refine Keeps.read (fun path hpath => ?_) (fun field _ hname => ?_) htake
  · rcases hfields path hpath with ⟨name, rfl⟩
    exact ⟨name, [], rfl⟩
  · exact .of_nowhere (below_eq_nowhere_of_fields hfields field.1 hname)

end

end Toml

open Toml

/-- The title rule with the empty replacement, if its own is left out. -/
def TitleRule.standardAt (omitted : Omission) (rule : TitleRule) : TitleRule :=
  { rule with replacement := if omitted [.entry "replace"] = true then "" else rule.replacement }

/-- The category without labels, if its own are left out. -/
def Category.standardAt (omitted : Omission) (category : Category) : Category :=
  { category with labels := if omitted [.entry "labels"] = true then .empty else category.labels }

/-- The rules for contributors with the standard ones in the fields that are left
    out. -/
def ContributorRules.standardAt (omitted : Omission) (rules : ContributorRules) :
    ContributorRules where
  enabled := if omitted [.entry "enabled"] = true then standard.enabled else rules.enabled
  title := if omitted [.entry "title"] = true then standard.title else rules.title
  format := if omitted [.entry "format"] = true then standard.format else rules.format

/-- The rules with the standard ones in the places that are left out. -/
def RuleSet.standardAt (omitted : Omission) (rules : RuleSet) : RuleSet where
  entryFormat := if omitted [.entry "format"] = true then standard.entryFormat
    else rules.entryFormat
  headingFormat := if omitted [.entry "category_title_format"] = true then standard.headingFormat
    else rules.headingFormat
  contributors := if omitted [.entry "contributors"] = true then standard.contributors
    else rules.contributors.standardAt (omitted.below (.entry "contributors"))
  labelRules := if omitted [.entry "labelers"] = true then standard.labelRules
    else rules.labelRules
  categories := if omitted [.entry "categories"] = true then standard.categories
    else rules.categories.mapIdx fun index =>
      Category.standardAt ((omitted.below (.entry "categories")).below (.item index))
  titleRules := if omitted [.entry "replacers"] = true then standard.titleRules
    else rules.titleRules.mapIdx fun index =>
      TitleRule.standardAt ((omitted.below (.entry "replacers")).below (.item index))

/-- The rules of a whole configuration with the standard ones in the places that are
    left out. -/
def RuleSet.standardWhere (omitted : Omission) (rules : RuleSet) : RuleSet :=
  if omitted [.entry "changelog"] = true then standard
  else rules.standardAt (omitted.below (.entry "changelog"))

namespace Settings

/-- The entries of a configuration that need not be given. Labels and replacements are
    the only ones inside the items of an array. -/
@[mk_iff]
inductive Optional : Path → Prop
  | ruleSet : Optional [.entry "changelog"]
  | field (name : String) : Optional [.entry "changelog", .entry name]
  | contributorField (name : String) :
      Optional [.entry "changelog", .entry "contributors", .entry name]
  | labels (index : Nat) :
      Optional [.entry "changelog", .entry "categories", .item index, .entry "labels"]
  | replacement (index : Nat) :
      Optional [.entry "changelog", .entry "replacers", .item index, .entry "replace"]

variable {omitted : Omission}

theorem keeps_readTitleRule (hreplace : ∀ path, omitted path = true → path = [.entry "replace"]) :
    Keeps readTitleRule omitted (TitleRule.standardAt omitted) := by
  have hfields : ∀ path, omitted path = true → ∃ name, path = [.entry name] :=
    fun path hpath => ⟨_, hreplace path hpath⟩
  refine Keeps.read_fields hfields fun {fields lessened rule} h hread => ?_
  simp only [bind_eq_ok_iff] at hread ⊢
  rcases hread with ⟨search, hsearch, replacement, hreplacement, hrule⟩
  obtain rfl : TitleRule.mk search replacement = rule := Except.ok.inj hrule
  refine ⟨search, h.required (fun path => Bool.eq_false_iff.2 fun hpath => ?_) hsearch, _,
    h.optional_whole (below_eq_nowhere_of_fields hfields _) hreplacement, rfl⟩
  exact absurd (hreplace _ hpath) (by simp)

theorem keeps_readCategory (hlabels : ∀ path, omitted path = true → path = [.entry "labels"]) :
    Keeps readCategory omitted (Category.standardAt omitted) := by
  have hfields : ∀ path, omitted path = true → ∃ name, path = [.entry name] :=
    fun path hpath => ⟨_, hlabels path hpath⟩
  have hkept : ∀ name, name ≠ "labels" → ∀ path, omitted (.entry name :: path) = false := by
    intro name hname path
    refine Bool.eq_false_iff.2 fun hpath => hname ?_
    simpa using (List.cons.inj (hlabels _ hpath)).1
  refine Keeps.read_fields hfields fun {fields lessened category} h hread => ?_
  simp only [bind_eq_ok_iff] at hread ⊢
  rcases hread with ⟨key, hkey, title, htitle, labels, hlabelsRead, order, horder, hcategory⟩
  obtain rfl : Category.mk key title labels order = category := Except.ok.inj hcategory
  exact ⟨key, h.required (hkept "key" (by decide)) hkey,
    title, h.required (hkept "title" (by decide)) htitle, _,
    h.optional_whole (below_eq_nowhere_of_fields hfields _) hlabelsRead,
    order, h.required (hkept "order" (by decide)) horder, rfl⟩

theorem keeps_readContributorRules
    (hfields : ∀ path, omitted path = true → ∃ name, path = [.entry name]) :
    Keeps readContributorRules omitted (ContributorRules.standardAt omitted) := by
  have hwhole := below_eq_nowhere_of_fields hfields
  refine Keeps.read_fields hfields fun {fields lessened rules} h hread => ?_
  simp only [bind_eq_ok_iff] at hread ⊢
  rcases hread with ⟨enabled, henabled, title, htitle, format, hformat, hrules⟩
  obtain rfl : ContributorRules.mk enabled title format = rules := Except.ok.inj hrules
  exact ⟨_, h.optional_whole (hwhole _) henabled, _, h.optional_whole (hwhole _) htitle,
    _, h.optional_whole (hwhole _) hformat, rfl⟩

/-- Items that are changed into themselves. -/
theorem mapIdx_eq_self {α : Type} {change : Nat → α → α} (h : ∀ index a, change index a = a)
    (list : List α) : list.mapIdx change = list := by
  refine List.ext_getElem List.length_mapIdx fun index _ _ => ?_
  rw [List.getElem_mapIdx, h]

section

variable (hoptional : ∀ path, omitted path = true → Optional (.entry "changelog" :: path))
include hoptional

theorem contributorField_of_optional (hkept : omitted [.entry "contributors"] = false)
    (path : Path) (hpath : omitted.below (.entry "contributors") path = true) :
    ∃ name, path = [.entry name] := by
  have hplace : path = [] ∨ ∃ name, path = [.entry name] := by
    simpa using (optional_iff _).1 (hoptional _ hpath)
  refine hplace.resolve_left ?_
  rintro rfl
  exact Bool.false_ne_true (hkept.symm.trans hpath)

theorem labels_of_optional (index : Nat) (path : Path)
    (hpath : (omitted.below (.entry "categories")).below (.item index) path = true) :
    path = [.entry "labels"] := by
  simpa using (optional_iff _).1 (hoptional _ hpath)

theorem replacement_of_optional (index : Nat) (path : Path)
    (hpath : (omitted.below (.entry "replacers")).below (.item index) path = true) :
    path = [.entry "replace"] := by
  simpa using (optional_iff _).1 (hoptional _ hpath)

/-- Every other field of a rule set can only be left out as a whole. -/
theorem below_eq_nowhere_of_optional (name : String) (hcontributors : name ≠ "contributors")
    (hcategories : name ≠ "categories") (hreplacers : name ≠ "replacers")
    (hkept : omitted [.entry name] = false) : omitted.below (.entry name) = .nowhere := by
  refine below_eq_nowhere fun path => Bool.eq_false_iff.2 fun hpath => ?_
  -- Nothing below any other name need not be given.
  have hplace : path = [] := by
    simpa [hcontributors, hcategories, hreplacers] using (optional_iff _).1 (hoptional _ hpath)
  rw [hplace, hkept] at hpath
  cases hpath

theorem entry_of_optional (hkept : omitted [] = false) (path : Path) (hpath : omitted path = true) :
    ∃ name below, path = .entry name :: below := by
  cases path with
  | nil => exact absurd (hkept.symm.trans hpath) Bool.false_ne_true
  | cons step below =>
      cases step with
      | entry name => exact ⟨name, below, rfl⟩
      | item index =>
          have hplace := (optional_iff _).1 (hoptional _ hpath)
          simp at hplace

/-- A rule set that is read with something left out has the standard rules there, and is
    otherwise the same. -/
theorem keeps_readRuleSet (hkept : omitted [] = false) :
    Keeps readRuleSet omitted (RuleSet.standardAt omitted) := by
  have hcontributors : omitted [.entry "contributors"] = false →
      Keeps readContributorRules (omitted.below (.entry "contributors"))
        (ContributorRules.standardAt (omitted.below (.entry "contributors"))) :=
    fun hname => keeps_readContributorRules (contributorField_of_optional hoptional hname)
  have hcategories : Keeps (readList readCategory) (omitted.below (.entry "categories"))
      fun list => list.mapIdx fun index =>
        Category.standardAt ((omitted.below (.entry "categories")).below (.item index)) :=
    .readList fun index => keeps_readCategory (labels_of_optional hoptional index)
  have htitleRules : Keeps (readList readTitleRule) (omitted.below (.entry "replacers"))
      fun list => list.mapIdx fun index =>
        TitleRule.standardAt ((omitted.below (.entry "replacers")).below (.item index)) :=
    .readList fun index => keeps_readTitleRule (replacement_of_optional hoptional index)
  have hformat := below_eq_nowhere_of_optional hoptional "format" (by decide)
    (by decide) (by decide)
  have hheading := below_eq_nowhere_of_optional hoptional "category_title_format" (by decide)
    (by decide) (by decide)
  have hlabelRules := below_eq_nowhere_of_optional hoptional "labelers" (by decide)
    (by decide) (by decide)
  refine Keeps.read (entry_of_optional hoptional hkept) (fun field hfield hname => ?_)
    fun {fields lessened rules} h hread => ?_
  · -- The fields that are looked at, in the order in which they are declared.
    simp only [ruleSetRecord, List.mem_cons, List.not_mem_nil, or_false] at hfield
    rcases hfield with rfl | rfl | rfl | rfl | rfl | rfl
    · exact .of_nowhere (hformat hname)
    · exact .of_nowhere (hheading hname)
    · exact (hcontributors hname).checking
    · exact .of_nowhere (hlabelRules hname)
    · exact hcategories.checking
    · exact htitleRules.checking
  · -- The fields that are taken out, each for itself.
    simp only [bind_eq_ok_iff] at hread ⊢
    rcases hread with ⟨entryFormat, hentryFormat, headingFormat, hheadingFormat,
      contributors, hcontributorsRead, labelRules, hlabelRulesRead, categories, hcategoriesRead,
      titleRules, htitleRulesRead, hrules⟩
    obtain rfl : RuleSet.mk entryFormat headingFormat contributors labelRules categories
      titleRules = rules := Except.ok.inj hrules
    refine ⟨_, h.optional_whole hformat hentryFormat, _, h.optional_whole hheading hheadingFormat,
      _, h.optional hcontributors (fun hnowhere => ?_) hcontributorsRead,
      _, h.optional_whole hlabelRules hlabelRulesRead,
      _, h.optional (fun _ => hcategories) (fun hnowhere => ?_) hcategoriesRead,
      _, h.optional (fun _ => htitleRules) (fun hnowhere => ?_) htitleRulesRead, rfl⟩
    -- Of what is not there nothing is left out, so nothing is changed.
    · rw [hnowhere]
      rfl
    · rw [hnowhere]
      exact mapIdx_eq_self (fun _ _ => rfl) categories
    · rw [hnowhere]
      exact mapIdx_eq_self (fun _ _ => rfl) titleRules

end

theorem standardAt_nowhere (rules : RuleSet) : rules.standardAt .nowhere = rules := by
  have hcategories : (rules.categories.mapIdx fun _ => Category.standardAt .nowhere) =
      rules.categories := mapIdx_eq_self (fun _ _ => rfl) _
  have htitleRules : (rules.titleRules.mapIdx fun _ => TitleRule.standardAt .nowhere) =
      rules.titleRules := mapIdx_eq_self (fun _ _ => rfl) _
  show RuleSet.mk _ _ _ _ (rules.categories.mapIdx fun _ => Category.standardAt .nowhere)
    (rules.titleRules.mapIdx fun _ => TitleRule.standardAt .nowhere) = rules
  rw [hcategories, htitleRules]
  rfl

/-- What is read of a configuration with something left out. -/
theorem readSettings_without (hoptional : ∀ path, omitted path = true → Optional path)
    {entries : Entries} {rules : RuleSet} (hholds : (Value.table entries).Holds omitted)
    (hread : readSettings entries = .ok rules) :
    readSettings (withoutEntries omitted entries) = .ok (rules.standardWhere omitted) := by
  have hchangelog : omitted [.entry "changelog"] = false →
      Keeps readRuleSet (omitted.below (.entry "changelog"))
        (RuleSet.standardAt (omitted.below (.entry "changelog"))) :=
    keeps_readRuleSet fun path hpath => hoptional _ hpath
  have hkeeps : Keeps readWhole omitted (RuleSet.standardWhere omitted) := by
    refine Keeps.read (fun path hpath => ?_) (fun field hfield hname => ?_)
      fun {fields lessened rules} h hread => ?_
    · cases hoptional path hpath <;> exact ⟨_, _, rfl⟩
    · obtain rfl := List.mem_singleton.1 hfield
      exact (hchangelog hname).checking
    · refine h.optional hchangelog (fun hnowhere => ?_) hread
      rw [hnowhere, standardAt_nowhere]
  exact hkeeps hholds hread

end Settings

/-- Labels do not matter to whether two categories are apart. -/
theorem Category.apart_standardAt {omitted omitted' : Omission} {a b : Category} :
    (a.standardAt omitted).Apart (b.standardAt omitted') ↔ a.Apart b := .rfl

namespace RuleSet

variable {rules : RuleSet}

theorem ofEntries_eq_ok_iff {entries : Entries} :
    ofEntries entries = .ok rules ↔
      Settings.readSettings entries = .ok rules ∧ rules.check = .ok () := by
  unfold ofEntries
  simp only [bind_eq_ok_iff, mapError_eq_ok_iff]
  constructor
  · rintro ⟨found, hread, done, hcheck, hfound⟩
    obtain rfl : found = rules := Except.ok.inj hfound
    exact ⟨hread, hcheck⟩
  · rintro ⟨hread, hcheck⟩
    exact ⟨rules, hread, (), hcheck, rfl⟩

/-- Neither the standard categories nor others without their labels share a number or
    a key. -/
theorem check_standardAt (omitted : Omission) (h : rules.check = .ok ()) :
    (rules.standardAt omitted).check = .ok () := by
  rw [check_eq_ok_iff] at h ⊢
  unfold standardAt
  by_cases hleft : omitted [.entry "categories"] = true
  · simp only [if_pos hleft]
    exact (check_eq_ok_iff standard).1 rfl
  · simp only [if_neg hleft]
    rw [List.pairwise_iff_getElem] at h ⊢
    intro i j hi hj hij
    rw [List.length_mapIdx] at hi hj
    rw [List.getElem_mapIdx, List.getElem_mapIdx, Category.apart_standardAt]
    exact h i j hi hj hij

/-- If entries that need not be given are left out of a configuration that is accepted,
    what is left is accepted. The rules are the standard ones in the places that are
    left out and the same as before in all others. -/
theorem ofEntries_without {entries : Entries} {omitted : Omission}
    (homitted : ∀ path, omitted path = true →
      Settings.Optional path ∧ (Value.table entries).Has path)
    (hrules : ofEntries entries = .ok rules) :
    ofEntries (withoutEntries omitted entries) = .ok (rules.standardWhere omitted) ∧
      ∀ text, parse text = some (withoutEntries omitted entries) →
        ofText text = .ok (rules.standardWhere omitted) := by
  rcases ofEntries_eq_ok_iff.1 hrules with ⟨hread, hcheck⟩
  have hless : ofEntries (withoutEntries omitted entries) =
      .ok (rules.standardWhere omitted) := by
    refine ofEntries_eq_ok_iff.2 ⟨?_, ?_⟩
    · exact Settings.readSettings_without (fun path hpath => (homitted path hpath).1)
        (fun path hpath => (homitted path hpath).2) hread
    · unfold standardWhere
      by_cases hleft : omitted [.entry "changelog"] = true
      · rw [if_pos hleft]
        rfl
      · rw [if_neg hleft]
        exact check_standardAt _ hcheck
  refine ⟨hless, fun text htext => ?_⟩
  unfold ofText
  rw [htext]
  exact hless

/-- A configuration with entries that need not be given. -/
def longhand : Entries :=
  [("changelog", .table
    [("format", .string "-"),
      ("contributors", .table [("enabled", .boolean true), ("title", .string "Thanks")]),
      ("categories", .array
        [.table [("key", .string "new"), ("title", .string "New"),
            ("labels", .array [.string "feature"]), ("order", .integer 1)],
          .table [("key", .string "old"), ("title", .string "Old"),
            ("labels", .array [.string "bug"]), ("order", .integer 2)]]),
      ("replacers", .array [.table [("search", .string "WIP "), ("replace", .string "~")]])])]

/-- Some of them, one at each depth and of each kind. -/
def leftOut : Omission :=
  fun path => [[.entry "changelog", .entry "format"],
    [.entry "changelog", .entry "contributors", .entry "title"],
    [.entry "changelog", .entry "categories", .item 1, .entry "labels"],
    [.entry "changelog", .entry "replacers", .item 0, .entry "replace"]].contains path

theorem longhand_without_leftOut :
    (∀ path, leftOut path = true → Settings.Optional path ∧ (Value.table longhand).Has path) ∧
      ofEntries (withoutEntries leftOut longhand) =
        .ok { standard with
          contributors := ⟨true, ContributorRules.standard.title, ContributorRules.standard.format⟩
          categories := [⟨"new", "New", .ofList ["feature"], 1⟩, ⟨"old", "Old", .empty, 2⟩]
          titleRules := [⟨"WIP ", ""⟩] } := by
  have homitted : ∀ path, leftOut path = true →
      Settings.Optional path ∧ (Value.table longhand).Has path := by
    intro path hpath
    simp only [leftOut, List.contains_iff_mem, List.mem_cons, List.not_mem_nil, or_false] at hpath
    rcases hpath with rfl | rfl | rfl | rfl
    · exact ⟨.field _, by simp [longhand, Value.Has]⟩
    · exact ⟨.contributorField _, by simp [longhand, Value.Has]⟩
    · exact ⟨.labels _, by simp [longhand, Value.Has]⟩
    · exact ⟨.replacement _, by simp [longhand, Value.Has]⟩
  have hrules : ofEntries longhand =
      .ok { standard with
        entryFormat := "-"
        contributors := ⟨true, "Thanks", ContributorRules.standard.format⟩
        categories := [⟨"new", "New", .ofList ["feature"], 1⟩, ⟨"old", "Old", .ofList ["bug"], 2⟩]
        titleRules := [⟨"WIP ", "~"⟩] } := by
    decide +kernel
  refine ⟨homitted, (ofEntries_without homitted hrules).1.trans ?_⟩
  decide +kernel

end RuleSet

end ReleaseNotes
