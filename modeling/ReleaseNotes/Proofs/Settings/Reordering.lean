import Mathlib.Logic.Relation
import ReleaseNotes.Proofs.Settings.Spelling

/-!
# Reordered Tables

What the order decides in which the entries of tables are written: which of several
mistakes is reported, and nothing else.

The entries of a table are looked at in the order in which they were written, each
with everything inside it, and that a field is missing is noticed last. So two
configurations that differ in that order only can be refused for different reasons.
What cannot happen is that one is refused and the other is not. Whether all entries are
sound does not depend on the order in which they are looked at, and once they are, each
field is found under its name, for which a table may not have a name twice.

One table at any depth is put in another order by a step of `Value.Shuffles`, and
`Value.Reordered` is any number of such steps. A reader is `Blind` if it yields the same
before and after a step, or nothing both times; what it reports in that case is not
compared. Readers are made of readers, and all that has to be shown is that each way to
make them keeps them blind. The one with an argument in it is the reading of a record
(`Record.rel_read`): a step either shuffles the entries of the table itself, which are
then found again, or it happens inside one of its values, which is read by a reader
that is blind.

The categories stand in an array, so their order is not touched. A rule set that was
read from both is therefore the same to the last detail, and so is its fault.

## Main definitions

* `Value.Shuffles`, `Value.Reordered`: The entries of tables in another order.
* `Blind`: A reader that does not notice the order.
* `Fields.Alike`: Fields with the same values, up to a step inside one of them.
* `RuleSet.Agree`: What may come of two configurations that differ in the order.

## Theorems

* `lookup_of_perm`: A field is found in whatever order the entries stand.
* `alike_entry`, `alike_item`: The fields of a record after a step inside one of them.
* `Blind.read`: A reader that takes something out of the fields of a record is blind.
* `blind_readWhole`: So is the reader of a whole configuration.
* `RuleSet.ofEntries_reordered`: What the order of entries decides.
-/

namespace ReleaseNotes

namespace Toml

/-- The entries of one table, which is the value or lies anywhere inside it, are put in
    another order. -/
inductive Value.Shuffles : Value → Value → Prop
  -- Of two entries with one name the first would be found, so the order would matter.
  | table {entries others : Entries} (hkeys : (entries.map (·.1)).Nodup)
      (hperm : entries.Perm others) : Shuffles (.table entries) (.table others)
  | entry (front back : Entries) (name : String) {value other : Value}
      (h : Shuffles value other) :
      Shuffles (.table (front ++ (name, value) :: back)) (.table (front ++ (name, other) :: back))
  | item (front back : List Value) {value other : Value} (h : Shuffles value other) :
      Shuffles (.array (front ++ value :: back)) (.array (front ++ other :: back))

/-- The values differ only in the order of the entries of tables. -/
def Value.Reordered : Value → Value → Prop :=
  Relation.ReflTransGen Value.Shuffles

/-- A reader that yields the same before and after a step, or nothing both times. -/
def Blind {α : Type} (reader : Reader α) : Prop :=
  ∀ ⦃value other : Value⦄, value.Shuffles other → ∀ a, reader value = .ok a ↔ reader other = .ok a

/-- The same values stand in the fields, except that a step may have happened inside
    some of them. -/
def Fields.Alike (fields others : Fields) : Prop :=
  ∀ name, fields.get name = others.get name ∨
    ∃ value other, fields.get name = some value ∧ others.get name = some other ∧
      value.Shuffles other

namespace Blind

variable {α : Type} {reader : Reader α}

theorem readText : Blind readText := by
  intro value other h a
  cases h <;> exact ⟨nofun, nofun⟩

theorem readBoolean : Blind readBoolean := by
  intro value other h a
  cases h <;> exact ⟨nofun, nofun⟩

theorem readInteger : Blind readInteger := by
  intro value other h a
  cases h <;> exact ⟨nofun, nofun⟩

theorem checking (hreader : Blind reader) : Blind (checking reader) := by
  intro value other h done
  rw [checking_eq_ok_iff, checking_eq_ok_iff]
  exact exists_congr (hreader h)

theorem readList (hreader : Blind reader) : Blind (readList reader) := by
  intro value other h list
  cases h with
  | table => exact ⟨nofun, nofun⟩
  | entry => exact ⟨nofun, nofun⟩
  | item front back h =>
      -- The items before and behind the changed one are read as they were.
      show List.mapM reader _ = .ok list ↔ List.mapM reader _ = .ok list
      simp only [List.mapM_append, List.mapM_cons, bind_eq_ok_iff, hreader h]

theorem of_reordered (hreader : Blind reader) {value other : Value} (h : value.Reordered other)
    (a : α) : reader value = .ok a ↔ reader other = .ok a := by
  induction h with
  | refl => rfl
  | tail _ hstep ih => rw [ih, hreader hstep]

end Blind

namespace Fields.Alike

variable {α : Type} {fields others : Fields} {reader : Reader α}

theorem required (h : fields.Alike others) (hreader : Blind reader) (name : String) (a : α) :
    fields.required name reader = .ok a ↔ others.required name reader = .ok a := by
  unfold Fields.required
  rcases h name with heq | ⟨value, other, hvalue, hother, hstep⟩
  · rw [heq]
    cases others.get name with
    | none => exact ⟨nofun, nofun⟩
    | some value => rfl
  · rw [hvalue, hother]
    exact hreader hstep a

theorem optional (h : fields.Alike others) (hreader : Blind reader) (name : String)
    (standard a : α) :
    fields.optional name reader standard = .ok a ↔
      others.optional name reader standard = .ok a := by
  unfold Fields.optional
  rcases h name with heq | ⟨value, other, hvalue, hother, hstep⟩
  · rw [heq]
  · rw [hvalue, hother]
    exact hreader hstep a

end Fields.Alike

/-- A name leads to the same entry in whatever order the entries stand. -/
theorem lookup_of_perm {entries others : Entries} (hkeys : (entries.map (·.1)).Nodup)
    (hperm : entries.Perm others) (name : String) : entries.lookup name = others.lookup name := by
  cases hlookup : others.lookup name with
  | none =>
      rw [List.lookup_eq_none_iff] at hlookup ⊢
      intro entry hentry
      exact hlookup entry (hperm.mem_iff.1 hentry)
  | some value => exact lookup_of_mem hkeys (hperm.mem_iff.2 (mem_of_lookup hlookup))

section

variable {α : Type} {record : Record} {take : Fields → Except SchemaFault α}
  {value other : Value}

theorem bind_read_table {entries : Entries} {a : α} :
    record.read (.table entries) >>= take = .ok a ↔
      (∀ entry ∈ entries, record.checkEntry entry = .ok ()) ∧
        take ⟨fun name => entries.lookup name, .missingField⟩ = .ok a := by
  simp only [bind_eq_ok_iff, Record.read_table_eq_ok_iff, and_assoc, exists_and_left,
    exists_eq_left']

theorem bind_read_array {items : List Value} {a : α} :
    record.read (.array items) >>= take = .ok a ↔
      (∀ field ∈ record.fields.zip items, field.1.2 field.2 = .ok ()) ∧
        take ⟨fun name => items[record.position name]?, fun name =>
          .tooShort (record.position name) record.name record.fields.length⟩ = .ok a := by
  simp only [bind_eq_ok_iff, Record.read_array_eq_ok_iff, and_assoc, exists_and_left,
    exists_eq_left']

/-- A step inside an entry does not make it sound, and does not make it unsound. -/
theorem checkEntry_eq_ok_iff (hfields : ∀ field ∈ record.fields, Blind field.2)
    (h : value.Shuffles other) (name : String) :
    record.checkEntry (name, value) = .ok () ↔ record.checkEntry (name, other) = .ok () := by
  unfold Record.checkEntry
  cases hlookup : record.fields.lookup name with
  | none => exact ⟨nofun, nofun⟩
  | some reader => exact hfields _ (mem_of_lookup hlookup) h ()

/-- Nor does a step inside an item. -/
theorem forall_zip_iff {fields : List (String × Reader Unit)}
    (hfields : ∀ field ∈ fields, Blind field.2) (h : value.Shuffles other)
    (front back : List Value) :
    (∀ field ∈ fields.zip (front ++ value :: back), field.1.2 field.2 = .ok ()) ↔
      ∀ field ∈ fields.zip (front ++ other :: back), field.1.2 field.2 = .ok () := by
  induction front generalizing fields with
  | nil =>
      cases fields with
      | nil => simp only [List.zip_nil_left]
      | cons field fields =>
          simp only [List.nil_append, List.zip_cons_cons, List.forall_mem_cons]
          rw [hfields field List.mem_cons_self h]
  | cons item front ih =>
      cases fields with
      | nil => simp only [List.zip_nil_left]
      | cons field fields =>
          simp only [List.cons_append, List.zip_cons_cons, List.forall_mem_cons]
          rw [ih fun other hother => hfields other (List.mem_cons_of_mem _ hother)]

theorem alike_entry (h : value.Shuffles other) (front back : Entries) (name : String)
    (absent : String → SchemaFault) :
    Fields.Alike ⟨fun asked => (front ++ (name, value) :: back).lookup asked, absent⟩
      ⟨fun asked => (front ++ (name, other) :: back).lookup asked, absent⟩ := by
  intro asked
  simp only [List.lookup_append, List.lookup_cons]
  cases front.lookup asked with
  -- An entry in front of the changed one is found instead of it.
  | some found => exact .inl rfl
  | none =>
      cases asked == name with
      | false => exact .inl rfl
      | true => exact .inr ⟨value, other, rfl, rfl, h⟩

theorem alike_item (h : value.Shuffles other) (front back : List Value)
    (position : String → Nat) (absent : String → SchemaFault) :
    Fields.Alike ⟨fun asked => (front ++ value :: back)[position asked]?, absent⟩
      ⟨fun asked => (front ++ other :: back)[position asked]?, absent⟩ := by
  intro asked
  simp only [List.getElem?_append]
  by_cases hfront : position asked < front.length
  · left
    rw [if_pos hfront, if_pos hfront]
  · rw [if_neg hfront, if_neg hfront]
    cases position asked - front.length with
    | zero => exact .inr ⟨value, other, rfl, rfl, h⟩
    | succ index => exact .inl rfl

/-- A reader that takes something out of the fields of a record is blind, if the fields
    are read by blind readers and what is taken is the same for fields that are
    alike. -/
theorem Blind.read (hfields : ∀ field ∈ record.fields, Blind field.2)
    (htake : ∀ fields others, fields.Alike others →
      ∀ a, take fields = .ok a ↔ take others = .ok a) :
    Blind fun value => record.read value >>= take := by
  intro value other h a
  cases h with
  | table hkeys hperm =>
      simp only [bind_read_table]
      -- The same entries are sound, and each of them is found again.
      refine and_congr (forall_congr' fun entry => imp_congr_left hperm.mem_iff) ?_
      exact htake _ _ (fun name => .inl (lookup_of_perm hkeys hperm name)) a
  | entry front back name h =>
      simp only [bind_read_table, List.forall_mem_append, List.forall_mem_cons,
        checkEntry_eq_ok_iff hfields h]
      exact and_congr_right fun _ => htake _ _ (alike_entry h front back name _) a
  | item front back h =>
      simp only [bind_read_array, forall_zip_iff hfields h]
      exact and_congr_right fun _ => htake _ _ (alike_item h front back _ _) a

end

end Toml

namespace Settings

open Toml

theorem blind_readLabels : Blind readLabels := by
  intro value other h labels
  unfold readLabels
  simp only [bind_eq_ok_iff, Blind.readText.readList h]

theorem blind_readLabelRule : Blind readLabelRule := by
  refine Blind.read (by simp [labelRuleRecord, Blind.readText.checking]) ?_
  intro fields others h rule
  simp only [bind_eq_ok_iff, h.required Blind.readText]

theorem blind_readTitleRule : Blind readTitleRule := by
  refine Blind.read (by simp [titleRuleRecord, Blind.readText.checking]) ?_
  intro fields others h rule
  simp only [bind_eq_ok_iff, h.required Blind.readText, h.optional Blind.readText]

theorem blind_readCategory : Blind readCategory := by
  refine Blind.read ?_ fun fields others h category => ?_
  · simp [categoryRecord, Blind.readText.checking, blind_readLabels.checking,
      Blind.readInteger.checking]
  · simp only [bind_eq_ok_iff, h.required Blind.readText, h.optional blind_readLabels,
      h.required Blind.readInteger]

theorem blind_readContributorRules : Blind readContributorRules := by
  refine Blind.read ?_ fun fields others h rules => ?_
  · simp [contributorRecord, Blind.readBoolean.checking, Blind.readText.checking]
  · simp only [bind_eq_ok_iff, h.optional Blind.readBoolean, h.optional Blind.readText]

theorem blind_readRuleSet : Blind readRuleSet := by
  refine Blind.read ?_ fun fields others h rules => ?_
  · simp [ruleSetRecord, Blind.readText.checking, blind_readContributorRules.checking,
      blind_readLabelRule.readList.checking, blind_readCategory.readList.checking,
      blind_readTitleRule.readList.checking]
  · simp only [bind_eq_ok_iff, h.optional Blind.readText, h.optional blind_readContributorRules,
      h.optional blind_readLabelRule.readList, h.optional blind_readCategory.readList,
      h.optional blind_readTitleRule.readList]

theorem blind_readWhole : Blind readWhole := by
  refine Blind.read (by simp [settingsRecord, blind_readRuleSet.checking]) fun fields others h => ?_
  exact h.optional blind_readRuleSet _ _

end Settings

namespace RuleSet

/-- What may come of two configurations: the same rules, the same fault of the rules, or
    two values that have not the form they should have. -/
inductive Agree : Except SettingsFault RuleSet → Except SettingsFault RuleSet → Prop
  | loaded (rules : RuleSet) : Agree (.ok rules) (.ok rules)
  | faulty (fault : RuleFault) : Agree (.error (.rules fault)) (.error (.rules fault))
  | misread (fault other : Toml.SchemaFault) :
      Agree (.error (.schema fault)) (.error (.schema other))

open Toml in
/-- Two configurations that differ only in the order of the entries of their tables
    yield the same rules, or the same fault of the rules, or are both refused for the
    form of a value. -/
theorem ofEntries_reordered {entries others : Entries}
    (h : (Value.table entries).Reordered (.table others)) :
    Agree (ofEntries entries) (ofEntries others) ∧
      ∀ text spelled, parse text = some entries → parse spelled = some others →
        Agree (ofText text) (ofText spelled) := by
  have hread : ∀ rules, Settings.readSettings entries = .ok rules ↔
      Settings.readSettings others = .ok rules := Settings.blind_readWhole.of_reordered h
  have hagree : Agree (ofEntries entries) (ofEntries others) := by
    rw [ofEntries_eq, ofEntries_eq]
    cases hentries : Settings.readSettings entries with
    | error fault =>
        cases hothers : Settings.readSettings others with
        | error other => exact .misread fault other
        | ok rules =>
            rw [(hread rules).2 hothers] at hentries
            cases hentries
    | ok rules =>
        -- The same rules are checked, so the check finds the same.
        rw [(hread rules).1 hentries]
        cases hcheck : rules.check with
        | error fault => simpa only [hcheck] using Agree.faulty fault
        | ok done => simpa only [hcheck] using Agree.loaded rules
  refine ⟨hagree, fun text spelled htext hspelled => ?_⟩
  unfold ofText
  rw [htext, hspelled]
  exact hagree

/-- A configuration with one category. -/
def tidy : Toml.Entries :=
  [("changelog", .table [("format", .string "-"), ("categories", .array
    [.table [("key", .string "all"), ("title", .string "All"), ("order", .integer 1)]])])]

/-- The same with the entries of two tables turned around. -/
def untidy : Toml.Entries :=
  [("changelog", .table [("categories", .array
    [.table [("order", .integer 1), ("title", .string "All"), ("key", .string "all")]]),
      ("format", .string "-")])]

theorem untidy_agrees :
    (Toml.Value.table tidy).Reordered (.table untidy) ∧ Agree (ofEntries tidy) (ofEntries untidy) ∧
      ofEntries untidy =
        .ok { standard with entryFormat := "-", categories := [⟨"all", "All", .empty, 1⟩] } := by
  have hreordered : (Toml.Value.table tidy).Reordered (.table untidy) := by
    -- First the table under `changelog` is turned around, then the one of the category.
    refine .tail (.single (.entry [] [] "changelog" (.table (by decide) (.swap _ _ [])))) ?_
    refine .entry [] [] "changelog" (.entry [] _ "categories" (.item [] [] ?_))
    exact .table (by decide) (List.reverse_perm _).symm
  exact ⟨hreordered, (ofEntries_reordered hreordered).1, by decide +kernel⟩

end RuleSet

end ReleaseNotes
