import Mathlib.Data.List.Basic
import ReleaseNotes.Generation

/-!
# Homes of Commits

Under which category a commit goes, said without the functions that put it
there.

Two lists decide, and of both the first fit counts. The label rules give a
label to a commit that came without one, by the title as it was committed; the
categories, in the order of their declaration, take the label in. `IsFirst` is
the one notion behind both, so `CountsAs` and `Home` are two short statements
about it. Neither mentions a position, a reworded title or a number of a
category, and that none of these plays a part is what they say.

`home?` is the category that a rule set comes to. It is computed from the
labelled commit, and `home_iff` says that it is the home.

## Main definitions

* `IsFirst`: The first of a list that has a property.
* `Commit.CountsAs`: The label that a commit counts under.
* `RuleSet.Home`: The category that a commit goes under.
* `RuleSet.Placed`: A commit goes under some category.
* `RuleSet.home?`: The category that the rules come to.

## Theorems

* `isFirst_iff`: The first fit is the one that a search finds.
* `exists_isFirst_iff`: Where something fits, something fits first.
* `Commit.countsAs_iff`: The label of a labelled commit is the one it counts
  under.
* `RuleSet.hash_entry`, `RuleSet.title_entry`, `RuleSet.author_entry`: An entry keeps
  what its commit came with.
* `RuleSet.home_iff`: The rules come to the home.
* `RuleSet.placed_iff_exists_home`: A commit that is placed has a home.
* `RuleSet.placed_iff`: The rules come to a category when a commit is placed.
-/

namespace ReleaseNotes

/-- The element is the first of the list that has the property. -/
def IsFirst {α : Type} (p : α → Prop) (xs : List α) (x : α) : Prop :=
  ∃ before after, xs = before ++ x :: after ∧ p x ∧ ∀ y ∈ before, ¬ p y

theorem isFirst_iff {α : Type} (p : α → Bool) (xs : List α) (x : α) :
    IsFirst (fun y => p y = true) xs x ↔ xs.find? p = some x := by
  rw [List.find?_eq_some_iff_append]
  constructor
  · rintro ⟨before, after, hxs, hx, hbefore⟩
    exact ⟨hx, before, after, hxs, fun y hy => by
      rw [Bool.not_eq_true', Bool.eq_false_iff]
      exact hbefore y hy⟩
  · rintro ⟨hx, before, after, hxs, hbefore⟩
    refine ⟨before, after, hxs, hx, fun y hy h => ?_⟩
    have hnot := hbefore y hy
    rw [h] at hnot
    exact Bool.noConfusion hnot

theorem exists_isFirst_iff {α : Type} (p : α → Bool) (xs : List α) :
    (∃ x, IsFirst (fun y => p y = true) xs x) ↔ ∃ x ∈ xs, p x = true := by
  simp only [isFirst_iff, ← Option.isSome_iff_exists, List.find?_isSome]

/-- The label that a commit counts under: the one it came with, or else the
    one of the first rule whose opening its title starts with. -/
inductive Commit.CountsAs (rules : List LabelRule) (commit : Commit) : String → Prop
  | own {label : String} (h : commit.label = some label) : CountsAs rules commit label
  | byRule {rule : LabelRule} (h : commit.label = none)
      (hfirst : IsFirst (fun rule => rule.opening.toList <+: commit.title.toList) rules rule) :
      CountsAs rules commit rule.label

theorem labelFor_eq_some_iff (rules : List LabelRule) (title label : String) :
    labelFor rules title = some label ↔
      ∃ rule, IsFirst (fun rule => rule.opening.toList <+: title.toList) rules rule ∧
        rule.label = label := by
  have hfits : (fun rule : LabelRule => rule.opening.toList <+: title.toList) =
      fun rule => rule.fits title = true := by
    funext rule
    rw [LabelRule.fits, List.isPrefixOf_iff_prefix]
  rw [labelFor, Option.map_eq_some_iff, hfits]
  simp only [isFirst_iff]

namespace Commit

variable (rules : List LabelRule) (commit : Commit)

/-- Labelling sets the label where there was none, and changes nothing else. -/
theorem applyLabels_fst :
    (applyLabels rules commit).1 =
      { commit with label := commit.label.or (labelFor rules commit.title) } := by
  rcases commit with ⟨hash, title, author, own⟩
  unfold applyLabels assignLabel
  cases labelFor rules title <;> cases own <;> rfl

theorem countsAs_iff (label : String) :
    commit.CountsAs rules label ↔ (applyLabels rules commit).1.label = some label := by
  rw [applyLabels_fst]
  constructor
  · rintro (h | ⟨h, hfirst⟩)
    · rw [h, Option.some_or]
    · rw [h, Option.none_or]
      exact (labelFor_eq_some_iff rules commit.title _).2 ⟨_, hfirst, rfl⟩
  · intro h
    cases hown : commit.label with
    | some own =>
        rw [hown, Option.some_or] at h
        exact .own (hown.trans h)
    | none =>
        rw [hown, Option.none_or] at h
        obtain ⟨rule, hfirst, rfl⟩ := (labelFor_eq_some_iff rules commit.title _).1 h
        exact .byRule hown hfirst

end Commit

namespace RuleSet

variable (rules : RuleSet) (commit : Commit)

/-- The category that a commit goes under: the first declared one that has the
    label among its labels under which the commit counts. -/
def Home (category : Category) : Prop :=
  ∃ label, commit.CountsAs rules.labelRules label ∧
    IsFirst (fun category => label ∈ category.labels.toList) rules.categories category

/-- The commit counts under a label that some category has. -/
def Placed : Prop :=
  ∃ label, commit.CountsAs rules.labelRules label ∧
    ∃ category ∈ rules.categories, label ∈ category.labels.toList

/-- The category that the rules come to for a commit. -/
def home? : Option Category :=
  (rules.entry commit).commit.label.bind fun label => rules.categories.find? (·.accepts label)

theorem accepts_iff (category : Category) (label : String) :
    category.accepts label = true ↔ label ∈ category.labels.toList := by
  rw [Category.accepts, LabelSet.contains, List.contains_iff_mem]

@[simp]
theorem hash_entry : (rules.entry commit).commit.hash = commit.hash := by
  rw [entry, Commit.applyLabels_fst]

@[simp]
theorem title_entry : (rules.entry commit).commit.title = commit.title := by
  rw [entry, Commit.applyLabels_fst]

@[simp]
theorem author_entry : (rules.entry commit).commit.author = commit.author := by
  rw [entry, Commit.applyLabels_fst]

theorem home_iff (category : Category) :
    rules.Home commit category ↔ rules.home? commit = some category := by
  simp only [Home, home?, entry, Option.bind_eq_some_iff, Commit.countsAs_iff, ← accepts_iff,
    isFirst_iff]

theorem placed_iff_exists_home : rules.Placed commit ↔ ∃ category, rules.Home commit category := by
  simp only [Placed, Home, ← accepts_iff, ← exists_isFirst_iff]
  exact ⟨fun ⟨label, hlabel, category, h⟩ => ⟨category, label, hlabel, h⟩,
    fun ⟨category, label, hlabel, h⟩ => ⟨label, hlabel, category, h⟩⟩

theorem placed_iff : rules.Placed commit ↔ (rules.home? commit).isSome = true := by
  simp only [placed_iff_exists_home, home_iff, Option.isSome_iff_exists]

instance : Decidable (rules.Placed commit) :=
  decidable_of_iff _ (rules.placed_iff commit).symm

theorem mem_categories_of_home? {category : Category}
    (h : rules.home? commit = some category) : category ∈ rules.categories := by
  obtain ⟨label, -, hfind⟩ := Option.bind_eq_some_iff.1 h
  exact List.mem_of_find?_eq_some hfind

end RuleSet

end ReleaseNotes
