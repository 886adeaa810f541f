import ReleaseNotes.CommandLine.Run
import ReleaseNotes.Proofs.Layout

/-!
# The Listing and the Document

How the categories in a listing and the sections of a document go together.

A listing shows all categories and knows of no commits: it puts them in the order
of their numbers. A document is made the other way around. Commits are collected
under the categories as they are declared, what has no entry is dropped, and only
then is the rest put in order. The two orders can only agree because the numbers
of an accepted rule set are distinct. Numbers may be anything, and leave any gaps.

That a category is dropped is said by the commits, as `Receives`: none of them goes
under it. It may still have labels in common with a category declared before it,
and those labels may be given.

A section is asked for by a key. The first one with that key is the answer, and as
keys are distinct as well, it is the section of the category with the key.

## Main definitions

* `RuleSet.Receives`: Some commit goes under a category.
* `Document.FollowsListing`: The sections of a document are those of a listing.

## Theorems

* `RuleSet.shown_eq_filter`: The categories of a listing that are left.
* `RuleSet.categories_document`: The categories of the sections of a document.
* `RuleSet.document_followsListing`: The sections of a document are those of the
  listing.
-/

namespace ReleaseNotes

namespace RuleSet

variable (rules : RuleSet) (commits : List Commit)

/-- Some commit goes under the category. -/
def Receives (category : Category) : Prop :=
  ∃ commit ∈ commits, rules.Home commit category

variable {category : Category}

theorem receives_iff : rules.Receives commits category ↔ rules.members commits category ≠ [] := by
  rw [ne_eq, ← List.isEmpty_iff, Bool.not_eq_true, List.isEmpty_eq_false_iff_exists_mem]
  simp only [Receives, home_iff, mem_members]

instance : Decidable (rules.Receives commits category) :=
  decidable_of_iff _ (rules.receives_iff commits).symm

/-- The categories that are shown are those of the listing without the ones that no
    commit goes under. -/
theorem shown_eq_filter :
    rules.shown commits =
      rules.sortedCategories.filter fun category => decide (rules.Receives commits category) := by
  refine List.filter_congr fun category _ => ?_
  rw [Bool.eq_iff_iff, decide_eq_true_eq, receives_iff, Bool.not_eq_true',
    List.isEmpty_eq_false_iff]

variable {rules} (hrules : rules.check = .ok ())
include hrules

theorem categories_document :
    (rules.document commits).sections.map (·.category) = rules.shown commits := by
  rw [sections_eq_shown commits hrules, List.map_map]
  exact List.map_id _

/-- The section with the key of a category is the section of that category. -/
theorem section?_key_eq_some_iff (hmem : category ∈ rules.categories) {part : Section} :
    (rules.document commits).section? category.key = some part ↔
      part ∈ (rules.document commits).sections ∧ part.category = category := by
  rw [Document.section?_eq_some_iff (nodup_keys commits hrules)]
  refine and_congr_right fun hpart => ⟨fun hkey => ?_, fun heq => by rw [heq]⟩
  obtain ⟨other, hother, -, rfl⟩ := (mem_sections_document commits hrules).1 hpart
  exact eq_of_key_eq hrules hother hmem hkey

/-- There is no section with the key of a category if no commit goes under it. -/
theorem section?_key_eq_none_iff (hmem : category ∈ rules.categories) :
    (rules.document commits).section? category.key = none ↔
      ¬rules.Receives commits category := by
  rw [section?_eq_none_iff commits hrules, receives_iff, not_not]
  constructor
  · exact fun hnil => hnil category hmem rfl
  · intro hnil other hother hkey
    rw [eq_of_key_eq hrules hother hmem hkey, hnil]

end RuleSet

/-- The sections of the document are those of the categories in the listing, without
    the ones that no commit goes under. -/
structure Document.FollowsListing (rules : RuleSet) (commits : List Commit)
    (document : Document) : Prop where
  categories : document.sections.map (·.category) =
    rules.sortedCategories.filter fun category => decide (rules.Receives commits category)
  ascending : document.sections.Pairwise fun a b => a.category.order < b.category.order
  keys : (document.sections.map (·.category.key)).Nodup
  inhabited : ∀ part ∈ document.sections, part.entries ≠ []
  /-- By the key of a category its section is found, if there is one. -/
  found : ∀ category ∈ rules.categories, ∀ part,
    document.section? category.key = some part ↔
      part ∈ document.sections ∧ part.category = category
  /-- There is none if no commit goes under the category. -/
  missing : ∀ category ∈ rules.categories,
    document.section? category.key = none ↔ ¬rules.Receives commits category
  /-- By any other key no section is found. -/
  unknown : ∀ key, (∀ category ∈ rules.categories, category.key ≠ key) →
    document.section? key = none

namespace RuleSet

/-- The sections of a document by accepted rules are those of the categories in the
    listing that some commit goes under, in the same order. Their lines stand in the
    listing in the order of the sections. -/
theorem document_followsListing (rules : RuleSet) (commits : List Commit)
    (hrules : rules.check = .ok ()) :
    (rules.document commits).FollowsListing rules commits ∧
      ∃ lines, CommandLine.Run.listing rules = closeLines ("Configured categories:" :: lines) ∧
        ((rules.document commits).sections.map fun part =>
          "  " ++ part.category.line).Sublist lines := by
  have hcategories : (rules.document commits).sections.map (·.category) =
      rules.sortedCategories.filter fun category => decide (rules.Receives commits category) :=
    (categories_document commits hrules).trans (rules.shown_eq_filter commits)
  refine ⟨?_, _, rfl, ?_⟩
  · exact {
      categories := hcategories
      ascending := pairwise_order_sections commits hrules
      keys := nodup_keys commits hrules
      inhabited := (rules.document commits).inhabited
      found := fun _ hmem _ => section?_key_eq_some_iff commits hrules hmem
      missing := fun _ hmem => section?_key_eq_none_iff commits hrules hmem
      unknown := fun _ hkey => (section?_eq_none_iff commits hrules).2
        fun category hmem heq => absurd heq (hkey category hmem) }
  · -- The lines of the sections are those of a part of the categories in the listing.
    have hlines := congrArg (List.map fun category => "  " ++ category.line) hcategories
    rw [List.map_map] at hlines
    exact hlines ▸ List.filter_sublist.map _

/-- Rules with the least and the greatest number that can be written down. The second
    category has no label that the first one has not. -/
def farApart : RuleSet :=
  { standard with
    categories :=
      [⟨"bug", "Bugs", .ofList ["bug", "crash"], 9223372036854775807⟩,
       ⟨"crash", "Crashes", .ofList ["crash"], 0⟩,
       ⟨"feature", "Features", .ofList ["feature"], -9223372036854775808⟩] }

theorem farApart_document_followsListing :
    farApart.check = .ok () ∧
      let commits : List Commit :=
        [{ hash := "a", title := "fix: x", label := "crash" }, { hash := "b", title := "feat: y" }]
      (farApart.document commits).FollowsListing farApart commits ∧
        (farApart.document commits).section? "crash" = none ∧
        ∃ part, (farApart.document commits).section? "bug" = some part ∧ part.entries ≠ [] := by
  have hrules : farApart.check = .ok () := rfl
  refine ⟨hrules, ?_⟩
  intro commits
  obtain ⟨hfollows, -⟩ := document_followsListing farApart commits hrules
  have hcrash : (farApart.document commits).section? "crash" = none :=
    (hfollows.missing ⟨"crash", "Crashes", .ofList ["crash"], 0⟩ (by decide)).2 (by decide)
  -- The first category has the commit that the second one might have had.
  obtain ⟨part, hpart⟩ := Option.ne_none_iff_exists'.1 fun hnone =>
    (hfollows.missing ⟨"bug", "Bugs", .ofList ["bug", "crash"], 9223372036854775807⟩
      (by decide)).1 hnone (by decide)
  exact ⟨hfollows, hcrash, part, hpart, hfollows.inhabited part (List.mem_of_find?_eq_some hpart)⟩

end RuleSet

end ReleaseNotes
