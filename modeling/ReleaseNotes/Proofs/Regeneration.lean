import ReleaseNotes.Proofs.Interleaving
import ReleaseNotes.Proofs.Placement

/-!
# Documents Made Again

What the rules make of the commits of a document they have made: the same document.

The commits of a document are not those it was made from. Those that go nowhere are
missing, the others are put together by categories, and all of them have labels now. Of
these three differences the first two are undone at once. Putting commits together
keeps, for each category, the commits under it and their order, and more than that a
document does not depend on. The third one makes none. A label that was given is kept,
and it is the one by which the commit was placed. The title is still the one that was
committed, since what a reader sees stands beside it, so rewording starts from the same
text again.

## Main definitions

* `Document.commits`: The commits of a document, as a reader meets them.
* `RuleSet.grouped`: Commits put together by categories.

## Theorems

* `RuleSet.document_map_commit_entry`: Labelling in advance changes nothing.
* `RuleSet.sameMembers_grouped`: Putting commits together keeps them under each category.
* `RuleSet.commits_document`: The commits of a document are put together and labelled.
* `RuleSet.document_regenerates`: A document is made again from its commits.
-/

namespace ReleaseNotes

/-- The commits of a document with their labels, in the order a reader meets them. -/
def Document.commits (document : Document) : List Commit :=
  document.entries.map (·.commit)

namespace RuleSet

variable (rules : RuleSet) (commits : List Commit)

/-- Commits put together by the categories they go under, these being in the order of
    their numbers. Commits that go nowhere are left out. -/
def grouped : List Commit :=
  rules.sortedCategories.flatMap (rules.members commits)

/-- A labelled commit gets the entry it got before. -/
theorem entry_commit_entry (commit : Commit) :
    rules.entry (rules.entry commit).commit = rules.entry commit := by
  simp only [entry, Commit.applyLabels_fst, Option.or_assoc, Option.or_self]

/-- Labelling in advance changes nothing. -/
theorem document_map_commit_entry :
    rules.document (commits.map fun commit => (rules.entry commit).commit) =
      rules.document commits := by
  have hentries : rules.entries (commits.map fun commit => (rules.entry commit).commit) =
      rules.entries commits := by
    rw [entries, entries, List.map_map]
    exact List.map_congr_left fun commit _ => rules.entry_commit_entry commit
  rw [document, document, hentries]

theorem members_append (first second : List Commit) (category : Category) :
    rules.members (first ++ second) category =
      rules.members first category ++ rules.members second category :=
  List.filter_append ..

/-- Commits under one category are all of them under that one, and none under
    another. -/
theorem members_members (other category : Category) :
    rules.members (rules.members commits other) category =
      if other = category then rules.members commits category else [] := by
  by_cases h : other = category
  · rw [if_pos h, h, members, List.filter_eq_self]
    intro commit hmem
    rw [beq_iff_eq]
    exact ((rules.mem_members commits).1 hmem).2
  · rw [if_neg h, members, List.filter_eq_nil_iff]
    intro commit hmem hhome
    rw [beq_iff_eq, ((rules.mem_members commits).1 hmem).2] at hhome
    exact h (Option.some.inj hhome)

/-- A category finds its commits among those of several categories that are put
    together. -/
theorem members_flatMap_members {categories : List Category} (hnodup : categories.Nodup)
    (category : Category) :
    rules.members (categories.flatMap (rules.members commits)) category =
      if category ∈ categories then rules.members commits category else [] := by
  induction categories with
  | nil => rfl
  | cons other categories ih =>
      rw [List.nodup_cons] at hnodup
      rw [List.flatMap_cons, members_append, members_members, ih hnodup.2]
      by_cases h : other = category
      · -- The category is not among the rest, so it finds nothing more there.
        rw [← h, if_pos rfl, if_neg hnodup.1, if_pos List.mem_cons_self, List.append_nil]
      · have hmem : category ∈ other :: categories ↔ category ∈ categories := by
          rw [List.mem_cons, or_iff_right fun heq => h heq.symm]
        rw [if_neg h, List.nil_append]
        simp only [hmem]

variable {rules}

theorem sameMembers_grouped (hrules : rules.check = .ok ()) :
    rules.SameMembers commits (rules.grouped commits) := by
  intro category hmem
  rw [← members_eq_filter, ← members_eq_filter]
  rw [grouped, members_flatMap_members _ _ (nodup_sortedCategories hrules),
    if_pos (rules.mem_sortedCategories.2 hmem)]

/-- The commits of a document are put together and labelled. -/
theorem commits_document (hrules : rules.check = .ok ()) :
    (rules.document commits).commits =
      (rules.grouped commits).map fun commit => (rules.entry commit).commit := by
  rw [Document.commits, entries_document commits hrules, List.map_map]
  rfl

/-- A document is made again from its own commits. The text and the contributors are
    the same then. -/
theorem document_regenerates (rules : RuleSet) (hrules : rules.check = .ok ())
    (commits : List Commit) :
    rules.document (rules.document commits).commits = rules.document commits ∧
      rules.notes (rules.document commits).commits = rules.notes commits ∧
      (rules.document (rules.document commits).commits).contributors =
        (rules.document commits).contributors := by
  -- Labels first, as they make no difference to any list, then the order of the commits.
  have hagain : rules.document (rules.document commits).commits = rules.document commits := by
    rw [commits_document commits hrules, document_map_commit_entry]
    exact document_eq_of_sameMembers hrules (sameMembers_grouped commits hrules)
  exact ⟨hagain, by rw [notes, notes, hagain], by rw [hagain]⟩

theorem sharedLabelRules_document_regenerates :
    sharedLabelRules.check = .ok () ∧ mixedCommits.length = 4 ∧
      (sharedLabelRules.document mixedCommits).commits.length = 3 ∧
      sharedLabelRules.document (sharedLabelRules.document mixedCommits).commits =
        sharedLabelRules.document mixedCommits ∧
      sharedLabelRules.notes (sharedLabelRules.document mixedCommits).commits =
        sharedLabelRules.notes mixedCommits := by
  have hrules : sharedLabelRules.check = .ok () := rfl
  have hlength : (sharedLabelRules.document mixedCommits).commits.length = 3 := by
    rw [Document.commits, List.length_map]
    exact entryCount_document mixedCommits hrules
  obtain ⟨hagain, hnotes, -⟩ := document_regenerates sharedLabelRules hrules mixedCommits
  exact ⟨hrules, rfl, hlength, hagain, hnotes⟩

end RuleSet

end ReleaseNotes
