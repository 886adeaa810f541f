import ReleaseNotes.Proofs.Sections

/-!
# Renumbered Categories

What the numbers of categories decide: the order of the sections, and nothing
else.

Commits are collected by the position of their category in the declaration, and
which category takes a label in does not depend on numbers either. So a section
with its number taken off is the same whatever the number was, and the sections
as they are collected become equal when all numbers are taken off. Only then are
they put in order. What comes after that keeps the sections and moves them, so
two documents by rules that differ in numbers are rearrangements of each other.

A block of the text is made of the heading and the entries of a section, neither
of which shows the number. The two texts are therefore joined of the same blocks,
each in the order of its sections.

## Main definitions

* `Category.unnumbered`, `Section.unnumbered`: What is left without the number.
* `RuleSet.Renumbered`: Two rule sets differ in the numbers of categories only.
* `RuleSet.InOrder`: The sections of a document belong to categories of the rules
  and stand in the order of their numbers.
* `sectionText`: The text of a section.

## Theorems

* `collect_unnumbered`: Collecting does not look at numbers.
* `Document.perm_unnumbered`: Putting in order moves sections.
* `RuleSet.Renumbered.perm_sections`: The same sections, rearranged.
* `RuleSet.Renumbered.entries_section?`: The same entries under each key.
* `RuleSet.documents_of_renumbered`: What renumbering does to documents and texts.
-/

namespace ReleaseNotes

/-- The category without its number. -/
def Category.unnumbered (category : Category) : Category :=
  { category with order := 0 }

/-- The section without the number of its category. -/
def Section.unnumbered (part : Section) : Section :=
  { part with category := part.category.unnumbered }

theorem categoryFor_unnumbered (categories : List Category) (label : String) :
    categoryFor (categories.map Category.unnumbered) label = categoryFor categories label :=
  List.findIdx?_map

/-- Collecting does not look at numbers. -/
theorem collect_unnumbered (categories : List Category) (entries : List Entry) :
    collect (categories.map Category.unnumbered) entries =
      (collect categories entries).map Section.unnumbered := by
  have hplace : ∀ entry : Entry, entry.place (categories.map Category.unnumbered) =
      entry.place categories := by
    intro entry
    unfold Entry.place
    exact congrArg _ (funext (categoryFor_unnumbered categories))
  have hcollect := collect_map Category.unnumbered id hplace entries
  simp only [List.map_id] at hcollect
  exact hcollect

/-- The text of a section: its heading, and a line for each entry. -/
def sectionText (rules : RuleSet) (part : Section) : String :=
  closeLines (sectionLines rules part)

/-- The text of a section does not show the number of its category. -/
theorem sectionText_unnumbered (rules : RuleSet) (part : Section) :
    sectionText rules part.unnumbered = sectionText rules part := rfl

namespace Document

/-- Putting sections in order moves them, and leaves out the empty ones. -/
theorem perm_unnumbered (sections : List Section) :
    ((arrange sections).map Section.unnumbered).Perm
      ((sections.map Section.unnumbered).filter fun part => !part.entries.isEmpty) := by
  refine ((List.mergeSort_perm _ _).map _).trans (List.Perm.of_eq ?_)
  rw [List.filter_map]
  rfl

/-- Without contributors the text is made of the texts of the sections. -/
theorem render_eq_intercalate {rules : RuleSet} (document : Document)
    (h : rules.contributors.enabled = false) :
    document.render rules = "\n".intercalate (document.sections.map (sectionText rules)) := by
  have hblocks : document.blocks rules = document.sections.map (sectionLines rules) := by
    simp [blocks, contributorBlocks, h]
  rw [render, hblocks, List.map_map]
  rfl

end Document

namespace RuleSet

/-- Two rule sets that differ in nothing but the numbers of their categories. -/
structure Renumbered (rules other : RuleSet) : Prop where
  categories : rules.categories.map Category.unnumbered =
    other.categories.map Category.unnumbered
  rest : other = { rules with categories := other.categories }

/-- The sections of the document belong to categories of the rules, and stand in
    the order of their numbers. -/
structure InOrder (rules : RuleSet) (document : Document) : Prop where
  declared : ∀ part ∈ document.sections, part.category ∈ rules.categories
  ascending : document.sections.Pairwise fun a b => a.category.order < b.category.order

theorem inOrder_document {rules : RuleSet} (hrules : rules.check = .ok ())
    (commits : List Commit) : rules.InOrder (rules.document commits) where
  declared := by
    intro part hpart
    obtain ⟨category, hmem, -, rfl⟩ := (mem_sections_document commits hrules).1 hpart
    exact hmem
  ascending := pairwise_order_sections commits hrules

namespace Renumbered

variable {rules other : RuleSet} (h : rules.Renumbered other) (commits : List Commit)
include h

/-- The same sections, rearranged. -/
theorem perm_sections :
    ((rules.document commits).sections.map Section.unnumbered).Perm
      ((other.document commits).sections.map Section.unnumbered) := by
  have hentries : other.entries commits = rules.entries commits := by rw [h.rest]; rfl
  have hcollect : (collect rules.categories (rules.entries commits)).map Section.unnumbered =
      (collect other.categories (other.entries commits)).map Section.unnumbered := by
    rw [← collect_unnumbered, ← collect_unnumbered, h.categories, hentries]
  refine (Document.perm_unnumbered _).trans ?_
  rw [hcollect]
  exact (Document.perm_unnumbered _).symm

/-- The same entries under each key. -/
theorem entries_section? (hrules : rules.check = .ok ()) (hother : other.check = .ok ())
    (key : String) :
    ((rules.document commits).section? key).map (·.entries) =
      ((other.document commits).section? key).map (·.entries) := by
  -- Both sides are found among the sections without numbers.
  have hfound : ∀ {document : Document},
      (document.sections.map (·.category.key)).Nodup → ∀ entries,
      (document.section? key).map (·.entries) = some entries ↔
        ∃ part ∈ document.sections.map Section.unnumbered,
          part.category.key = key ∧ part.entries = entries := by
    intro document hkeys entries
    rw [Option.map_eq_some_iff]
    constructor
    · rintro ⟨part, hpart, rfl⟩
      obtain ⟨hmem, hkey⟩ := (Document.section?_eq_some_iff hkeys).1 hpart
      exact ⟨part.unnumbered, List.mem_map_of_mem hmem, hkey, rfl⟩
    · rintro ⟨part, hpart, hkey, rfl⟩
      obtain ⟨part, hmem, rfl⟩ := List.mem_map.1 hpart
      exact ⟨part, (Document.section?_eq_some_iff hkeys).2 ⟨hmem, hkey⟩, rfl⟩
  refine Option.ext fun entries => ?_
  rw [hfound (nodup_keys commits hrules), hfound (nodup_keys commits hother)]
  simp only [(h.perm_sections commits).mem_iff]

/-- The same blocks, rearranged. -/
theorem perm_texts :
    ((rules.document commits).sections.map (sectionText rules)).Perm
      ((other.document commits).sections.map (sectionText other)) := by
  have htext : sectionText other = sectionText rules := by rw [h.rest]; rfl
  have hunnumbered : sectionText rules ∘ Section.unnumbered = sectionText rules :=
    funext (sectionText_unnumbered rules)
  have hperm := (h.perm_sections commits).map (sectionText rules)
  rw [List.map_map, List.map_map, hunnumbered] at hperm
  rw [htext]
  exact hperm

end Renumbered

/-- Rules that differ in the numbers of their categories only give documents of
    the same sections, and texts of the same blocks, each in the order of its own
    numbers. -/
theorem documents_of_renumbered (rules other : RuleSet) (hrules : rules.check = .ok ())
    (hother : other.check = .ok ()) (h : rules.Renumbered other) (commits : List Commit) :
    ((rules.document commits).sections.map Section.unnumbered).Perm
        ((other.document commits).sections.map Section.unnumbered) ∧
      (∀ key, ((rules.document commits).section? key).map (·.entries) =
        ((other.document commits).section? key).map (·.entries)) ∧
      rules.InOrder (rules.document commits) ∧ other.InOrder (other.document commits) ∧
      (rules.contributors.enabled = false →
        rules.notes commits =
          "\n".intercalate ((rules.document commits).sections.map (sectionText rules)) ∧
        other.notes commits =
          "\n".intercalate ((other.document commits).sections.map (sectionText other)) ∧
        ((rules.document commits).sections.map (sectionText rules)).Perm
          ((other.document commits).sections.map (sectionText other))) := by
  refine ⟨h.perm_sections commits, h.entries_section? commits hrules hother,
    inOrder_document hrules commits, inOrder_document hother commits, fun hoff => ?_⟩
  have hoff' : other.contributors.enabled = false := by
    rw [h.rest]
    exact hoff
  exact ⟨Document.render_eq_intercalate _ hoff, Document.render_eq_intercalate _ hoff',
    h.perm_texts commits⟩

/-- The standard rules with the order of the categories turned around. -/
def turnedAround : RuleSet :=
  { RuleSet.standard with
    categories := standardCategories.map fun category =>
      { category with order := -category.order } }

theorem documents_of_turnedAround :
    standard.check = .ok () ∧ turnedAround.check = .ok () ∧ standard.Renumbered turnedAround ∧
      let commits : List Commit :=
        [{ hash := "a", title := "fix: x" }, { hash := "b", title := "feat: y" },
          { hash := "c", title := "wip" }, { hash := "d", title := "fix: z" }]
      ((standard.document commits).sections.map (sectionText standard)).Perm
          ((turnedAround.document commits).sections.map (sectionText turnedAround)) ∧
        standard.InOrder (standard.document commits) ∧
        turnedAround.InOrder (turnedAround.document commits) := by
  have hstandard : standard.check = .ok () := rfl
  have hturned : turnedAround.check = .ok () := rfl
  have hrenumbered : standard.Renumbered turnedAround := ⟨rfl, rfl⟩
  obtain ⟨-, -, hin, hturnedIn, htexts⟩ :=
    documents_of_renumbered standard turnedAround hstandard hturned hrenumbered _
  exact ⟨hstandard, hturned, hrenumbered, (htexts rfl).2.2, hin, hturnedIn⟩

end RuleSet

end ReleaseNotes
