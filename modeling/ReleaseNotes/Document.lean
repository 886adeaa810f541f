import ReleaseNotes.Category
import ReleaseNotes.Commit

/-!
# Documents

The notes before they are written out: sections, each a category with the
commits that go under it.

Sections are first collected one for each declared category, empty ones
included, because a commit is placed by the position of its category in the
declaration. What a reader sees is something else: only the sections that
hold a commit, in the order of the numbers of their categories. `Document` is
that second thing, and it says so in its type. A section without entries
cannot be in a document, and the sections cannot be out of order; whoever
needs one of the two facts finds it as a field.

`Document.ofSections` is the only step from the one to the other. Sections of
equal number keep the order they came in, so the result is determined also
where the numbers do not decide.

## Main definitions

* `Entry`: A commit and the title it is shown with.
* `Section`: A category and the entries under it.
* `collect`: One section for each category, in declaration order.
* `Document`: Sections with entries, in the order of their categories.
* `Document.ofSections`: The document made of a list of sections.
* `Document.contributors`: The authors of a document.

## Theorems

* `Document.ofSections_sections`: A document is made of its own sections.
-/

namespace ReleaseNotes

/-- A commit and the title it is shown with. -/
structure Entry where
  commit : Commit
  display : String
deriving DecidableEq, Repr

/-- A category and the entries under it. -/
structure Section where
  category : Category
  entries : List Entry
deriving DecidableEq, Repr

namespace Entry

/-- The position of the category that the entry goes under. An entry without
    a label, or with a label that no category takes in, goes nowhere. -/
def place (categories : List Category) (entry : Entry) : Option Nat :=
  entry.commit.label.bind (categoryFor categories)

end Entry

/-- One section for each category, in declaration order. A section holds the
    entries that go under its category, in the order they came in. -/
def collect (categories : List Category) (entries : List Entry) : List Section :=
  categories.mapIdx fun i category =>
    { category, entries := entries.filter fun entry => entry.place categories == some i }

/-- The first section is to stand no later than the second. -/
def Section.before (a b : Section) : Bool :=
  a.category.order ≤ b.category.order

/-- The notes before they are written out. Every section has an entry, and the
    sections stand in the order of their categories. -/
structure Document where
  sections : List Section
  inhabited : ∀ part ∈ sections, part.entries ≠ []
  ascending : sections.Pairwise fun a b => a.category.order ≤ b.category.order
deriving DecidableEq

namespace Document

theorem ext {a b : Document} (h : a.sections = b.sections) : a = b := by
  cases a
  cases b
  simp_all

/-- The sections that have an entry, ordered by their categories. Sections of
    equal order keep their places. -/
def arrange (sections : List Section) : List Section :=
  (sections.filter fun part => !part.entries.isEmpty).mergeSort Section.before

theorem entries_ne_nil_of_mem_arrange {sections : List Section} {part : Section}
    (h : part ∈ arrange sections) : part.entries ≠ [] := by
  simp only [arrange, List.mem_mergeSort, List.mem_filter, Bool.not_eq_eq_eq_not,
    Bool.not_true, List.isEmpty_eq_false_iff] at h
  exact h.2

theorem pairwise_arrange (sections : List Section) :
    (arrange sections).Pairwise fun a b => a.category.order ≤ b.category.order := by
  have h : (arrange sections).Pairwise fun a b => Section.before a b = true :=
    List.pairwise_mergeSort
      (fun a b c hab hbc => by simp only [Section.before, decide_eq_true_eq] at *; omega)
      (fun a b => by simp only [Section.before, Bool.or_eq_true, decide_eq_true_eq]; omega) _
  simpa only [Section.before, decide_eq_true_eq] using h

/-- The document made of a list of sections. -/
def ofSections (sections : List Section) : Document where
  sections := arrange sections
  inhabited _ h := entries_ne_nil_of_mem_arrange h
  ascending := pairwise_arrange sections

/-- The document without sections. -/
def empty : Document := ofSections []

theorem ofSections_sections (document : Document) :
    ofSections document.sections = document := by
  refine ext ?_
  have hfilter : document.sections.filter (fun part => !part.entries.isEmpty) =
      document.sections := by
    rw [List.filter_eq_self]
    intro part hpart
    simpa using document.inhabited part hpart
  simp only [ofSections, arrange, hfilter]
  refine List.mergeSort_of_pairwise ?_
  simpa only [Section.before, decide_eq_true_eq] using document.ascending

/-- There is nothing in the document. -/
def isEmpty (document : Document) : Bool :=
  document.sections.isEmpty

/-- The section of the category with this key. -/
def section? (document : Document) (key : String) : Option Section :=
  document.sections.find? (·.category.key == key)

/-- All entries, in the order a reader meets them. -/
def entries (document : Document) : List Entry :=
  document.sections.flatMap (·.entries)

/-- The number of entries. -/
def entryCount (document : Document) : Nat :=
  document.entries.length

/-- The authors of the entries, each once, in the order a reader meets them. -/
def contributors (document : Document) : List String :=
  (document.entries.filterMap (·.commit.author)).eraseDups

end Document

end ReleaseNotes
