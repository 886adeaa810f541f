import ReleaseNotes.Proofs.Outcome

/-!
# Wording

What title rules, templates and the list of contributors decide: how the notes read.
Which commits are in them, under which categories and in which order, is decided before
that, and so is whatever is said about a run besides its text.

The argument takes the titles off that a reader sees. What is left of an entry is the
commit, which has its label by the title it was committed with. Collecting looks at the
label, putting in order looks at categories and at whether there are entries, so both
can be done with the titles taken off as well as before. That makes the document without
shown titles one that title rules have no part in.

The counts and the warnings are read off the range and the number of entries, and an
entry is one with its title or without.

## Main definitions

* `Entry.unworded`, `Section.unworded`, `Document.unworded`: What is left without the
  titles that are shown.
* `Notes.unworded`: What is left without the text.
* `RuleSet.Reworded`: Two rule sets with the same label rules and the same categories.

## Theorems

* `collect_unworded`: Collecting does not look at the titles that are shown.
* `Document.unworded_ofSections`: Putting in order does not either.
* `RuleSet.Reworded.unworded_document`: The same commits in the same places.
* `RuleSet.runs_of_reworded`: What rewording does to documents and runs.
-/

namespace ReleaseNotes

/-- The entry without the title it is shown with. -/
def Entry.unworded (entry : Entry) : Entry :=
  { entry with display := "" }

/-- The section without the titles that are shown. -/
def Section.unworded (part : Section) : Section :=
  { part with entries := part.entries.map Entry.unworded }

/-- Collecting does not look at the titles that are shown. -/
theorem collect_unworded (categories : List Category) (entries : List Entry) :
    collect categories (entries.map Entry.unworded) =
      (collect categories entries).map Section.unworded := by
  have hplace : ∀ entry : Entry, entry.unworded.place (categories.map id) =
      entry.place categories := by
    intro entry
    rw [List.map_id]
    rfl
  have hcollect := collect_map id Entry.unworded hplace entries
  rw [List.map_id] at hcollect
  exact hcollect

namespace Document

/-- The document without the titles that are shown. -/
def unworded (document : Document) : Document where
  sections := document.sections.map Section.unworded
  inhabited := by
    intro part hpart
    obtain ⟨worded, hworded, rfl⟩ := List.mem_map.1 hpart
    exact fun hnil => document.inhabited worded hworded (List.map_eq_nil_iff.1 hnil)
  ascending := List.pairwise_map.2 document.ascending

/-- Putting sections in order does not look at the titles that are shown. -/
theorem unworded_ofSections (sections : List Section) :
    (ofSections sections).unworded = ofSections (sections.map Section.unworded) := by
  have hfilter : (sections.map Section.unworded).filter (fun part => !part.entries.isEmpty) =
      (sections.filter fun part => !part.entries.isEmpty).map Section.unworded := by
    -- A section has entries without their titles if it has some with them.
    rw [List.filter_map]
    refine congrArg _ (List.filter_congr fun part _ => ?_)
    simp [Section.unworded]
  refine ext ?_
  simp only [unworded, ofSections, arrange, hfilter]
  exact List.map_mergeSort fun _ _ _ _ => rfl

theorem entries_unworded (document : Document) :
    document.unworded.entries = document.entries.map Entry.unworded := by
  rw [entries, entries, unworded, List.flatMap_map, List.map_flatMap]
  rfl

theorem entryCount_unworded (document : Document) :
    document.unworded.entryCount = document.entryCount := by
  rw [entryCount, entries_unworded, List.length_map, entryCount]

end Document

/-- What is left of notes without their text. -/
def Notes.unworded (notes : Notes) : Notes :=
  { notes with text := "" }

namespace RuleSet

/-- Two rule sets that differ in nothing by which commits get their labels and their
    categories. Title rules, templates and the list of contributors can be any. -/
structure Reworded (rules other : RuleSet) : Prop where
  labelRules : other.labelRules = rules.labelRules
  categories : other.categories = rules.categories

namespace Reworded

variable {rules other : RuleSet} (h : rules.Reworded other)
include h

theorem check_eq : other.check = rules.check := by
  rw [check, check, h.categories]

/-- A commit gets the same label, whatever title it is shown with. -/
theorem unworded_entry (commit : Commit) :
    (other.entry commit).unworded = (rules.entry commit).unworded := by
  simp only [entry, Entry.unworded, h.labelRules]

/-- The same commits with the same labels stand in the same places. -/
theorem unworded_document (commits : List Commit) :
    (other.document commits).unworded = (rules.document commits).unworded := by
  have hentries : (other.entries commits).map Entry.unworded =
      (rules.entries commits).map Entry.unworded := by
    simp only [entries, List.map_map]
    exact List.map_congr_left fun commit _ => h.unworded_entry commit
  -- Titles are taken off before the commits are collected instead of afterwards.
  rw [document, document, Document.unworded_ofSections, Document.unworded_ofSections,
    ← collect_unworded, ← collect_unworded, h.categories, hentries]

theorem entryCount_document_eq (commits : List Commit) :
    (other.document commits).entryCount = (rules.document commits).entryCount := by
  rw [← Document.entryCount_unworded, h.unworded_document, Document.entryCount_unworded]

/-- The same is said about a range besides the text. -/
theorem unworded_notesFor (range : CommitRange) :
    (other.notesFor range).unworded = (rules.notesFor range).unworded := by
  simp only [notesFor, Notes.unworded, h.entryCount_document_eq]

theorem asked (contributors contributors' : Bool) :
    (rules.asked contributors).Reworded (other.asked contributors') :=
  ⟨h.labelRules, h.categories⟩

end Reworded

/-- Rules with the same label rules and categories put the same commits in the same
    places, with the same labels. A run by either set answers a range with notes that
    say the same but for the text, and passes on a fault of the source. -/
theorem runs_of_reworded (rules other : RuleSet) (hrules : rules.check = .ok ())
    (h : rules.Reworded other) :
    other.check = .ok () ∧
    (∀ commits, (other.document commits).unworded = (rules.document commits).unworded) ∧
    (∀ fault contributors contributors',
      rules.run (.error fault) contributors = .error (.source fault) ∧
        other.run (.error fault) contributors' = .error (.source fault)) ∧
    ∀ range contributors contributors', ∃ notes others,
      rules.run (.ok range) contributors = .ok notes ∧
        other.run (.ok range) contributors' = .ok others ∧
        others.unworded = notes.unworded := by
  have hother : other.check = .ok () := h.check_eq.trans hrules
  refine ⟨hother, h.unworded_document, fun fault contributors contributors' => ?_,
    fun range contributors contributors' => ?_⟩
  · exact ⟨run_error hrules fault contributors, run_error hother fault contributors'⟩
  · exact ⟨_, _, run_ok hrules range contributors, run_ok hother range contributors',
      (h.asked contributors contributors').unworded_notesFor range⟩

/-- The standard rules, but with title rules by which titles look like those of another
    category or disappear, and with other templates. -/
def disguising : RuleSet :=
  { standard with
    entryFormat := slot "commitTitle"
    headingFormat := slot "categoryKey"
    contributors := { enabled := true, title := "Thanks", format := slot "contributorName" }
    titleRules := [⟨"fix: ", "feat: "⟩, ⟨"docs: readme", ""⟩] }

theorem runs_of_disguising :
    let range : CommitRange :=
      { sinceTag := some "v1"
        head := "c"
        commits := [{ hash := "c", title := "docs: readme" }, { hash := "b", title := "wip" },
          { hash := "a", title := "fix: x", author := some "Ann" }] }
    standard.check = .ok () ∧ standard.Reworded disguising ∧ disguising.check = .ok () ∧
      (disguising.document range.commits).unworded =
        (standard.document range.commits).unworded ∧
      (disguising.entries range.commits).map (·.display) = ["", "wip", "feat: x"] ∧
      (standard.entries range.commits).map (·.display) = ["readme", "wip", "x"] ∧
      ∃ notes others, standard.run (.ok range) false = .ok notes ∧
        disguising.run (.ok range) true = .ok others ∧ others.unworded = notes.unworded := by
  intro range
  have hstandard : standard.check = .ok () := rfl
  have hreworded : standard.Reworded disguising := ⟨rfl, rfl⟩
  obtain ⟨hdisguising, hdocuments, -, hruns⟩ :=
    runs_of_reworded standard disguising hstandard hreworded
  exact ⟨hstandard, hreworded, hdisguising, hdocuments _, rfl, rfl, hruns range false true⟩

end RuleSet

end ReleaseNotes
