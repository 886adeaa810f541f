import Mathlib.Data.List.Forall2
import Mathlib.Logic.ExistsUnique
import ReleaseNotes.Proofs.Occurrences
import ReleaseNotes.Proofs.Sections

/-!
# Placement of Commits

Where in a document each commit is found.

The same commit can come in twice, and two commits can agree in everything a
reader sees. So what a document does with commits cannot be said by looking for
them in it. It is said by an account: for each section, the positions of the
commits that its entries stand for. The entries follow the account one by one,
so nothing can stand in a section that the account does not know of. That a
position occurs in one list only, and there once, is that the commit is neither
lost nor shown twice.

The account of a document is read off the commits alone. A section takes the
positions of the commits that have their home there, which leaves them in the
order they came in.

## Main definitions

* `Entry.Shows`: An entry is that of a commit.
* `Document.Accounts`: What each section shows, by positions.
* `RuleSet.rows`: The positions of the commits that go under a category.

## Theorems

* `RuleSet.map_rows`: The commits at these positions.
* `RuleSet.shows_entry`: The rules give a placed commit an entry of its own.
* `document_accounts_for_all`: Every commit is accounted for.
-/

namespace ReleaseNotes

/-- The entry is that of a commit. It keeps the commit, has the label under
    which the commit counts, and shows the title that the rules make of the one
    it was committed with. -/
structure Entry.Shows (rules : RuleSet) (commit : Commit) (entry : Entry) : Prop where
  hash : entry.commit.hash = commit.hash
  title : entry.commit.title = commit.title
  author : entry.commit.author = commit.author
  label : ∃ label, entry.commit.label = some label ∧ commit.CountsAs rules.labelRules label
  display : Rewords rules.titleRules commit.title.toList entry.display.toList

/-- What each section of a document shows, given by the positions of the
    commits. -/
structure Document.Accounts (rules : RuleSet) (commits : List Commit) (document : Document)
    (rows : Fin document.sections.length → List (Fin commits.length)) : Prop where
  /-- The entries of a section are those of its commits, one by one. -/
  shows : ∀ s, List.Forall₂ (fun row entry => entry.Shows rules commits[row]) (rows s)
    document.sections[s].entries
  /-- They stand in the order in which the commits came in. -/
  inOrder : ∀ s, (rows s).Pairwise (· < ·)
  /-- They stand in the section of the first category that takes them in. -/
  atHome : ∀ s, ∀ row ∈ rows s, rules.Home commits[row] document.sections[s].category
  /-- A commit that a category takes in stands in one section. -/
  once : ∀ row, rules.Placed commits[row] → ∃! s, row ∈ rows s
  /-- Any other commit stands in none. -/
  absent : ∀ row, ¬ rules.Placed commits[row] → ∀ s, row ∉ rows s

namespace RuleSet

variable (rules : RuleSet) (commits : List Commit)

/-- The positions of the commits that go under a category. -/
def rows (category : Category) : List (Fin commits.length) :=
  (List.finRange commits.length).filter fun row => rules.home? commits[row] == some category

theorem mem_rows {category : Category} {row : Fin commits.length} :
    row ∈ rules.rows commits category ↔ rules.home? commits[row] = some category := by
  simp only [rows, List.mem_filter, List.mem_finRange, true_and, beq_iff_eq]

theorem map_rows (category : Category) :
    (rules.rows commits category).map (fun row => commits[row]) =
      rules.members commits category := by
  have hall : (List.finRange commits.length).map (fun row => commits[row]) = commits :=
    List.map_get_finRange commits
  rw [members]
  conv_rhs => rw [← hall, List.filter_map]
  rfl

theorem pairwise_rows (category : Category) :
    (rules.rows commits category).Pairwise (· < ·) :=
  (List.pairwise_lt_finRange _).filter _

theorem shows_entry {commit : Commit} {category : Category}
    (h : rules.home? commit = some category) : (rules.entry commit).Shows rules commit := by
  obtain ⟨label, hlabel, -⟩ := Option.bind_eq_some_iff.1 h
  have hcounts : commit.CountsAs rules.labelRules label :=
    (commit.countsAs_iff rules.labelRules label).2 hlabel
  exact {
    hash := rules.hash_entry commit
    title := rules.title_entry commit
    author := rules.author_entry commit
    label := ⟨label, hlabel, hcounts⟩
    display := (rewords_iff _ _ _).2 (String.toList_ofList).symm }

theorem forall₂_shows_rows (category : Category) :
    List.Forall₂ (fun row entry => entry.Shows rules commits[row]) (rules.rows commits category)
      (rules.sectionOf commits category).entries := by
  rw [sectionOf, ← map_rows, List.map_map, List.forall₂_map_right_iff, List.forall₂_same]
  intro row hrow
  exact rules.shows_entry ((rules.mem_rows commits).1 hrow)

end RuleSet

/-- A document made by faultless rules accounts for every commit. -/
theorem document_accounts_for_all (rules : RuleSet) (commits : List Commit)
    (hrules : rules.check = .ok ()) :
    (∃ rows, (rules.document commits).Accounts rules commits rows) ∧
      (rules.document commits).entryCount =
        commits.countP fun commit => decide (rules.Placed commit) := by
  refine ⟨⟨fun s => rules.rows commits (rules.document commits).sections[s].category, ?_⟩,
    RuleSet.entryCount_document commits hrules⟩
  have hsection : ∀ s : Fin (rules.document commits).sections.length,
      (rules.document commits).sections[s] =
        rules.sectionOf commits (rules.document commits).sections[s].category := by
    intro s
    obtain ⟨category, -, -, hpart⟩ :=
      (RuleSet.mem_sections_document commits hrules).1 (List.getElem_mem s.isLt)
    rw [Fin.getElem_fin, hpart]
    rfl
  refine ⟨fun s => ?_, fun s => rules.pairwise_rows commits _, fun s row hrow => ?_,
    fun row hplaced => ?_, fun row hnot s hrow => ?_⟩
  · rw [hsection s]
    exact rules.forall₂_shows_rows commits _
  · exact (rules.home_iff _ _).2 ((rules.mem_rows commits).1 hrow)
  · obtain ⟨category, hhome⟩ := Option.isSome_iff_exists.1 ((rules.placed_iff _).1 hplaced)
    -- The section of the home is there, since this commit is in it.
    have hmem : rules.sectionOf commits category ∈ (rules.document commits).sections := by
      refine (RuleSet.mem_sections_document commits hrules).2
        ⟨category, rules.mem_categories_of_home? _ hhome, ?_, rfl⟩
      exact List.ne_nil_of_mem ((rules.mem_members commits).2 ⟨List.getElem_mem row.isLt, hhome⟩)
    obtain ⟨i, hi, hpart⟩ := List.getElem_of_mem hmem
    refine ⟨⟨i, hi⟩, ?_, ?_⟩
    · simp only [Fin.getElem_fin, hpart]
      exact (rules.mem_rows commits).2 hhome
    · rintro ⟨j, hj⟩ hrow
      have hcategory : (rules.document commits).sections[j].category = category :=
        Option.some.inj (((rules.mem_rows commits).1 hrow).symm.trans hhome)
      have hsame : (rules.document commits).sections[j] =
          (rules.document commits).sections[i] := by
        rw [hpart, ← hcategory]
        exact hsection ⟨j, hj⟩
      rw [Fin.mk.injEq]
      exact (RuleSet.nodup_sections commits hrules).getElem_inj_iff.1 hsame
  · refine hnot ((rules.placed_iff _).2 ?_)
    rw [(rules.mem_rows commits).1 hrow, Option.isSome_some]

/-- Rules by which a label belongs to two categories, the later number being
    declared first. -/
def sharedLabelRules : RuleSet :=
  { RuleSet.standard with
    categories :=
      [⟨"late", "Late", .ofList ["bug", "feature"], 9⟩,
       ⟨"early", "Early", .ofList ["doc", "feature"], 1⟩] }

/-- Commits of which two are alike, one came with a label that its title does
    not give it, and one goes nowhere. -/
def mixedCommits : List Commit :=
  [{ hash := "a", title := "feat: x" }, { hash := "b", title := "feat: x", label := "doc" },
   { hash := "a", title := "feat: x" }, { hash := "c", title := "wip" }]

theorem sharedLabelRules_account_for_mixedCommits :
    sharedLabelRules.check = .ok () ∧
      (∃ rows, (sharedLabelRules.document mixedCommits).Accounts sharedLabelRules mixedCommits
        rows) ∧
      (sharedLabelRules.document mixedCommits).entryCount =
        mixedCommits.countP fun commit => decide (sharedLabelRules.Placed commit) :=
  ⟨rfl, document_accounts_for_all sharedLabelRules mixedCommits rfl⟩

end ReleaseNotes
