import ReleaseNotes.Notes
import ReleaseNotes.Proofs.Lines
import ReleaseNotes.Proofs.Sections

/-!
# The Outcome of a Run

What a run answers, for all rules and for all that a source can answer.

There are three outcomes, and of the causes for them the first one in this order
counts: a fault of the rules, a fault of the source, and otherwise there are
notes. `run_eq` says that in one equation, so nothing else has to look into a
run.

The notes look at different things. What they say about the tag and the number of
commits is read off the range, the number of commits in the notes is that of the
entries of the document, and the text is rendered from it. That these fit
together needs what is known about documents: every section has an entry, and no
commit has two. So the text is empty when nothing has a category, and in no other
case.

The warnings are said by what warrants them, one by one. Their order is that of
`Warning.rank`, and since no two of them have the same rank the list is given by
that.

## Main definitions

* `RuleSet.asked`: The rules with contributors listed if that is asked for.
* `CommitRange.Warrants`: What a warning is raised for.
* `Notes.Reports`: What notes say about a range.

## Theorems

* `RuleSet.run_eq`: The outcome of a run.
* `CommitRange.mem_warnings_iff`, `CommitRange.pairwise_warnings`: The warnings
  about a range.
* `Document.render_eq_empty_iff_entryCount`: A text is empty if it has no entry.
* `RuleSet.run_reports`: What a run answers.
-/

namespace ReleaseNotes

namespace RuleSet

variable (rules : RuleSet)

/-- The rules with the list of contributors switched on if that is asked for. -/
def asked (contributors : Bool) : RuleSet :=
  rules.listContributors (rules.contributors.enabled || contributors)

theorem check_asked (contributors : Bool) : (rules.asked contributors).check = rules.check := rfl

theorem document_asked (contributors : Bool) (commits : List Commit) :
    (rules.asked contributors).document commits = rules.document commits := rfl

/-- The fault of the rules comes first, then that of the source. -/
theorem run_eq (source : Except SourceFault CommitRange) (contributors : Bool) :
    rules.run source contributors =
      match rules.check, source with
      | .error fault, _ => .error (.rules fault)
      | .ok (), .error fault => .error (.source fault)
      | .ok (), .ok range => .ok ((rules.asked contributors).notesFor range) := by
  have hasked : (if contributors then rules.listContributors true else rules) =
      rules.asked contributors := by
    cases contributors <;> simp [asked, listContributors]
  simp only [run, hasked, check_asked]
  cases rules.check with
  | error fault => rfl
  | ok _ => cases source <;> rfl

variable {rules}

theorem run_of_check_eq_error {fault : RuleFault} (h : rules.check = .error fault)
    (source : Except SourceFault CommitRange) (contributors : Bool) :
    rules.run source contributors = .error (.rules fault) := by
  rw [run_eq, h]

theorem run_error (hrules : rules.check = .ok ()) (fault : SourceFault) (contributors : Bool) :
    rules.run (.error fault) contributors = .error (.source fault) := by
  rw [run_eq, hrules]

theorem run_ok (hrules : rules.check = .ok ()) (range : CommitRange) (contributors : Bool) :
    rules.run (.ok range) contributors = .ok ((rules.asked contributors).notesFor range) := by
  rw [run_eq, hrules]

end RuleSet

/-- The place of a warning among others. -/
def Warning.rank : Warning → Nat
  | .noNewCommits _ _ => 0
  | .noReleaseTag _ => 1
  | .nothingCategorized _ => 2

namespace CommitRange

variable (range : CommitRange) (rendered : Nat)

/-- A warning is warranted for a range of which so many commits are in the
    notes. -/
inductive Warrants : Warning → Prop
  /-- There is a tag and no commit. -/
  | noNewCommits {tag : String} (htag : range.sinceTag = some tag) (hnone : range.commits = []) :
      Warrants (.noNewCommits tag range.head)
  /-- There is no tag. -/
  | noReleaseTag (htag : range.sinceTag = none) : Warrants (.noReleaseTag range.head)
  /-- There are commits, and none of them is in the notes. -/
  | nothingCategorized (hsome : 0 < range.commits.length) (hrendered : rendered = 0) :
      Warrants (.nothingCategorized range.commits.length)

theorem mem_startWarnings_iff (warning : Warning) :
    warning ∈ range.startWarnings ↔
      (∃ tag, range.sinceTag = some tag ∧ range.commits = [] ∧
        warning = .noNewCommits tag range.head) ∨
      range.sinceTag = none ∧ warning = .noReleaseTag range.head := by
  unfold startWarnings
  cases range.sinceTag with
  | none => simp
  | some tag => cases range.commits <;> simp

/-- A warning is raised if it is warranted, and only then. -/
theorem mem_warnings_iff (warning : Warning) :
    warning ∈ range.warnings rendered ↔ range.Warrants rendered warning := by
  rw [warnings, List.mem_append, mem_startWarnings_iff]
  constructor
  · rintro ((⟨tag, htag, hnone, rfl⟩ | ⟨htag, rfl⟩) | hmem)
    · exact .noNewCommits htag hnone
    · exact .noReleaseTag htag
    · split at hmem
      · rename_i hcond
        obtain ⟨hsome, hrendered⟩ := Bool.and_eq_true_iff.1 hcond
        rw [List.mem_singleton.1 hmem]
        exact .nothingCategorized (by simpa [List.length_pos_iff] using hsome)
          (by simpa using hrendered)
      · cases hmem
  · rintro (⟨htag, hnone⟩ | htag | ⟨hsome, hrendered⟩)
    · exact .inl (.inl ⟨_, htag, hnone, rfl⟩)
    · exact .inl (.inr ⟨htag, rfl⟩)
    · right
      rw [if_pos (by simpa [hrendered, List.length_pos_iff] using hsome)]
      exact List.mem_singleton_self _

/-- Warnings are raised in the order of their ranks, no two of the same rank. -/
theorem pairwise_warnings :
    (range.warnings rendered).Pairwise fun a b => a.rank < b.rank := by
  have hstart : range.startWarnings.Pairwise fun a b => a.rank < b.rank := by
    unfold startWarnings
    split
    · split
      · exact List.pairwise_singleton _ _
      · exact .nil
    · exact List.pairwise_singleton _ _
  refine List.pairwise_append.2 ⟨hstart, ?_, ?_⟩
  · split
    · exact List.pairwise_singleton _ _
    · exact .nil
  · -- What is about the start of a range comes before what is about its commits.
    intro a ha b hb
    split at hb
    · rw [List.mem_singleton.1 hb]
      rcases (mem_startWarnings_iff range a).1 ha with ⟨tag, -, -, rfl⟩ | ⟨-, rfl⟩
      · exact Nat.zero_lt_two
      · exact Nat.one_lt_two
    · cases hb

/-- If no commit is in the notes, there is something to warn of. -/
theorem exists_warrants : ∃ warning, range.Warrants 0 warning := by
  cases htag : range.sinceTag with
  | none => exact ⟨_, .noReleaseTag htag⟩
  | some tag =>
      by_cases hnone : range.commits = []
      · exact ⟨_, .noNewCommits htag hnone⟩
      · exact ⟨_, .nothingCategorized (List.length_pos_iff.2 hnone) rfl⟩

end CommitRange

namespace Document

theorem entryCount_eq_zero_iff (document : Document) :
    document.entryCount = 0 ↔ document.sections = [] := by
  rw [entryCount, List.length_eq_zero_iff, entries, List.flatMap_eq_nil_iff,
    List.eq_nil_iff_forall_not_mem]
  exact ⟨fun h part hpart => document.inhabited part hpart (h part hpart),
    fun h part hpart => absurd hpart (h part)⟩

/-- A document is rendered as the empty text if it has no entry. -/
theorem render_eq_empty_iff_entryCount (rules : RuleSet) (document : Document) :
    document.render rules = "" ↔ document.entryCount = 0 := by
  rw [render_eq_empty_iff, entryCount_eq_zero_iff]

end Document

/-- What notes by some rules say about a range. -/
structure Notes.Reports (rules : RuleSet) (range : CommitRange) (notes : Notes) : Prop where
  text : notes.text = rules.notes range.commits
  sinceTag : notes.sinceTag = range.sinceTag
  commitCount : notes.commitCount = range.commits.length
  renderedCount : notes.renderedCount = (rules.document range.commits).entries.length
  renderedCount_le : notes.renderedCount ≤ notes.commitCount
  /-- The warnings are those that are warranted. -/
  warnings : ∀ warning, warning ∈ notes.warnings ↔ range.Warrants notes.renderedCount warning
  /-- They stand in the order of their ranks. -/
  inOrder : notes.warnings.Pairwise fun a b => a.rank < b.rank

namespace RuleSet

theorem notesFor_reports {rules : RuleSet} (hrules : rules.check = .ok ()) (range : CommitRange) :
    (rules.notesFor range).Reports rules range where
  text := rfl
  sinceTag := rfl
  commitCount := rfl
  renderedCount := rfl
  renderedCount_le := by
    have hcount := entryCount_document range.commits hrules
    show (rules.document range.commits).entryCount ≤ range.commits.length
    rw [hcount]
    exact List.countP_le_length
  warnings := range.mem_warnings_iff _
  inOrder := range.pairwise_warnings _

/-- Faulty rules stop a run with their fault, whatever the source answers. With
    faultless ones a fault of the source is passed on, and a range gives notes
    that report on it. The text is empty if no commit is in the notes, and then
    there is a warning. -/
theorem run_reports (rules : RuleSet) (source : Except SourceFault CommitRange)
    (contributors : Bool) :
    (∀ fault, rules.check = .error fault →
      rules.run source contributors = .error (.rules fault)) ∧
    (rules.check = .ok () →
      (∀ fault, source = .error fault →
        rules.run source contributors = .error (.source fault)) ∧
      ∀ range, source = .ok range →
        ∃ notes, rules.run source contributors = .ok notes ∧
          notes.Reports (rules.asked contributors) range ∧
          (notes.text = "" ↔ notes.renderedCount = 0) ∧
          (notes.text = "" → notes.warnings ≠ [])) := by
  refine ⟨fun fault hfault => run_of_check_eq_error hfault source contributors,
    fun hrules => ⟨?_, ?_⟩⟩
  · rintro fault rfl
    exact run_error hrules fault contributors
  · rintro range rfl
    have hreports := notesFor_reports ((rules.check_asked contributors).trans hrules) range
    have hempty : ((rules.asked contributors).notesFor range).text = "" ↔
        ((rules.asked contributors).notesFor range).renderedCount = 0 :=
      Document.render_eq_empty_iff_entryCount _ _
    refine ⟨_, run_ok hrules range contributors, hreports, hempty, fun htext => ?_⟩
    obtain ⟨warning, hwarning⟩ := range.exists_warrants
    rw [← hempty.1 htext] at hwarning
    exact List.ne_nil_of_mem ((hreports.warnings warning).2 hwarning)

/-- The standard rules with a key that is there twice. -/
def repeating : RuleSet :=
  { standard with categories := standard.categories ++ [⟨"bug", "Bugs", .empty, 5⟩] }

/-- A range behind a tag, of a commit that goes under no category. -/
def unsorted : CommitRange where
  sinceTag := some "v1"
  head := "a"
  commits := [{ hash := "a", title := "wip" }]

theorem repeating_and_standard_run_reports :
    repeating.run (.error (.opening .absent)) true = .error (.rules (.repeatedKey "bug")) ∧
      standard.run (.error (.opening .absent)) true = .error (.source (.opening .absent)) ∧
      ∃ notes, standard.run (.ok unsorted) true = .ok notes ∧
        notes.Reports (standard.asked true) unsorted ∧ notes.renderedCount = 0 ∧
        notes.text = "" ∧ .nothingCategorized 1 ∈ notes.warnings := by
  have hstandard : standard.check = .ok () := rfl
  obtain ⟨notes, hrun, hreports, hempty, -⟩ :=
    ((run_reports standard (.ok unsorted) true).2 hstandard).2 unsorted rfl
  have hcount : notes.renderedCount = 0 := by
    exact hreports.renderedCount.trans (entryCount_document unsorted.commits hstandard)
  refine ⟨(run_reports repeating _ true).1 (.repeatedKey "bug") rfl,
    ((run_reports standard _ true).2 hstandard).1 _ rfl,
    notes, hrun, hreports, hcount, hempty.2 hcount, ?_⟩
  exact (hreports.warnings _).2 (.nothingCategorized Nat.one_pos hcount)

end RuleSet

end ReleaseNotes
