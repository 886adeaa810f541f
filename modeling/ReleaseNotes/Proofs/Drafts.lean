import Mathlib.Data.List.Induction
import ReleaseNotes.Draft
import ReleaseNotes.Proofs.Outcome

/-!
# What Changes Make of a Draft

A draft is two things that are changed side by side, and its notes are those of any run
with the same rules and the same range.

Each change is about the rules or about the range, and leaves the other one alone. So of
a list of changes only the order among those of a kind counts: what is left when the
others are taken out decides what becomes of each part (`changeAll_eq`).

What a range is after changes is told without going through them one by one
(`range_changeAll`). Clearing it makes it forget everything, and since then it has every
commit that was added, in the order of adding, and the tag and the head that were named
last. Nothing like that can be said of the rules, where a change may take back what
another one did; but a rule set that is put in place as a whole makes the changes before
it forgotten too.

That any range and any rules can be made (`exists_changes`) is why what is proved of runs
holds of drafts. Faults of the rules are the only ones that a draft may have, and they
do not depend on the range.

## Main definitions

* `Change.isOfRange`: A change that is about the range.
* `changeAll`: A draft after a list of changes.
* `changesTo`: Changes that make a range.

## Theorems

* `changeAll_eq`: What becomes of each part of a draft.
* `changeAll_congr`: Changes of different kinds may be made in any order.
* `range_changeAll`, `range_changeAll_clear`: What a range is after changes.
* `rules_changeAll_use`: What rules are after others have been put in their place.
* `changeRules_reorder_of_le`, `changeRules_drop_add`: Changes that come to nothing.
* `exists_changes`: Every draft can be made of every other one.
* `notes_eq`, `notes_isOk_iff`: What notes a draft has.
* `document_of_notes`: The notes of a draft show its document.
-/

namespace ReleaseNotes

namespace Draft

namespace Change

/-- The change is about the range of commits. All others are about the rules. -/
def isOfRange : Change → Bool
  | addCommit _ | sinceTag _ | head _ | clearRange => true
  | useRules _ | addCategory _ | dropCategory | reorder _ _ | addLabelRule _ | addTitleRule _
  | entryFormat _ | headingFormat _ | contributorTitle _ | contributorFormat _
  | listContributors _ => false

/-- The commit that a change adds. -/
def commit? : Change → Option Commit
  | addCommit commit => some commit
  | _ => none

/-- The tag that a change names. -/
def tag? : Change → Option String
  | sinceTag tag => some tag
  | _ => none

/-- The head that a change names. -/
def head? : Change → Option String
  | head hash => some hash
  | _ => none

end Change

/-- A draft after changes, one after the other. -/
def changeAll (draft : Draft) (changes : List Change) : Draft :=
  changes.foldl change draft

variable {draft : Draft} {changes others : List Change}

section parts

theorem changeRules_of_isOfRange {change : Change} (h : change.isOfRange = true)
    (rules : RuleSet) : changeRules rules change = rules := by
  cases change with
  | addCommit | sinceTag | head | clearRange => rfl
  | _ => cases h

theorem changeRange_of_not_isOfRange {change : Change} (h : change.isOfRange = false)
    (range : CommitRange) : changeRange range change = range := by
  cases change with
  | addCommit | sinceTag | head | clearRange => cases h
  | _ => rfl

/-- Each part of a draft is changed by the changes that are about it. -/
theorem changeAll_eq (draft : Draft) (changes : List Change) :
    draft.changeAll changes =
      { rules := (changes.filter (!·.isOfRange)).foldl changeRules draft.rules
        range := (changes.filter (·.isOfRange)).foldl changeRange draft.range } := by
  induction changes generalizing draft with
  | nil => rfl
  | cons change changes ih =>
      have hcons : draft.changeAll (change :: changes) = (draft.change change).changeAll changes :=
        rfl
      rw [hcons, ih, List.filter_cons, List.filter_cons]
      cases hkind : change.isOfRange with
      | true => rw [Draft.change, changeRules_of_isOfRange hkind]; rfl
      | false => rw [Draft.change, changeRange_of_not_isOfRange hkind]; rfl

/-- Only the order among the changes of the rules and that among the changes of the range
    count. -/
theorem changeAll_congr
    (hrules : changes.filter (!·.isOfRange) = others.filter (!·.isOfRange))
    (hrange : changes.filter (·.isOfRange) = others.filter (·.isOfRange)) (draft : Draft) :
    draft.changeAll changes = draft.changeAll others := by
  rw [changeAll_eq, changeAll_eq, hrules, hrange]

end parts

section range

theorem changeAll_append (draft : Draft) (changes others : List Change) :
    draft.changeAll (changes ++ others) = (draft.changeAll changes).changeAll others :=
  List.foldl_append

/-- What a range is after changes that do not clear it. -/
theorem range_changeAll (h : .clearRange ∉ changes) (draft : Draft) :
    (draft.changeAll changes).range =
      { sinceTag := (changes.filterMap Change.tag?).getLast?.or draft.range.sinceTag
        head := (changes.filterMap Change.head?).getLast?.getD draft.range.head
        commits := draft.range.commits ++ changes.filterMap Change.commit? } := by
  -- The last change decides what was named last, so the induction goes from the end.
  induction changes using List.reverseRecOn with
  | nil => simp [changeAll]
  | append_singleton changes change ih =>
      rw [List.mem_append, not_or, List.mem_singleton] at h
      have hlast : (draft.changeAll (changes ++ [change])).range =
          changeRange (draft.changeAll changes).range change := by
        rw [changeAll_append]
        rfl
      rw [hlast, ih h.1]
      cases change with
      | clearRange => exact absurd rfl h.2
      | addCommit commit =>
          simp [changeRange, CommitRange.push, Change.tag?, Change.head?, Change.commit?]
      | _ => simp [changeRange, Change.tag?, Change.head?, Change.commit?]

/-- What a range is after it has been cleared, whatever it was before. -/
theorem range_changeAll_clear (h : .clearRange ∉ others) (draft : Draft) (changes : List Change) :
    (draft.changeAll (changes ++ .clearRange :: others)).range =
      { sinceTag := (others.filterMap Change.tag?).getLast?
        head := (others.filterMap Change.head?).getLast?.getD ""
        commits := others.filterMap Change.commit? } := by
  have hclear : draft.changeAll (changes ++ .clearRange :: others) =
      ((draft.changeAll changes).change .clearRange).changeAll others :=
    changeAll_append ..
  rw [hclear, range_changeAll h]
  simp [Draft.change, changeRange, CommitRange.empty]

end range

section rules

/-- Rules that are put in place as a whole make earlier changes of the rules forgotten. -/
theorem rules_changeAll_use (draft : Draft) (changes others : List Change) (rules : RuleSet) :
    (draft.changeAll (changes ++ .useRules rules :: others)).rules =
      (({ draft with rules } : Draft).changeAll others).rules := by
  have huse : draft.changeAll (changes ++ .useRules rules :: others) =
      ((draft.changeAll changes).change (.useRules rules)).changeAll others :=
    changeAll_append ..
  rw [huse, changeAll_eq, changeAll_eq { draft with rules }]
  rfl

/-- The order of a category beyond the last one cannot be changed. -/
theorem changeRules_reorder_of_le {rules : RuleSet} {index : Nat}
    (h : rules.categories.length ≤ index) (order : Int) :
    changeRules rules (.reorder index order) = rules := by
  rw [changeRules, List.modify_eq_self h]

/-- Dropping a category takes back that it was added. -/
theorem changeRules_drop_add (rules : RuleSet) (category : Category) :
    changeRules (changeRules rules (.addCategory category)) .dropCategory = rules := by
  simp [changeRules]

/-- The changes that make a range out of one without anything in it. -/
def changesTo (range : CommitRange) : List Change :=
  range.sinceTag.toList.map .sinceTag ++ .head range.head :: range.commits.map .addCommit

/-- Every draft can be made of every other one. -/
theorem exists_changes (draft other : Draft) : ∃ changes, draft.changeAll changes = other := by
  obtain ⟨rules, range⟩ := other
  refine ⟨[.useRules rules] ++ .clearRange :: changesTo range, ?_⟩
  have hrules : (draft.changeAll ([.useRules rules] ++ .clearRange :: changesTo range)).rules =
      rules := by
    have hnone : (changesTo range).filter (!·.isOfRange) = [] := by
      simp [changesTo, Change.isOfRange]
    rw [changeAll_eq]
    show (Change.useRules rules :: (changesTo range).filter (!·.isOfRange)).foldl changeRules
      draft.rules = rules
    rw [hnone]
    rfl
  have hrange : (draft.changeAll ([.useRules rules] ++ .clearRange :: changesTo range)).range =
      range := by
    have htags : (changesTo range).filterMap Change.tag? = range.sinceTag.toList := by
      simp [changesTo, Change.tag?, Function.comp_def]
    have hheads : (changesTo range).filterMap Change.head? = [range.head] := by
      simp [changesTo, Change.head?, Function.comp_def]
    have hcommits : (changesTo range).filterMap Change.commit? = range.commits := by
      simp [changesTo, Change.commit?, List.filterMap_cons, Function.comp_def]
    rw [range_changeAll_clear (by simp [changesTo]), htags, hheads, hcommits]
    cases range with
    | mk sinceTag head commits => cases sinceTag <;> rfl
  exact congr (congrArg mk hrules) hrange

end rules

section notes

variable {contributors : Bool}

/-- A draft has notes if its rules have no fault, and they are those of any run by these
    rules over this range. -/
theorem notes_eq (draft : Draft) (contributors : Bool) :
    draft.notes contributors =
      match draft.rules.check with
      | .error fault => .error (.rules fault)
      | .ok () => .ok ((draft.rules.asked contributors).notesFor draft.range) := by
  rw [notes, RuleSet.run_eq]
  cases draft.rules.check <;> rfl

/-- Whether there are notes depends on the rules alone. -/
theorem notes_isOk_iff :
    (∃ notes, draft.notes contributors = .ok notes) ↔ draft.rules.check = .ok () := by
  rw [notes_eq]
  cases hcheck : draft.rules.check with
  | error fault => simp
  | ok _ => exact ⟨fun _ => rfl, fun _ => ⟨_, rfl⟩⟩

/-- The notes of a draft show its document, and count the entries of it. -/
theorem document_of_notes {notes : Notes} (h : draft.notes contributors = .ok notes) :
    ∃ document, draft.document = .ok document ∧
      notes.text = document.render (draft.rules.asked contributors) ∧
      notes.renderedCount = document.entryCount ∧
      notes.commitCount = draft.range.commits.length := by
  have hcheck := notes_isOk_iff.1 ⟨notes, h⟩
  rw [notes_eq, hcheck] at h
  obtain rfl := Except.ok.inj h
  refine ⟨draft.rules.document draft.range.commits, ?_, rfl, rfl, rfl⟩
  rw [document, RuleSet.checked, hcheck]
  rfl

end notes

end Draft

end ReleaseNotes
