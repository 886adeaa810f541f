import Mathlib.Logic.Relation
import ReleaseNotes.Proofs.Sections

/-!
# Interleaved Commits

What notes depend on: for each category the commits that go under it, in the order
they came in. How the commits of one category stand among those of another plays no
part, and commits that go nowhere play none either.

This is said in two ways. `SameMembers` compares two lists as wholes, by what is left
of them for each category. `Move` is a single change, by which a commit that goes
nowhere is put in at some place, or two neighbours that go under different categories
change places. A move keeps what is left for each category, so any number of moves
does, made or taken back.

The list of contributors is no exception. Its names stand in the order in which a
reader meets them, and a reader meets them in the document.

## Main definitions

* `RuleSet.SameMembers`: Two lists with the same commits under each category.
* `RuleSet.Move`: One change that leaves the commits under each category.

## Theorems

* `RuleSet.document_eq_of_sameMembers`: Such lists give the same document.
* `RuleSet.Move.sameMembers`: What one change leaves.
* `RuleSet.sameMembers_of_moves`: What any number of changes leaves.
* `RuleSet.notes_of_sameMembers`: The same documents and the same texts.
-/

namespace ReleaseNotes

namespace RuleSet

variable (rules : RuleSet)

instance (commit : Commit) : DecidablePred (rules.Home commit) :=
  fun category => decidable_of_iff _ (rules.home_iff commit category).symm

/-- The commits under each category are the same in both lists, and stand in the same
    order. -/
def SameMembers (commits others : List Commit) : Prop :=
  ∀ category ∈ rules.categories,
    others.filter (fun commit => decide (rules.Home commit category)) =
      commits.filter fun commit => decide (rules.Home commit category)

/-- One change to a list of commits that leaves the commits under each category. -/
inductive Move : List Commit → List Commit → Prop
  /-- A commit that goes nowhere is put in. -/
  | insert (before after : List Commit) {commit : Commit} (h : ¬ rules.Placed commit) :
      Move (before ++ after) (before ++ commit :: after)
  /-- Two neighbours that go under different categories change places. -/
  | swap (before after : List Commit) {a b : Commit} {first second : Category}
      (ha : rules.Home a first) (hb : rules.Home b second) (hne : first ≠ second) :
      Move (before ++ a :: b :: after) (before ++ b :: a :: after)

variable {rules}

theorem members_eq_filter (commits : List Commit) (category : Category) :
    rules.members commits category =
      commits.filter fun commit => decide (rules.Home commit category) := by
  refine List.filter_congr fun commit _ => ?_
  rw [Bool.eq_iff_iff, beq_iff_eq, decide_eq_true_eq, home_iff]

/-- No commit goes under two categories. -/
theorem Home.unique {commit : Commit} {first second : Category}
    (h : rules.Home commit first) (h' : rules.Home commit second) : first = second := by
  rw [home_iff] at h h'
  exact Option.some.inj (h.symm.trans h')

/-- The document is told by the commits under each category. -/
theorem document_eq_of_sameMembers (hrules : rules.check = .ok ()) {commits others : List Commit}
    (h : rules.SameMembers commits others) : rules.document others = rules.document commits := by
  refine document_eq_of_sectionOf commits hrules hrules rfl fun category hmem => ?_
  rw [sectionOf, sectionOf, members_eq_filter, members_eq_filter, h category hmem]

/-- What one change leaves. -/
theorem Move.sameMembers {commits others : List Commit} (h : rules.Move commits others) :
    rules.SameMembers commits others := by
  intro category _
  cases h with
  | @insert before after commit hnot =>
      have hhome : ¬ rules.Home commit category :=
        fun hhome => hnot ((rules.placed_iff_exists_home commit).2 ⟨category, hhome⟩)
      simp only [List.filter_append, List.filter_cons, decide_eq_true_eq, if_neg hhome]
  | @swap before after a b first second ha hb hne =>
      simp only [List.filter_append, List.filter_cons, decide_eq_true_eq]
      by_cases hfirst : rules.Home a category
      · -- The other neighbour goes elsewhere, so there is only one to be kept.
        have hsecond : ¬ rules.Home b category :=
          fun hsecond => hne ((ha.unique hfirst).trans (hb.unique hsecond).symm)
        simp only [if_pos hfirst, if_neg hsecond]
      · simp only [if_neg hfirst]

/-- What any number of changes leaves, made or taken back. -/
theorem sameMembers_of_moves {commits others : List Commit}
    (h : Relation.EqvGen rules.Move commits others) : rules.SameMembers commits others := by
  induction h with
  | rel commits others hmove => exact hmove.sameMembers
  | refl commits => exact fun _ _ => rfl
  | symm commits others _ ih => exact fun category hmem => (ih category hmem).symm
  | trans commits middle others _ _ ih ih' =>
      exact fun category hmem => (ih' category hmem).trans (ih category hmem)

/-- Lists with the same commits under each category give the same document and the same
    text. So nothing changes if commits that go nowhere are put in or taken out, or if
    neighbours that go under different categories change places, any number of
    times. -/
theorem notes_of_sameMembers (rules : RuleSet) (hrules : rules.check = .ok ()) :
    (∀ commits others, rules.SameMembers commits others →
      rules.document others = rules.document commits ∧
        rules.notes others = rules.notes commits) ∧
    (∀ commits others, Relation.EqvGen rules.Move commits others →
      rules.document others = rules.document commits ∧
        rules.notes others = rules.notes commits) := by
  have hsame : ∀ commits others, rules.SameMembers commits others →
      rules.document others = rules.document commits ∧
        rules.notes others = rules.notes commits := by
    intro commits others h
    have hdocument := document_eq_of_sameMembers hrules h
    exact ⟨hdocument, by rw [notes, notes, hdocument]⟩
  exact ⟨hsame, fun commits others h => hsame commits others (sameMembers_of_moves h)⟩

theorem notes_of_moved_contributors :
    let rules := standard.listContributors true
    let first : Commit := { hash := "a", title := "fix: x", author := some "Ann" }
    let second : Commit := { hash := "b", title := "feat: y", author := some "Bob" }
    let nowhere : Commit := { hash := "c", title := "wip", author := some "Cy" }
    rules.check = .ok () ∧ rules.SameMembers [first, second] [second, nowhere, first] ∧
      Relation.EqvGen rules.Move [first, second] [second, nowhere, first] ∧
      rules.document [second, nowhere, first] = rules.document [first, second] ∧
      rules.notes [second, nowhere, first] = rules.notes [first, second] := by
  intro rules first second nowhere
  have hrules : rules.check = .ok () := rfl
  have hfirst : rules.Home first ⟨"bug", "🐞 Bug Fixes", .ofList ["bug"], 2⟩ := by decide
  have hsecond : rules.Home second ⟨"feature", "🚀 New Features", .ofList ["feature"], 1⟩ := by
    decide
  have hswap : rules.Move [first, second] [second, first] :=
    .swap [] [] hfirst hsecond (by decide)
  have hinsert : rules.Move [second, first] [second, nowhere, first] :=
    .insert [second] [first] (by decide)
  have hmoves : Relation.EqvGen rules.Move [first, second] [second, nowhere, first] :=
    .trans _ _ _ (.rel _ _ hswap) (.rel _ _ hinsert)
  have hsame : rules.SameMembers [first, second] [second, nowhere, first] :=
    sameMembers_of_moves hmoves
  obtain ⟨hmembers, hmoved⟩ := notes_of_sameMembers rules hrules
  exact ⟨hrules, hsame, hmoves, (hmembers _ _ hsame).1, (hmoved _ _ hmoves).2⟩

end RuleSet

end ReleaseNotes
