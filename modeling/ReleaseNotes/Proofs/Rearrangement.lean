import Mathlib.Data.List.FinRange
import Mathlib.Logic.Equiv.Fin.Rotate
import ReleaseNotes.Proofs.Sections

/-!
# Rearranged Categories

What the order decides in which categories are declared: which of several
categories gets the commits with a label that all of them take in, and nothing
else.

A rearrangement moves each element of a list to a place of its own. It is given by
where the places go and not by the two lists, because a list can have equal elements,
and what is asked of a rearrangement is asked of any two places. Some elements are
related, and those must not overtake each other.

Whoever looks for the first element with a property does not notice a rearrangement
if all elements with that property are related. The first of them stands before the
others and stays there. Categories that take the same label in overlap, so each commit
finds the category it found before, wherever that one is declared now. The sections are
the same for that reason, and their order is that of the numbers, which no
rearrangement changes.

## Main definitions

* `Rearranged`: The elements of a list in other places, related ones in the same order.
* `Category.Overlaps`: Two categories have a label in common.
* `RuleSet.Rearranged`: Two rule sets differ in where categories are declared only.

## Theorems

* `Rearranged.of_perm`: Elements that are not related may go anywhere.
* `Rearranged.find?_eq`: The first of elements that are all related stays the first.
* `RuleSet.Rearranged.home?_eq`: Every commit finds the same category.
* `RuleSet.notes_of_rearranged`: What rearranging does to documents and texts.
-/

namespace ReleaseNotes

/-- The elements of the first list stand in the second one, each in a place of its
    own, and of two related elements the one that stood first still does. -/
def Rearranged {α : Type} (related : α → α → Prop) (xs ys : List α) : Prop :=
  ∃ move : Fin xs.length ≃ Fin ys.length, (∀ i, ys[move i] = xs[i]) ∧
    ∀ i j, i < j → related xs[i] xs[j] → move i < move j

namespace Rearranged

variable {α : Type} {related : α → α → Prop} {xs ys : List α}

theorem perm (h : Rearranged related xs ys) : xs.Perm ys := by
  obtain ⟨move, hmove, -⟩ := h
  -- Every place of the second list is gone to from one place of the first.
  have hplaces : ((List.finRange xs.length).map move).Perm (List.finRange ys.length) := by
    refine (List.perm_ext_iff_of_nodup
      ((List.nodup_finRange _).map move.injective) (List.nodup_finRange _)).2 fun i => ?_
    simp only [List.mem_map, List.mem_finRange, true_and, iff_true]
    exact move.surjective i
  -- What stands at the places gone to is what stood at those it came from.
  have helements : ((List.finRange xs.length).map move).map ys.get = xs := by
    rw [List.map_map]
    conv_rhs => rw [← List.map_get_finRange xs]
    exact List.map_congr_left fun i _ => hmove i
  have hys := hplaces.map ys.get
  rw [helements, List.map_get_finRange] at hys
  exact hys

/-- If no two elements are related they may go anywhere. -/
theorem of_perm [DecidableEq α] (hperm : xs.Perm ys)
    (hpairs : xs.Pairwise fun a b => ¬ related a b) : Rearranged related xs ys := by
  refine ⟨⟨hperm.idxBij, hperm.symm.idxBij, hperm.idxBij_rightInverse_idxBij_symm,
    hperm.idxBij_leftInverse_idxBij_symm⟩, hperm.getElem_idxBij_eq_getElem, ?_⟩
  intro i j hij hrelated
  exact absurd hrelated (List.pairwise_iff_getElem.1 hpairs i j i.isLt j.isLt hij)

/-- If all elements with a property are related, the first of them stays the
    first. -/
theorem find?_eq {p : α → Bool} (h : Rearranged related xs ys)
    (hrelated : ∀ x ∈ xs, ∀ y ∈ xs, p x = true → p y = true → related x y) :
    ys.find? p = xs.find? p := by
  cases hfind : xs.find? p with
  | none =>
      rw [List.find?_eq_none] at hfind ⊢
      intro y hy
      exact hfind y (h.perm.mem_iff.2 hy)
  | some x =>
      obtain ⟨move, hmove, hkeeps⟩ := h
      obtain ⟨hx, i, hi, rfl, hbefore⟩ := List.find?_eq_some_iff_getElem.1 hfind
      -- Whatever has the property stood at that place or behind it.
      have hfirst : ∀ k : Fin xs.length, p xs[k] = true → i ≤ k := by
        intro k hpk
        by_contra hlt
        have hnot := hbefore k (by omega)
        rw [← Fin.getElem_fin, hpk] at hnot
        exact Bool.noConfusion hnot
      refine List.find?_eq_some_iff_getElem.2
        ⟨hx, move ⟨i, hi⟩, (move ⟨i, hi⟩).isLt, hmove ⟨i, hi⟩, fun j hj => ?_⟩
      rw [Bool.not_eq_true', Bool.eq_false_iff]
      intro hp
      -- An element with the property before that place would come from a later one.
      obtain ⟨k, hk⟩ := move.surjective ⟨j, hj.trans (move ⟨i, hi⟩).isLt⟩
      obtain rfl : (move k : Nat) = j := congrArg Fin.val hk
      have hpk : p xs[k] = true := (congrArg p (hmove k)).symm.trans hp
      have hik : i ≠ k := by
        rintro rfl
        exact Nat.lt_irrefl _ hj
      have hlt : move ⟨i, hi⟩ < move k := by
        refine hkeeps ⟨i, hi⟩ k (Nat.lt_of_le_of_ne (hfirst k hpk) hik) ?_
        exact hrelated _ (List.getElem_mem hi) _ (List.getElem_mem k.isLt) hx hpk
      exact Nat.lt_asymm hj hlt

end Rearranged

/-- Two categories that have a label in common. -/
def Category.Overlaps (a b : Category) : Prop :=
  ∃ label ∈ a.labels.toList, label ∈ b.labels.toList

instance (a b : Category) : Decidable (a.Overlaps b) :=
  inferInstanceAs (Decidable (∃ label ∈ a.labels.toList, label ∈ b.labels.toList))

namespace RuleSet

/-- Two rule sets that differ in nothing but where their categories are declared. Of two
    categories with a label in common the same one is declared first. -/
structure Rearranged (rules other : RuleSet) : Prop where
  categories : ReleaseNotes.Rearranged Category.Overlaps rules.categories other.categories
  rest : other = { rules with categories := other.categories }

namespace Rearranged

variable {rules other : RuleSet} (h : rules.Rearranged other)
include h

theorem check_eq_ok (hrules : rules.check = .ok ()) : other.check = .ok () := by
  rw [check_eq_ok_iff] at hrules ⊢
  exact (h.categories.perm.pairwise_iff fun hapart => Std.Symm.symm _ _ hapart).1 hrules

theorem entry_eq (commit : Commit) : other.entry commit = rules.entry commit := by
  rw [h.rest]
  rfl

/-- Every commit finds the same category. -/
theorem home?_eq (commit : Commit) : other.home? commit = rules.home? commit := by
  unfold home?
  rw [h.entry_eq]
  refine congrArg _ (funext fun label => h.categories.find?_eq ?_)
  intro a _ b _ ha hb
  exact ⟨label, (accepts_iff a label).1 ha, (accepts_iff b label).1 hb⟩

theorem sectionOf_eq (commits : List Commit) (category : Category) :
    other.sectionOf commits category = rules.sectionOf commits category := by
  have hentry : other.entry = rules.entry := funext h.entry_eq
  simp only [sectionOf, members, h.home?_eq, hentry]

/-- The numbers leave one order only. -/
theorem sortedCategories_eq (hrules : rules.check = .ok ()) :
    other.sortedCategories = rules.sortedCategories := by
  have hperm : other.sortedCategories.Perm rules.sortedCategories :=
    (other.perm_sortedCategories.trans h.categories.perm.symm).trans
      rules.perm_sortedCategories.symm
  -- Numbers ascend strictly in both, so no two categories can stand either way around.
  refine hperm.eq_of_pairwise ?_ (pairwise_sortedCategories (h.check_eq_ok hrules))
    (pairwise_sortedCategories hrules)
  intro a b _ _ hab hba
  omega

theorem document_eq (hrules : rules.check = .ok ()) (commits : List Commit) :
    other.document commits = rules.document commits :=
  document_eq_of_sectionOf commits hrules (h.check_eq_ok hrules) (h.sortedCategories_eq hrules)
    fun category _ => h.sectionOf_eq commits category

/-- The texts of lines do not depend on the categories that are declared. -/
theorem render_eq (document : Document) : document.render other = document.render rules := by
  rw [h.rest]
  rfl

end Rearranged

/-- Categories of faultless rules may be declared in any order that leaves those with a
    label in common in their order: the rules stay faultless, and give the same
    documents and the same texts. If no two categories have a label in common, that is
    any order. -/
theorem notes_of_rearranged (rules : RuleSet) (hrules : rules.check = .ok ()) :
    (∀ other, rules.Rearranged other → other.check = .ok () ∧
      ∀ commits, other.document commits = rules.document commits ∧
        other.notes commits = rules.notes commits) ∧
    (rules.categories.Pairwise (fun a b => ¬ a.Overlaps b) →
      ∀ categories, rules.categories.Perm categories →
        rules.Rearranged { rules with categories }) := by
  refine ⟨fun other h => ⟨h.check_eq_ok hrules, fun commits => ⟨?_, ?_⟩⟩, ?_⟩
  · exact h.document_eq hrules commits
  · rw [notes, notes, h.document_eq hrules commits, h.render_eq]
  · intro hpairs categories hperm
    exact ⟨.of_perm hperm hpairs, rfl⟩

/-- Rules in which the first two of three categories have a label in common. -/
def overlapping : RuleSet :=
  { RuleSet.standard with
    categories :=
      [⟨"late", "Late", .ofList ["bug", "feature"], 9⟩,
       ⟨"early", "Early", .ofList ["doc", "feature"], 1⟩,
       ⟨"task", "Tasks", .ofList ["task"], 5⟩] }

/-- The same rules, with the last category declared first. -/
def overlappingTurned : RuleSet :=
  { overlapping with
    categories :=
      [⟨"task", "Tasks", .ofList ["task"], 5⟩,
       ⟨"late", "Late", .ofList ["bug", "feature"], 9⟩,
       ⟨"early", "Early", .ofList ["doc", "feature"], 1⟩] }

theorem notes_of_overlappingTurned :
    overlapping.check = .ok () ∧ overlapping.Rearranged overlappingTurned ∧
      overlappingTurned.check = .ok () ∧
      (∀ commits, overlappingTurned.document commits = overlapping.document commits ∧
        overlappingTurned.notes commits = overlapping.notes commits) ∧
      standard.check = .ok () ∧
      standard.Rearranged { standard with categories := standard.categories.reverse } := by
  have hoverlapping : overlapping.check = .ok () := rfl
  have hstandard : standard.check = .ok () := rfl
  have hturned : overlapping.Rearranged overlappingTurned :=
    ⟨⟨finRotate 3, by decide, by decide⟩, rfl⟩
  have hapart : standard.categories.Pairwise fun a b => ¬ a.Overlaps b := by decide
  obtain ⟨hcheck, hsame⟩ := (notes_of_rearranged overlapping hoverlapping).1 _ hturned
  exact ⟨hoverlapping, hturned, hcheck, hsame, hstandard,
    (notes_of_rearranged standard hstandard).2 hapart _ (List.reverse_perm _).symm⟩

end RuleSet

end ReleaseNotes
