import Mathlib.Data.List.Basic
import Mathlib.Data.List.Nodup
import ReleaseNotes.Document

/-!
# Arranged Sections

What a document is made of when it is made of any sections.

The sections of a rule set all have different numbers, and then there is only one way to
put them in order. A document can also be put together by hand, from sections that have
numbers in common. For those it is promised that they keep their order, and that leaves
one way again. `ArrangedFrom` says all that is promised: the sections with an entry are
there, their numbers ascend, and those of one number stand as they came in.

That sections stand as they came in is said number by number. A list in which numbers
ascend is the sections of the least number, then those of the next one, and so on, so
two such lists are equal if they have the same sections under each number. The induction
compares the first sections. Either list has a section of the number that the other one
starts with, so neither starts with a greater number, and under that number both start
with the same section.

## Main definitions

* `Document.kept`: The sections that have an entry.
* `Document.under`: The sections with a number.
* `Document.ArrangedFrom`: Sections are put in order.

## Theorems

* `Document.under_arrange`: Sections with a number stay as they were.
* `Document.eq_of_under_eq`: The sections under each number are the whole list.
* `Document.ofSections_arranged`: How a document is made of sections.
-/

namespace ReleaseNotes

namespace Document

/-- The sections that have an entry. -/
def kept (sections : List Section) : List Section :=
  sections.filter fun part => !part.entries.isEmpty

/-- The sections with this number. -/
def under (n : Int) (sections : List Section) : List Section :=
  sections.filter fun part => part.category.order == n

/-- Some sections are what is left of the given ones when those without entries are
    dropped and the others are put in the order of their numbers. -/
structure ArrangedFrom (given arranged : List Section) : Prop where
  /-- The given sections that have an entry are there, and no others. -/
  members : arranged.Perm (kept given)
  ascending : arranged.Pairwise fun a b => a.category.order ≤ b.category.order
  /-- Sections with the same number stand as they were given. -/
  inSequence : ∀ n, under n arranged = under n (kept given)

theorem mem_under {n : Int} {sections : List Section} {part : Section} :
    part ∈ under n sections ↔ part ∈ sections ∧ part.category.order = n := by
  simp only [under, List.mem_filter, beq_iff_eq]

/-- Under a number that no section has there is nothing. So only the numbers of the given
    sections have to be looked at. -/
theorem arrangedFrom_iff {given arranged : List Section} :
    ArrangedFrom given arranged ↔
      arranged.Perm (kept given) ∧
        (arranged.Pairwise fun a b => a.category.order ≤ b.category.order) ∧
        ∀ n ∈ given.map (·.category.order), under n arranged = under n (kept given) := by
  constructor
  · intro h
    exact ⟨h.members, h.ascending, fun n _ => h.inSequence n⟩
  · rintro ⟨hmembers, hascending, hnumbers⟩
    refine ⟨hmembers, hascending, fun n => ?_⟩
    by_cases hn : n ∈ given.map (·.category.order)
    · exact hnumbers n hn
    · have hnil : under n (kept given) = [] := by
        refine List.eq_nil_iff_forall_not_mem.2 fun part hpart => hn ?_
        obtain ⟨hpart, horder⟩ := mem_under.1 hpart
        exact List.mem_map.2 ⟨part, List.mem_of_mem_filter hpart, horder⟩
      have hperm : (under n arranged).Perm (under n (kept given)) := hmembers.filter _
      rw [hnil] at hperm ⊢
      exact hperm.eq_nil

instance (given arranged : List Section) : Decidable (ArrangedFrom given arranged) :=
  decidable_of_iff _ arrangedFrom_iff.symm

theorem perm_arrange (given : List Section) : (arrange given).Perm (kept given) :=
  List.mergeSort_perm _ _

/-- Putting sections in order leaves those with one number as they were. -/
theorem under_arrange (n : Int) (given : List Section) :
    under n (arrange given) = under n (kept given) := by
  have htrans : ∀ a b c : Section, a.before b = true → b.before c = true → a.before c = true := by
    intro a b c hab hbc
    simp only [Section.before, decide_eq_true_eq] at *
    omega
  have htotal : ∀ a b : Section, (a.before b || b.before a) = true := by
    intro a b
    simp only [Section.before, Bool.or_eq_true, decide_eq_true_eq]
    omega
  -- Sections with one number are in order already, and sorting keeps what is in order.
  have hsame : (under n (kept given)).Pairwise fun a b => a.before b = true := by
    refine List.pairwise_of_forall_mem_list fun a ha b hb => ?_
    rw [mem_under] at ha hb
    simp only [Section.before, ha.2, hb.2, Int.le_refl, decide_true]
  have hsublist : (under n (kept given)).Sublist (arrange given) :=
    List.sublist_mergeSort htrans htotal hsame List.filter_sublist
  have hunder : (under n (kept given)).Sublist (under n (arrange given)) := by
    have h := hsublist.filter fun part => part.category.order == n
    simpa only [under, List.filter_filter, Bool.and_self] using h
  -- Nothing is added by sorting, so the two have the same length.
  exact (hunder.eq_of_length ((perm_arrange given).filter _).length_eq.symm).symm

theorem arrangedFrom_arrange (given : List Section) : ArrangedFrom given (arrange given) where
  members := perm_arrange given
  ascending := pairwise_arrange given
  inSequence n := under_arrange n given

/-- Lists with the same sections under each number have the same sections. -/
theorem mem_iff_of_under_eq {first second : List Section}
    (h : ∀ n, under n first = under n second) (part : Section) : part ∈ first ↔ part ∈ second := by
  have hnumber := h part.category.order
  constructor
  · intro hmem
    exact (mem_under.1 (hnumber ▸ mem_under.2 ⟨hmem, rfl⟩)).1
  · intro hmem
    exact (mem_under.1 (hnumber ▸ mem_under.2 ⟨hmem, rfl⟩)).1

/-- A list in which numbers ascend is told by its sections under each number. -/
theorem eq_of_under_eq {first second : List Section}
    (hfirst : first.Pairwise fun a b => a.category.order ≤ b.category.order)
    (hsecond : second.Pairwise fun a b => a.category.order ≤ b.category.order)
    (h : ∀ n, under n first = under n second) : first = second := by
  induction first generalizing second with
  | nil =>
      refine (List.eq_nil_iff_forall_not_mem.2 fun part hpart => ?_).symm
      exact List.not_mem_nil ((mem_iff_of_under_eq h part).2 hpart)
  | cons a rest ih =>
      cases second with
      | nil => exact absurd ((mem_iff_of_under_eq h a).1 List.mem_cons_self) List.not_mem_nil
      | cons b others =>
          rw [List.pairwise_cons] at hfirst hsecond
          -- Each list has the section that the other one starts with.
          have hle : a.category.order ≤ b.category.order := by
            rcases List.mem_cons.1 ((mem_iff_of_under_eq h b).2 List.mem_cons_self) with rfl | hb
            · exact Int.le_refl _
            · exact hfirst.1 b hb
          have hge : b.category.order ≤ a.category.order := by
            rcases List.mem_cons.1 ((mem_iff_of_under_eq h a).1 List.mem_cons_self) with rfl | ha
            · exact Int.le_refl _
            · exact hsecond.1 a ha
          have horder : b.category.order = a.category.order := Int.le_antisymm hge hle
          have hhead : a = b := by
            have hnumber := h a.category.order
            simp only [under, List.filter_cons, horder, beq_self_eq_true, if_true] at hnumber
            exact (List.cons.inj hnumber).1
          subst hhead
          refine congrArg (a :: ·) (ih hfirst.2 hsecond.2 fun n => ?_)
          have hnumber := h n
          by_cases hn : a.category.order = n
          · simp only [under, List.filter_cons, hn, beq_self_eq_true, if_true] at hnumber
            exact (List.cons.inj hnumber).2
          · have hfalse : (a.category.order == n) = false := beq_eq_false_iff_ne.2 hn
            simp only [under, List.filter_cons, hfalse] at hnumber
            exact hnumber

theorem ArrangedFrom.eq_arrange {given arranged : List Section}
    (h : ArrangedFrom given arranged) : arranged = arrange given := by
  refine eq_of_under_eq h.ascending (pairwise_arrange given) fun n => ?_
  rw [h.inSequence, under_arrange]

/-- If no two sections that have an entry have the same number, it does not matter in
    which order they were given. -/
theorem arrange_of_perm {given others : List Section}
    (hnumbers : ((kept given).map (·.category.order)).Nodup) (hperm : given.Perm others) :
    arrange others = arrange given := by
  have hkept : (arrange others).Perm (kept given) :=
    (perm_arrange others).trans (hperm.symm.filter _)
  refine (hkept.trans (perm_arrange given).symm).eq_of_pairwise ?_ (pairwise_arrange others)
    (pairwise_arrange given)
  -- Neither of two sections comes first only if they have the same number.
  intro a b ha hb hab hba
  exact List.inj_on_of_nodup_map hnumbers (hkept.mem_iff.1 ha)
    ((perm_arrange given).mem_iff.1 hb) (Int.le_antisymm hab hba)

/-- A document that is made of some sections has those of them that have an entry, in the
    order of their numbers, and those with the same number in the order in which they
    were given. No other list is put in order like this. A document is made again of its
    own sections. If the numbers differ, sections that are given in another order make
    the same document. -/
theorem ofSections_arranged (given : List Section) :
    ArrangedFrom given (ofSections given).sections ∧
      (∀ arranged, ArrangedFrom given arranged → arranged = (ofSections given).sections) ∧
      (∀ document : Document, ofSections document.sections = document) ∧
      (((kept given).map (·.category.order)).Nodup →
        ∀ others, given.Perm others → ofSections others = ofSections given) := by
  refine ⟨arrangedFrom_arrange given, fun _ h => h.eq_arrange, ofSections_sections, ?_⟩
  intro hnumbers others hperm
  exact ext (arrange_of_perm hnumbers hperm)

/-- A section of a category with this number and so many entries. -/
def sample (order : Int) (key : String) (count : Nat) : Section where
  category := ⟨key, key, .empty, order⟩
  entries := List.replicate count ⟨{ hash := key, title := "" }, ""⟩

/-- Sections of which two have the same key and two have the same number. One of those
    without entries has that number as well. -/
def samples : List Section :=
  [sample 9223372036854775807 "late" 1, sample 0 "b" 1, sample 0 "none" 0, sample 0 "a" 2,
   sample (-9223372036854775808) "late" 1]

theorem samples_arranged :
    ArrangedFrom samples
        [sample (-9223372036854775808) "late" 1, sample 0 "b" 1, sample 0 "a" 2,
          sample 9223372036854775807 "late" 1] ∧
      (ofSections samples).sections =
        [sample (-9223372036854775808) "late" 1, sample 0 "b" 1, sample 0 "a" 2,
          sample 9223372036854775807 "late" 1] ∧
      ((kept samples.tail.tail).map (·.category.order)).Nodup ∧
      ofSections samples.tail.tail.reverse = ofSections samples.tail.tail := by
  obtain ⟨-, hunique, -⟩ := ofSections_arranged samples
  obtain ⟨-, -, -, hperm⟩ := ofSections_arranged samples.tail.tail
  have harranged : ArrangedFrom samples
      [sample (-9223372036854775808) "late" 1, sample 0 "b" 1, sample 0 "a" 2,
        sample 9223372036854775807 "late" 1] := by decide
  have hnumbers : ((kept samples.tail.tail).map (·.category.order)).Nodup := by decide
  exact ⟨harranged, (hunique _ harranged).symm, hnumbers,
    hperm hnumbers _ (List.reverse_perm _).symm⟩

end Document

end ReleaseNotes
