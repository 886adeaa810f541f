import Mathlib.Data.List.Pairwise
import ReleaseNotes.RuleSet

/-!
# Faultless Rule Sets

What a rule set has that was looked at and found without a fault.

The check goes through the categories once and looks back at the earlier ones,
so what it has to say is about pairs: of any two categories the later one was
compared with the earlier one. `Apart` is the comparison, and a rule set is
faultless exactly when all its categories are apart in pairs. That form is what
everything else is derived from. Numbers that differ leave no two categories in
the same place, and keys that differ leave no two with the same name; either of
them makes the categories of a rule set distinct.

## Main definitions

* `Category.Apart`: Two categories differ in number and in key.

## Theorems

* `RuleSet.checkAfter_eq_ok_iff`: What the check accepts behind some
  categories.
* `RuleSet.check_eq_ok_iff`: A rule set is accepted when its categories are
  apart.
* `RuleSet.eq_of_order_eq`, `RuleSet.eq_of_key_eq`: A category of an accepted
  rule set is known by its number, and by its key.
* `RuleSet.nodup_categories`: An accepted rule set has no category twice.
-/

namespace ReleaseNotes

/-- Two categories that neither share a number nor a key. -/
def Category.Apart (a b : Category) : Prop :=
  a.order ≠ b.order ∧ a.key ≠ b.key

instance : Std.Symm Category.Apart where
  symm _ _ h := ⟨h.1.symm, h.2.symm⟩

namespace RuleSet

/-- What the check accepts behind some categories: those that are apart from
    all of them and from each other. -/
theorem checkAfter_eq_ok_iff (earlier rest : List Category) :
    checkAfter earlier rest = .ok () ↔
      (∀ a ∈ earlier, ∀ b ∈ rest, a.Apart b) ∧ rest.Pairwise Category.Apart := by
  induction rest generalizing earlier with
  | nil => simp [checkAfter]
  | cons category rest ih =>
      unfold checkAfter
      cases hfind : earlier.find? (·.order == category.order) with
      | some first =>
          have horder : first.order = category.order := by
            simpa only [beq_iff_eq] using List.find?_some hfind
          have hmem : first ∈ earlier := List.mem_of_find?_eq_some hfind
          simp only [reduceCtorEq, false_iff]
          intro h
          exact (h.1 first hmem category List.mem_cons_self).1 horder
      | none =>
          have horder : ∀ a ∈ earlier, a.order ≠ category.order := by
            simpa only [List.find?_eq_none, beq_iff_eq] using hfind
          by_cases hkey : earlier.any (·.key == category.key) = true
          · rw [if_pos hkey]
            simp only [List.any_eq_true, beq_iff_eq] at hkey
            obtain ⟨first, hmem, hkey⟩ := hkey
            simp only [reduceCtorEq, false_iff]
            intro h
            exact (h.1 first hmem category List.mem_cons_self).2 hkey
          · rw [if_neg hkey, ih, List.pairwise_cons]
            simp only [List.any_eq_true, beq_iff_eq, not_exists, not_and] at hkey
            -- The category that was just looked at goes over to the earlier ones.
            constructor
            · intro h
              refine ⟨fun a ha b hb => ?_, fun b hb => ?_, h.2⟩
              · rcases List.mem_cons.1 hb with rfl | hb
                · exact ⟨horder a ha, hkey a ha⟩
                · exact h.1 a (List.mem_append_left _ ha) b hb
              · exact h.1 category (List.mem_append_right _ List.mem_cons_self) b hb
            · intro h
              refine ⟨fun a ha b hb => ?_, h.2.2⟩
              rcases List.mem_append.1 ha with ha | ha
              · exact h.1 a ha b (List.mem_cons_of_mem _ hb)
              · rw [List.mem_singleton.1 ha]
                exact h.2.1 b hb

/-- A rule set is accepted when all its categories are apart. -/
theorem check_eq_ok_iff (rules : RuleSet) :
    rules.check = .ok () ↔ rules.categories.Pairwise Category.Apart := by
  rw [check, checkAfter_eq_ok_iff]
  simp only [List.not_mem_nil, false_imp_iff, implies_true, true_and]

variable {rules : RuleSet} (hrules : rules.check = .ok ())
include hrules

theorem apart_of_mem {a b : Category} (ha : a ∈ rules.categories) (hb : b ∈ rules.categories)
    (hne : a ≠ b) : a.Apart b :=
  ((check_eq_ok_iff rules).1 hrules).forall ha hb hne

theorem eq_of_order_eq {a b : Category} (ha : a ∈ rules.categories) (hb : b ∈ rules.categories)
    (h : a.order = b.order) : a = b := by
  by_contra hne
  exact (apart_of_mem hrules ha hb hne).1 h

theorem eq_of_key_eq {a b : Category} (ha : a ∈ rules.categories) (hb : b ∈ rules.categories)
    (h : a.key = b.key) : a = b := by
  by_contra hne
  exact (apart_of_mem hrules ha hb hne).2 h

theorem nodup_categories : rules.categories.Nodup := by
  refine ((check_eq_ok_iff rules).1 hrules).imp ?_
  rintro a b hapart rfl
  exact hapart.1 rfl

end RuleSet

end ReleaseNotes
