import Mathlib.Order.Bounds.Basic
import Mathlib.Order.Fin.Basic
import ReleaseNotes.Proofs.Validity

/-!
# The Fault of a Rule Set

Which fault is found in categories that are not all apart.

The check stops at the first category that repeats something. All categories before
it are apart, so of an order number it repeats there is one earlier category that has
it, and the fault names that one. If it repeats a key as well, nothing is said of the
key. Only where the number is new does the fault name the key.

`checkAfter_eq_error` is the invariant of going through the list, told of the place
where it ends: the categories that have been looked at are apart, and the next one is
not apart from all of them. Places come in afterwards. The categories before the one
that is stopped at are those with a smaller place, and since they are apart none of
these repeats anything, so the place is the least one of its kind.

Apartness does not depend on the order of two categories. Whether there is a fault is
therefore the same for every order in which the categories are declared; which fault
it is depends on that order.

## Main definitions

* `Category.Repeats`: The category at a place repeats an earlier one.
* `RuleFault.Names`: The fault of the category at a place.

## Theorems

* `RuleSet.checkAfter_eq_error`: Where the check ends with a fault.
* `RuleSet.check_eq_error`: The fault of a rule set is that of the first category
  that repeats another.
* `RuleSet.check_names`: When a rule set has a fault, and which one.
-/

namespace ReleaseNotes

/-- The category at this place has the number or the key of an earlier one. -/
def Category.Repeats (categories : List Category) (j : Fin categories.length) : Prop :=
  ∃ i < j, categories[i].order = categories[j].order ∨ categories[i].key = categories[j].key

/-- The fault of the category at this place: that it shares its number with the one
    earlier category that has it, or else that its key is an earlier one. -/
inductive RuleFault.Names (categories : List Category) (j : Fin categories.length) :
    RuleFault → Prop
  | sharedOrder {i : Fin categories.length} (hi : i < j)
      (horder : categories[i].order = categories[j].order)
      (honly : ∀ k < j, categories[k].order = categories[j].order → k = i) :
      Names categories j (.sharedOrder categories[j].order categories[i].key categories[j].key)
  | repeatedKey (horder : ∀ i < j, categories[i].order ≠ categories[j].order)
      (hkey : ∃ i < j, categories[i].key = categories[j].key) :
      Names categories j (.repeatedKey categories[j].key)

namespace RuleSet

/-- Behind categories that are apart the check ends with a fault at the first one
    that is not apart from all before it. The number is looked at before the key. -/
theorem checkAfter_eq_error {earlier rest : List Category} {fault : RuleFault}
    (hapart : earlier.Pairwise Category.Apart) (h : checkAfter earlier rest = .error fault) :
    ∃ before category after, earlier ++ rest = before ++ category :: after ∧
      before.Pairwise Category.Apart ∧
      ((∃ first ∈ before, first.order = category.order ∧
          fault = .sharedOrder category.order first.key category.key) ∨
        ((∀ first ∈ before, first.order ≠ category.order) ∧
          (∃ first ∈ before, first.key = category.key) ∧ fault = .repeatedKey category.key)) := by
  induction rest generalizing earlier with
  | nil =>
      unfold checkAfter at h
      cases h
  | cons category rest ih =>
      unfold checkAfter at h
      cases hfind : earlier.find? (·.order == category.order) with
      | some first =>
          simp only [hfind, Except.error.injEq] at h
          have horder : first.order = category.order := by
            simpa only [beq_iff_eq] using List.find?_some hfind
          exact ⟨earlier, category, rest, rfl, hapart,
            .inl ⟨first, List.mem_of_find?_eq_some hfind, horder, h.symm⟩⟩
      | none =>
          have horder : ∀ first ∈ earlier, first.order ≠ category.order := by
            simpa only [List.find?_eq_none, beq_iff_eq] using hfind
          simp only [hfind] at h
          by_cases hany : earlier.any (·.key == category.key) = true
          · simp only [if_pos hany, Except.error.injEq] at h
            have hkey : ∃ first ∈ earlier, first.key = category.key := by
              simpa only [List.any_eq_true, beq_iff_eq] using hany
            exact ⟨earlier, category, rest, rfl, hapart, .inr ⟨horder, hkey, h.symm⟩⟩
          · -- The category is apart from those before it, and goes over to them.
            rw [if_neg hany] at h
            have hkey : ∀ first ∈ earlier, first.key ≠ category.key := by
              simpa only [List.any_eq_true, beq_iff_eq, not_exists, not_and] using hany
            have hnext : (earlier ++ [category]).Pairwise Category.Apart := by
              rw [List.pairwise_append]
              refine ⟨hapart, List.pairwise_singleton _ _, fun first hfirst other hother => ?_⟩
              rw [List.mem_singleton.1 hother]
              exact ⟨horder first hfirst, hkey first hfirst⟩
            rcases ih hnext h with ⟨before, found, after, hsplit, hfound⟩
            rw [List.append_assoc, List.singleton_append] at hsplit
            exact ⟨before, found, after, hsplit, hfound⟩

end RuleSet

namespace RuleFault

variable {categories : List Category} {j : Fin categories.length} {fault other : RuleFault}

theorem Names.repeats (h : fault.Names categories j) : Category.Repeats categories j := by
  cases h with
  | sharedOrder hi horder => exact ⟨_, hi, .inl horder⟩
  | repeatedKey _ hkey =>
      rcases hkey with ⟨i, hi, hkey⟩
      exact ⟨i, hi, .inr hkey⟩

/-- A category has one fault at most. -/
theorem Names.unique (h : fault.Names categories j) (hother : other.Names categories j) :
    fault = other := by
  cases h with
  | sharedOrder hi horder honly =>
      cases hother with
      | sharedOrder hk hkorder => rw [honly _ hk hkorder]
      | repeatedKey hnone => exact absurd horder (hnone _ hi)
  | repeatedKey hnone =>
      cases hother with
      | sharedOrder hk hkorder => exact absurd hkorder (hnone _ hk)
      | repeatedKey => rfl

end RuleFault

namespace RuleSet

section

variable {before after : List Category} {category : Category}

/-- The place behind the categories that stand before. -/
def placeAfter (before after : List Category) (category : Category) :
    Fin (before ++ category :: after).length :=
  ⟨before.length, by simp⟩

theorem getElem_placeAfter :
    (before ++ category :: after)[placeAfter before after category] = category := by
  simp [placeAfter]

/-- The categories at earlier places are those that stand before. -/
theorem mem_before_of_lt {i : Fin (before ++ category :: after).length}
    (hi : i < placeAfter before after category) : (before ++ category :: after)[i] ∈ before := by
  have hlt : (i : Nat) < before.length := hi
  rw [Fin.getElem_fin, List.getElem_append_left hlt]
  exact List.getElem_mem hlt

theorem exists_place_of_mem (after : List Category) (category : Category) {first : Category}
    (h : first ∈ before) :
    ∃ i < placeAfter before after category, (before ++ category :: after)[i] = first := by
  rcases List.mem_iff_getElem.1 h with ⟨i, hi, rfl⟩
  have hlt : i < (before ++ category :: after).length := by
    rw [List.length_append]
    omega
  exact ⟨⟨i, hlt⟩, hi, List.getElem_append_left hi⟩

/-- Where all that stand before are apart, none of them repeats another. -/
theorem not_repeats_of_lt (h : before.Pairwise Category.Apart)
    {k : Fin (before ++ category :: after).length} (hk : k < placeAfter before after category) :
    ¬ Category.Repeats (before ++ category :: after) k := by
  rintro ⟨i, hik, hsame⟩
  have hk' : (k : Nat) < before.length := hk
  have hi' : (i : Nat) < before.length := hik.trans hk
  have hapart := List.pairwise_iff_getElem.1 h i k hi' hk' hik
  simp only [Fin.getElem_fin, List.getElem_append_left hi', List.getElem_append_left hk'] at hsame
  rcases hsame with horder | hkey
  · exact hapart.1 horder
  · exact hapart.2 hkey

end

/-- Where no earlier category repeats another, a number has one place only. -/
theorem place_eq_of_order_eq {categories : List Category} {i j k : Fin categories.length}
    (h : ∀ k < j, ¬ Category.Repeats categories k) (hi : i < j) (hk : k < j)
    (horder : categories[k].order = categories[i].order) : k = i := by
  -- Of two places the later one would repeat the number.
  rcases lt_trichotomy k i with hlt | heq | hlt
  · exact absurd ⟨k, hlt, .inl horder⟩ (h i hi)
  · exact heq
  · exact absurd ⟨i, hlt, .inl horder.symm⟩ (h k hk)

/-- The fault of a rule set is that of the first category that repeats another. -/
theorem check_eq_error {rules : RuleSet} {fault : RuleFault} (h : rules.check = .error fault) :
    ∃ j, IsLeast {j | Category.Repeats rules.categories j} j ∧ fault.Names rules.categories j := by
  rcases checkAfter_eq_error .nil h with ⟨before, category, after, hsplit, hapart, hfault⟩
  rw [List.nil_append] at hsplit
  generalize rules.categories = categories at hsplit ⊢
  subst hsplit
  have hearlier : ∀ k < placeAfter before after category,
      ¬ Category.Repeats (before ++ category :: after) k := fun k hk => not_repeats_of_lt hapart hk
  have hnames : fault.Names (before ++ category :: after) (placeAfter before after category) := by
    rcases hfault with ⟨first, hfirst, horder, rfl⟩ | ⟨hnone, ⟨first, hfirst, hkey⟩, rfl⟩
    · rcases exists_place_of_mem after category hfirst with ⟨i, hi, rfl⟩
      have hshared := RuleFault.Names.sharedOrder hi (by rw [horder, getElem_placeAfter])
        fun k hk hkorder => place_eq_of_order_eq hearlier hi hk
          (hkorder.trans (by rw [horder, getElem_placeAfter]))
      rwa [getElem_placeAfter] at hshared
    · rcases exists_place_of_mem after category hfirst with ⟨i, hi, rfl⟩
      have hrepeated := RuleFault.Names.repeatedKey (j := placeAfter before after category)
        (fun k hk => by rw [getElem_placeAfter]; exact hnone _ (mem_before_of_lt hk))
        ⟨i, hi, by rw [hkey, getElem_placeAfter]⟩
      rwa [getElem_placeAfter] at hrepeated
  -- A smaller place that repeats something would lie among those that are apart.
  refine ⟨_, ⟨hnames.repeats, fun k hk => ?_⟩, hnames⟩
  by_contra hlt
  exact hearlier k (lt_of_not_ge hlt) hk

theorem pairwise_apart_iff (categories : List Category) :
    categories.Pairwise Category.Apart ↔
      (categories.map (·.order)).Nodup ∧ (categories.map (·.key)).Nodup := by
  unfold List.Nodup
  rw [List.pairwise_map, List.pairwise_map, ← List.pairwise_and_iff]
  rfl

/-- A rule set has no fault if its numbers are distinct and its keys are distinct,
    and only then. Otherwise its fault is that of the first category that repeats an
    earlier one: that they share the number, and if they do not, that they share the
    key. The order in which the categories are declared does not matter to whether
    there is a fault. -/
theorem check_names (rules : RuleSet) :
    (rules.check = .ok () ↔
      (rules.categories.map (·.order)).Nodup ∧ (rules.categories.map (·.key)).Nodup) ∧
    (∀ fault, rules.check = .error fault ↔
      ∃ j, IsLeast {j | Category.Repeats rules.categories j} j ∧
        fault.Names rules.categories j) ∧
    ∀ others : RuleSet, others.categories.Perm rules.categories →
      (others.check = .ok () ↔ rules.check = .ok ()) := by
  refine ⟨?_, fun fault => ⟨check_eq_error, ?_⟩, fun others hperm => ?_⟩
  · rw [check_eq_ok_iff, pairwise_apart_iff]
  · rintro ⟨j, hj, hnames⟩
    cases hcheck : rules.check with
    | ok done =>
        -- Categories that are apart have no place that repeats another.
        rcases hj.1 with ⟨i, hi, hsame⟩
        have hapart := List.pairwise_iff_getElem.1 ((check_eq_ok_iff rules).1 hcheck) i j
          i.isLt j.isLt hi
        rcases hsame with horder | hkey
        · exact absurd horder hapart.1
        · exact absurd hkey hapart.2
    | error found =>
        rcases check_eq_error hcheck with ⟨k, hk, hfound⟩
        rw [hk.unique hj] at hfound
        rw [hfound.unique hnames]
  · rw [check_eq_ok_iff, check_eq_ok_iff]
    exact hperm.pairwise_iff fun hapart => symm hapart

/-- Rules of which the third category has the number of the first and the key of the
    second. -/
def crossed : RuleSet :=
  { standard with
    categories := [⟨"new", "New", .empty, 1⟩, ⟨"old", "Old", .empty, 2⟩,
      ⟨"old", "Both", .empty, 1⟩] }

/-- The same categories declared from the last to the first. -/
def crossedTurned : RuleSet :=
  { crossed with categories := crossed.categories.reverse }

theorem crossed_names :
    crossed.check = .error (.sharedOrder 1 "new" "old") ∧
      (∃ j, IsLeast {j | Category.Repeats crossed.categories j} j ∧
        (RuleFault.sharedOrder 1 "new" "old").Names crossed.categories j) ∧
      crossedTurned.check = .error (.repeatedKey "old") ∧
      crossedTurned.categories.Perm crossed.categories ∧
      (crossedTurned.check = .ok () ↔ crossed.check = .ok ()) := by
  have hcheck : crossed.check = .error (.sharedOrder 1 "new" "old") := by decide
  have hturned : crossedTurned.check = .error (.repeatedKey "old") := by decide
  have hperm : crossedTurned.categories.Perm crossed.categories := List.reverse_perm _
  exact ⟨hcheck, ((check_names crossed).2.1 _).1 hcheck, hturned, hperm,
    (check_names crossed).2.2 crossedTurned hperm⟩

end RuleSet

end ReleaseNotes
