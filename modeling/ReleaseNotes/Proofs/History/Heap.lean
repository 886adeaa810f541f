import Mathlib.Data.List.Basic
import ReleaseNotes.History.Heap

/-!
# Heaps Give Back What Was Put In

A heap keeps what it is given, and gives back one of the largest first.

That nothing is lost or made up needs no order at all. Rising and sinking only swap
places, and taking the first thing out puts the last one in its place. So what a heap
holds is the same up to order, whatever the ranks are, and this is all that the
commits of a walk depend on.

The order is told by places and the places above them (`Ordered`). While something
rises, the order may fail between it and what is above it, and nowhere else; while
something sinks, between it and what is below it. `Rising` and `Sinking` say so. They
also say that what is below such a place is in order with what is above it, because a
swap brings these two together. A swap moves the place by one step and keeps the rest
in order, and where no swap is needed the whole heap is.

## Main definitions

* `Heap.above`: The place above another one.
* `Heap.Ordered`: Nothing has a larger rank than what is above it.
* `Heap.Rising`, `Heap.Sinking`: The same, but for one place.

## Theorems

* `Heap.push_perm`, `Heap.pop?_eq_some`: What is put in, and what is taken out.
* `Heap.Rising.swap`, `Heap.Sinking.swap`: A swap moves the place that may not be in
  order.
* `Heap.Ordered.push`, `Heap.Ordered.pop?`: Heaps stay in order.
* `Heap.Ordered.rank_le`: Nothing has a larger rank than what comes first.
* `Heap.ranked_perm`, `Heap.pairwise_ranked`: A list in the order of a heap.
-/

namespace ReleaseNotes

namespace Heap

variable {α : Type} {rank : α → Int} {heap : Array α}

section Contents

theorem swapIfInBounds_perm (heap : Array α) (i j : Nat) :
    (heap.swapIfInBounds i j).toList.Perm heap.toList := by
  unfold Array.swapIfInBounds
  split
  · split
    · exact (Array.swap_perm _ _).toList
    · exact .refl _
  · exact .refl _

theorem rise_perm (bound place : Nat) (heap : Array α) :
    (rise rank bound place heap).toList.Perm heap.toList := by
  induction bound generalizing place heap with
  | zero => exact .refl _
  | succ bound ih =>
      simp only [rise]
      split
      · split
        · exact (ih _ _).trans (swapIfInBounds_perm _ _ _)
        · exact .refl _
      · exact .refl _

theorem sink_perm (bound place : Nat) (heap : Array α) :
    (sink rank bound place heap).toList.Perm heap.toList := by
  induction bound generalizing place heap with
  | zero => exact .refl _
  | succ bound ih =>
      simp only [sink]
      split
      · split
        · exact (ih _ _).trans (swapIfInBounds_perm _ _ _)
        · exact .refl _
      · exact .refl _

/-- What is put in is there besides the rest. -/
theorem push_perm (rank : α → Int) (heap : Array α) (item : α) :
    (push rank heap item).toList.Perm (item :: heap.toList) := by
  refine (rise_perm _ _ _).trans ?_
  rw [Array.toList_push]
  exact List.perm_append_comm

theorem pushAll_perm (rank : α → Int) (heap : Array α) (items : List α) :
    (pushAll rank heap items).toList.Perm (heap.toList ++ items) := by
  induction items generalizing heap with
  | nil => simp [pushAll]
  | cons item items ih =>
      refine (ih (push rank heap item)).trans ?_
      refine ((push_perm rank heap item).append_right items).trans ?_
      exact List.perm_middle.symm

/-- The last thing takes the place of the first one. -/
theorem setIfInBounds_pop_perm {first last : α} (hfirst : heap[0]? = some first)
    (hlast : heap.back? = some last) :
    heap.toList.Perm (first :: ((heap.setIfInBounds 0 last).pop).toList) := by
  obtain ⟨items⟩ := heap
  cases items with
  | nil => cases hfirst
  | cons item items =>
      obtain rfl : item = first := by simpa using hfirst
      refine .cons _ ?_
      rcases List.eq_nil_or_concat items with rfl | ⟨between, other, rfl⟩
      · simp
      · obtain rfl : other = last := by simpa [Array.back?] using hlast
        have hpop : (other :: (between ++ [other])).dropLast = other :: between := by
          rw [← List.cons_append, List.dropLast_concat]
        simp [hpop]

/-- What is taken out is what comes first, and the rest stays. -/
theorem pop?_eq_some {first : α} {rest : Array α} (h : pop? rank heap = some (first, rest)) :
    heap[0]? = some first ∧ heap.toList.Perm (first :: rest.toList) := by
  simp only [pop?, Option.bind_eq_bind, Option.bind_eq_some_iff] at h
  obtain ⟨found, hfound, last, hlast, hrest⟩ := h
  obtain ⟨rfl, rfl⟩ := Prod.mk.inj (Option.some.inj hrest)
  refine ⟨hfound, (setIfInBounds_pop_perm hfound hlast).trans (.cons _ ?_)⟩
  exact (sink_perm _ _ _).symm

/-- Nothing can be taken out of an empty heap only. -/
theorem pop?_eq_none_iff : pop? rank heap = none ↔ heap = #[] := by
  obtain ⟨items⟩ := heap
  rcases List.eq_nil_or_concat items with rfl | ⟨between, last, rfl⟩
  · simp [pop?]
  · cases between <;> simp [pop?, Array.back?]

end Contents

section Order

/-- The place above another one. The first place is above itself. -/
def above (place : Nat) : Nat := (place - 1) / 2

/-- Nothing has a larger rank than what is above it. -/
def Ordered (rank : α → Int) (heap : Array α) : Prop :=
  ∀ i child parent, heap[i]? = some child → heap[above i]? = some parent →
    rank child ≤ rank parent

/-- A heap is in order but for one place, which may have a larger rank than what is
    above it. -/
structure Rising (rank : α → Int) (heap : Array α) (place : Nat) : Prop where
  others : ∀ i child parent, i ≠ place → heap[i]? = some child →
    heap[above i]? = some parent → rank child ≤ rank parent
  /-- What is below the place is in order with what is above it. -/
  across : ∀ i child parent, above i = place → i ≠ place → heap[i]? = some child →
    heap[above place]? = some parent → rank child ≤ rank parent

/-- A heap is in order but for one place, which may have a smaller rank than what is
    below it. -/
structure Sinking (rank : α → Int) (heap : Array α) (place : Nat) : Prop where
  others : ∀ i child parent, above i ≠ place → heap[i]? = some child →
    heap[above i]? = some parent → rank child ≤ rank parent
  /-- What is below the place is in order with what is above it. -/
  across : ∀ i child parent, above i = place → place ≠ 0 → heap[i]? = some child →
    heap[above place]? = some parent → rank child ≤ rank parent

/-- What is where after a swap. -/
theorem getElem?_swapIfInBounds {i j : Nat} {x y : α} (hi : heap[i]? = some x)
    (hj : heap[j]? = some y) (k : Nat) :
    (heap.swapIfInBounds i j)[k]? =
      if k = j then some x else if k = i then some y else heap[k]? := by
  obtain ⟨hilt, rfl⟩ := Array.getElem?_eq_some_iff.1 hi
  obtain ⟨hjlt, rfl⟩ := Array.getElem?_eq_some_iff.1 hj
  rw [Array.swapIfInBounds_def, dif_pos hilt, dif_pos hjlt, Array.getElem?_swap]
  simp only [eq_comm]

theorem above_lt {place : Nat} (h : place ≠ 0) : above place < place := by
  unfold above
  omega

/-- A heap without a place above another one is in order if the rest is. -/
theorem Rising.ordered {place : Nat} (h : Rising rank heap place)
    (hplace : ∀ child parent, heap[place]? = some child → heap[above place]? = some parent →
      rank child ≤ rank parent) : Ordered rank heap := by
  intro i child parent hchild hparent
  by_cases hi : i = place
  · exact hplace child parent (hi ▸ hchild) (hi ▸ hparent)
  · exact h.others i child parent hi hchild hparent

/-- A swap with what is above moves the place that may not be in order there. -/
theorem Rising.swap {place : Nat} {child parent : α} (h : Rising rank heap place)
    (hchild : heap[place]? = some child) (hparent : heap[above place]? = some parent)
    (hlt : rank parent < rank child) :
    Rising rank (heap.swapIfInBounds (above place) place) (above place) := by
  have hplace : place ≠ 0 := by
    rintro rfl
    obtain rfl := Option.some.inj (hchild.symm.trans hparent)
    exact Int.lt_irrefl _ hlt
  have habove := above_lt hplace
  have hbelow : ∀ i lower, above i = above place → i ≠ place → heap[i]? = some lower →
      rank lower ≤ rank parent := fun i lower hi hne hlower =>
    h.others i lower parent hne hlower (hi ▸ hparent)
  constructor
  · intro i lower upper hi hlower hupper
    rw [getElem?_swapIfInBounds hparent hchild] at hlower hupper
    by_cases hip : i = place
    · -- What was above stands at the place now.
      rw [if_pos hip] at hlower
      rw [hip, if_neg (Nat.ne_of_lt habove), if_pos rfl] at hupper
      obtain rfl := Option.some.inj hlower
      obtain rfl := Option.some.inj hupper
      exact Int.le_of_lt hlt
    rw [if_neg hip, if_neg hi] at hlower
    split at hupper
    · rename_i hunder
      obtain rfl := Option.some.inj hupper
      exact h.across i lower _ hunder hip hlower hparent
    split at hupper
    · rename_i hbeside
      obtain rfl := Option.some.inj hupper
      exact Int.le_trans (hbelow i lower hbeside hip hlower) (Int.le_of_lt hlt)
    · exact h.others i lower upper hip hlower hupper
  · intro i lower upper hi hne hlower hupper
    rw [getElem?_swapIfInBounds hparent hchild] at hlower hupper
    rw [if_neg hne] at hlower
    have hlower' : rank lower ≤ rank parent := by
      split at hlower
      · exact Int.le_of_eq (congrArg rank (Option.some.inj hlower).symm)
      · rename_i hip
        exact hbelow i lower hi hip hlower
    by_cases hfirst : above place = 0
    · rw [hfirst, show above 0 = 0 from rfl, if_neg (Ne.symm hplace), if_pos rfl] at hupper
      obtain rfl := Option.some.inj hupper
      exact Int.le_trans hlower' (Int.le_of_lt hlt)
    · have hhigher := above_lt hfirst
      rw [if_neg (by omega), if_neg (by omega)] at hupper
      exact Int.le_trans hlower' (h.others _ parent upper (Nat.ne_of_lt habove) hparent hupper)

/-- What has risen as far as it can leaves the heap in order. -/
theorem Rising.rise {place bound : Nat} (h : Rising rank heap place) (hbound : place ≤ bound) :
    Ordered rank (rise rank bound place heap) := by
  induction bound generalizing place heap with
  | zero =>
      obtain rfl : place = 0 := by omega
      refine h.ordered fun child parent hchild hparent => ?_
      exact Int.le_of_eq (congrArg rank (Option.some.inj (hchild.symm.trans hparent)))
  | succ bound ih =>
      simp only [Heap.rise]
      split
      · rename_i parent child hparent hchild
        split
        · rename_i hlt
          refine ih (h.swap hchild hparent hlt) ?_
          omega
        · rename_i hnot
          refine h.ordered fun lower upper hlower hupper => ?_
          obtain rfl := Option.some.inj (hchild.symm.trans hlower)
          obtain rfl := Option.some.inj (hparent.symm.trans hupper)
          omega
      · rename_i hnone
        exact h.ordered fun lower upper hlower hupper => absurd hlower (hnone _ _ hupper)

/-- The larger one of the two things below a place. -/
theorem largerChild?_eq_some {place below : Nat} {child : α}
    (h : largerChild? rank heap place = some (below, child)) :
    above below = place ∧ place < below ∧ heap[below]? = some child ∧
      ∀ i lower, above i = place → i ≠ place → heap[i]? = some lower →
        rank lower ≤ rank child := by
  simp only [largerChild?, Option.bind_eq_bind, Option.bind_eq_some_iff] at h
  obtain ⟨left, hleft, h⟩ := h
  have hplaces : ∀ i, above i = place → i ≠ place → i = 2 * place + 1 ∨ i = 2 * place + 2 := by
    intro i hi hne
    unfold above at hi
    omega
  split at h
  · rename_i right hright
    split at h
    · rename_i hlt
      obtain ⟨rfl, rfl⟩ := Prod.mk.inj (Option.some.inj h)
      refine ⟨by unfold above; omega, by omega, hright, fun i lower hi hne hlower => ?_⟩
      rcases hplaces i hi hne with rfl | rfl
      · obtain rfl := Option.some.inj (hleft.symm.trans hlower)
        exact Int.le_of_lt hlt
      · exact Int.le_of_eq (congrArg rank (Option.some.inj (hlower.symm.trans hright)))
    · rename_i hnot
      obtain ⟨rfl, rfl⟩ := Prod.mk.inj (Option.some.inj h)
      refine ⟨by unfold above; omega, by omega, hleft, fun i lower hi hne hlower => ?_⟩
      rcases hplaces i hi hne with rfl | rfl
      · exact Int.le_of_eq (congrArg rank (Option.some.inj (hlower.symm.trans hleft)))
      · obtain rfl := Option.some.inj (hright.symm.trans hlower)
        omega
  · rename_i hnone
    obtain ⟨rfl, rfl⟩ := Prod.mk.inj (Option.some.inj h)
    refine ⟨by unfold above; omega, by omega, hleft, fun i lower hi hne hlower => ?_⟩
    rcases hplaces i hi hne with rfl | rfl
    · exact Int.le_of_eq (congrArg rank (Option.some.inj (hlower.symm.trans hleft)))
    · rw [hnone] at hlower
      cases hlower

theorem largerChild?_eq_none {place : Nat} (h : largerChild? rank heap place = none) :
    heap.size ≤ 2 * place + 1 := by
  rw [← Array.getElem?_eq_none_iff]
  cases hleft : heap[2 * place + 1]? with
  | none => rfl
  | some left =>
      simp only [largerChild?, hleft, Option.bind_eq_bind, Option.bind_some] at h
      split at h
      · split at h <;> cases h
      · cases h

/-- A heap with nothing below a place is in order if the rest is. -/
theorem Sinking.ordered {place : Nat} (h : Sinking rank heap place)
    (hplace : ∀ i child parent, above i = place → i ≠ place → heap[i]? = some child →
      heap[place]? = some parent → rank child ≤ rank parent) : Ordered rank heap := by
  intro i child parent hchild hparent
  by_cases hi : above i = place
  · by_cases hself : i = place
    · -- Only the first place is above itself.
      rw [hi, ← hself] at hparent
      exact Int.le_of_eq (congrArg rank (Option.some.inj (hchild.symm.trans hparent)))
    · exact hplace i child parent hi hself hchild (hi ▸ hparent)
  · exact h.others i child parent hi hchild hparent

/-- A swap with the larger one of what is below moves the place that may not be in
    order there. -/
theorem Sinking.swap {place below : Nat} {child parent : α} (h : Sinking rank heap place)
    (hparent : heap[place]? = some parent)
    (hchild : largerChild? rank heap place = some (below, child))
    (hlt : rank parent < rank child) :
    Sinking rank (heap.swapIfInBounds place below) below := by
  obtain ⟨habove, hbelow, hchild, hlargest⟩ := largerChild?_eq_some hchild
  constructor
  · intro i lower upper hi hlower hupper
    rw [getElem?_swapIfInBounds hparent hchild] at hlower hupper
    rw [if_neg hi] at hupper
    by_cases hib : i = below
    · rw [if_pos hib] at hlower
      rw [hib, habove, if_pos rfl] at hupper
      obtain rfl := Option.some.inj hlower
      obtain rfl := Option.some.inj hupper
      exact Int.le_of_lt hlt
    rw [if_neg hib] at hlower
    by_cases hip : i = place
    · -- The larger one stands at the place now.
      rw [if_pos hip] at hlower
      obtain rfl := Option.some.inj hlower
      split at hupper
      · exact Int.le_of_eq (congrArg rank (Option.some.inj hupper))
      · rename_i hne
        have hzero : place ≠ 0 := by
          intro hzero
          rw [hip, hzero] at hne
          exact hne rfl
        exact h.across below _ upper habove hzero hchild (hip ▸ hupper)
    rw [if_neg hip] at hlower
    split at hupper
    · rename_i hunder
      obtain rfl := Option.some.inj hupper
      exact hlargest i lower hunder hip hlower
    · rename_i hne
      exact h.others i lower upper hne hlower hupper
  · intro i lower upper hi _ hlower hupper
    rw [getElem?_swapIfInBounds hparent hchild] at hlower hupper
    rw [habove, if_neg (Nat.ne_of_lt hbelow), if_pos rfl] at hupper
    obtain rfl := Option.some.inj hupper
    have hib : i ≠ below := by
      rintro rfl
      omega
    have hip : i ≠ place := by
      rintro rfl
      unfold above at hi
      omega
    rw [if_neg hib, if_neg hip] at hlower
    exact h.others i lower _ (by omega) hlower (hi ▸ hchild)

/-- What has sunk as far as it can leaves the heap in order. -/
theorem Sinking.sink {place bound : Nat} (h : Sinking rank heap place)
    (hbound : heap.size ≤ place + bound) : Ordered rank (sink rank bound place heap) := by
  induction bound generalizing place heap with
  | zero =>
      refine h.ordered fun i child parent _ _ _ hparent => ?_
      have hlt := (Array.getElem?_eq_some_iff.1 hparent).1
      omega
  | succ bound ih =>
      simp only [Heap.sink]
      split
      · rename_i parent below child hparent hchild
        split
        · rename_i hlt
          obtain ⟨-, hbelow, -⟩ := largerChild?_eq_some hchild
          refine ih (h.swap hparent hchild hlt) ?_
          rw [Array.size_swapIfInBounds]
          omega
        · rename_i hnot
          obtain ⟨-, -, -, hlargest⟩ := largerChild?_eq_some hchild
          refine h.ordered fun i lower upper hi hne hlower hupper => ?_
          obtain rfl := Option.some.inj (hparent.symm.trans hupper)
          exact Int.le_trans (hlargest i lower hi hne hlower) (Int.not_lt.1 hnot)
      · rename_i hnone
        -- There is nothing at the place, or nothing below it.
        refine h.ordered fun i lower upper hi hne hlower hupper => ?_
        cases hlarger : largerChild? rank heap place with
        | some found => exact absurd hlarger (hnone _ _ _ hupper)
        | none =>
            have hsize := largerChild?_eq_none hlarger
            have hlt := (Array.getElem?_eq_some_iff.1 hlower).1
            unfold above at hi
            omega

theorem ordered_empty : Ordered rank (#[] : Array α) := by
  intro i child parent hchild
  simp at hchild

/-- What is put in rises from the end. -/
theorem Ordered.push (h : Ordered rank heap) (item : α) : Ordered rank (push rank heap item) := by
  have hend : ∀ {i lower}, i ≠ heap.size → (heap.push item)[i]? = some lower →
      heap[i]? = some lower := by
    intro i lower hi hlower
    rwa [Array.getElem?_push, if_neg hi] at hlower
  refine Rising.rise ⟨fun i child parent hi hchild hparent => ?_,
    fun i child parent hi hne hchild _ => ?_⟩ (Nat.le_refl _)
  · have hchild := hend hi hchild
    have hlt := (Array.getElem?_eq_some_iff.1 hchild).1
    exact h i child parent hchild (hend (by unfold above; omega) hparent)
  · -- There is nothing behind the end.
    have hlt := (Array.getElem?_eq_some_iff.1 (hend hne hchild)).1
    unfold above at hi
    omega

theorem Ordered.pushAll (h : Ordered rank heap) (items : List α) :
    Ordered rank (pushAll rank heap items) := by
  induction items generalizing heap with
  | nil => exact h
  | cons item items ih => exact ih (h.push item)

/-- What was the last one sinks from the first place. -/
theorem Ordered.pop? {first : α} {rest : Array α} (h : Ordered rank heap)
    (hpop : pop? rank heap = some (first, rest)) : Ordered rank rest := by
  simp only [Heap.pop?, Option.bind_eq_bind, Option.bind_eq_some_iff] at hpop
  obtain ⟨found, -, last, -, hrest⟩ := hpop
  obtain ⟨-, rfl⟩ := Prod.mk.inj (Option.some.inj hrest)
  -- Everything but the first place is as it was, and the end is gone.
  have hget : ∀ {i lower}, i ≠ 0 → ((heap.setIfInBounds 0 last).pop)[i]? = some lower →
      heap[i]? = some lower := by
    intro i lower hi hlower
    rw [Array.getElem?_pop, Array.getElem?_setIfInBounds, if_neg (Ne.symm hi)] at hlower
    split at hlower
    · exact hlower
    · cases hlower
  refine Sinking.sink ⟨fun i child parent hi hchild hparent => ?_,
    fun i child parent _ hne => absurd rfl hne⟩ ?_
  · have hzero : i ≠ 0 := by
      rintro rfl
      exact hi rfl
    exact h i child parent (hget hzero hchild) (hget hi hparent)
  · rw [Array.size_pop, Array.size_setIfInBounds]
    omega

/-- Nothing has a larger rank than what comes first. -/
theorem Ordered.rank_le {first : α} (h : Ordered rank heap) (hfirst : heap[0]? = some first) :
    ∀ item ∈ heap.toList, rank item ≤ rank first := by
  -- By induction on the place: what is above stands further in front.
  have hplaces : ∀ (i : Nat) (item : α), heap[i]? = some item → rank item ≤ rank first := by
    intro i
    induction i using Nat.strongRecOn with
    | ind i ih =>
        intro item hitem
        by_cases hi : i = 0
        · subst hi
          exact Int.le_of_eq (congrArg rank (Option.some.inj (hitem.symm.trans hfirst)))
        · have habove := above_lt hi
          have hlt := (Array.getElem?_eq_some_iff.1 hitem).1
          have hupper := Array.getElem?_eq_getElem (Nat.lt_trans habove hlt)
          exact Int.le_trans (h i item _ hitem hupper) (ih _ habove _ hupper)
  intro item hitem
  obtain ⟨i, hi⟩ := List.getElem?_of_mem hitem
  exact hplaces i item (Array.getElem?_toList ▸ hi)

end Order

section Ranked

theorem drain_perm {count : Nat} (hcount : heap.size ≤ count) :
    (drain rank count heap).Perm heap.toList := by
  induction count generalizing heap with
  | zero =>
      obtain rfl : heap = #[] := Array.eq_empty_of_size_eq_zero (by omega)
      exact .nil
  | succ count ih =>
      rw [drain]
      cases hpop : pop? rank heap with
      | none =>
          rw [pop?_eq_none_iff.1 hpop]
      | some found =>
          obtain ⟨first, rest⟩ := found
          obtain ⟨-, hperm⟩ := pop?_eq_some hpop
          have hlength := hperm.length_eq
          simp only [Array.length_toList, List.length_cons] at hlength
          exact ((ih (by omega)).cons first).trans hperm.symm

theorem Ordered.pairwise_drain (h : Ordered rank heap) {count : Nat} (hcount : heap.size ≤ count) :
    (drain rank count heap).Pairwise fun a b => rank b ≤ rank a := by
  induction count generalizing heap with
  | zero => exact .nil
  | succ count ih =>
      rw [drain]
      cases hpop : Heap.pop? rank heap with
      | none => exact .nil
      | some found =>
          obtain ⟨first, rest⟩ := found
          obtain ⟨hfirst, hperm⟩ := pop?_eq_some hpop
          have hlength := hperm.length_eq
          simp only [Array.length_toList, List.length_cons] at hlength
          refine .cons (fun item hitem => ?_) (ih (h.pop? hpop) (by omega))
          refine h.rank_le hfirst item (hperm.mem_iff.2 (.tail _ ?_))
          exact (drain_perm (by omega)).mem_iff.1 hitem

theorem size_pushAll_empty (items : List α) :
    (pushAll rank (#[] : Array α) items).size = items.length := by
  have hlength := (pushAll_perm rank #[] items).length_eq
  simpa using hlength

/-- A heap gives back what a list holds. -/
theorem ranked_perm (items : List α) : (ranked rank items).Perm items := by
  refine (drain_perm (Nat.le_of_eq (size_pushAll_empty items))).trans ?_
  simpa using pushAll_perm rank #[] items

/-- A heap gives back the larger ones first. -/
theorem pairwise_ranked (items : List α) :
    (ranked rank items).Pairwise fun a b => rank b ≤ rank a :=
  (ordered_empty.pushAll items).pairwise_drain (Nat.le_of_eq (size_pushAll_empty items))

end Ranked

end Heap

end ReleaseNotes
