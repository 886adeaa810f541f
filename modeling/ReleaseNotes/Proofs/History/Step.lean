import Mathlib.Data.List.Basic
import Mathlib.Data.List.Nodup
import Mathlib.Data.List.Pairwise
import ReleaseNotes.History.Descent
import ReleaseNotes.Proofs.History.Walk

/-!
# Steps of a Descent

What changes in a descent when one commit is looked at.

A commit that is looked at for the first time is opened: its parents are read,
and left to be looked at. How they are left depends on whether the commit is
hidden, but most of what is to be said does not. `Adds` says it for both ways
and for any number of parents, so it is shown for one parent and put together
along the list.

Hiding goes over the list of commits once, from its end. That is enough since
parents stand in front of their children, so a commit that is to be hidden on
account of another one is come to later. What is hidden then is closed, as far
as commits have been read: the parents of what has just been hidden are hidden.

## Main definitions

* `Descent.Latest`: Commits in the order in which they are looked at.
* `Descent.Adds`: What becomes of a descent when commits are left to be looked
  at.
* `Descent.taken`: A descent with its next commit taken out and opened.
* `Descent.Looked`: What becomes of a descent when a commit is looked at.

## Theorems

* `Descent.parents_subset_spread`: What is hidden is closed.
* `Descent.adds_addHidden`, `Descent.adds_addFound`: Both ways to leave a
  parent to be looked at add it.
* `Descent.look_spec`: Looking at a commit succeeds if its parents can be read.
* `Descent.look_of_gap`: It fails if one of them cannot.
-/

namespace ReleaseNotes

namespace Descent

variable {history : History}

section Spread

variable {read more hidden : List history.Position}

/-- What is to be hidden remains so, and so does what is hidden. -/
theorem subset_mark (i : history.Position)
    (state : List history.Position × List history.Position) :
    state.1 ⊆ (mark read i state).1 ∧ state.2 ⊆ (mark read i state).2 := by
  unfold mark
  split
  · split
    · exact ⟨List.subset_append_right _ _, List.subset_cons_self _ _⟩
    · exact ⟨List.Subset.refl _, List.subset_cons_self _ _⟩
  · exact ⟨List.Subset.refl _, List.Subset.refl _⟩

/-- Of a commit and those behind it, what is to be hidden is hidden when the commit has
    been gone over. -/
theorem marked_mark {i : history.Position} {rest : List history.Position}
    {state : List history.Position × List history.Position} (hfirst : ∀ j ∈ rest, i < j)
    (hmarked : ∀ j ∈ rest, j ∈ state.1 → j ∈ state.2) :
    ∀ j ∈ i :: rest, j ∈ (mark read i state).1 → j ∈ (mark read i state).2 := by
  intro j hj hto
  unfold mark at hto ⊢
  split at hto
  · rename_i hcond
    rw [if_pos hcond]
    rcases List.mem_cons.1 hj with rfl | hj
    · exact List.mem_cons_self
    · -- A parent of `i` stands in front of it, so `j` is none.
      have hnot : j ∉ history.parents i := by
        intro hp
        exact Fin.lt_asymm (History.lt_of_mem_parents hp) (hfirst j hj)
      have hold : j ∈ state.1 := by
        split at hto
        · exact (List.mem_append.1 hto).resolve_left hnot
        · exact hto
      exact List.mem_cons_of_mem _ (hmarked j hj hold)
  · rename_i hcond
    rw [if_neg hcond]
    rcases List.mem_cons.1 hj with rfl | hj
    · simpa [hto] using hcond
    · exact hmarked j hj hto

/-- The parents of what is hidden are to be hidden, also when a commit has been gone
    over. -/
theorem closed_mark {i : history.Position}
    {state : List history.Position × List history.Position}
    (hclosed : ∀ j ∈ state.2, j ∈ hidden ∨ (j ∈ read → ∀ p ∈ history.parents j, p ∈ state.1)) :
    ∀ j ∈ (mark read i state).2,
      j ∈ hidden ∨ (j ∈ read → ∀ p ∈ history.parents j, p ∈ (mark read i state).1) := by
  intro j hj
  -- Only `i` can have become hidden just now.
  by_cases hold : j ∈ state.2
  · rcases hclosed j hold with hbefore | hparents
    · exact .inl hbefore
    · exact .inr fun hread p hp => (subset_mark i state).1 (hparents hread p hp)
  · right
    intro hread p hp
    unfold mark at hj ⊢
    split at hj
    · rename_i hcond
      obtain rfl : j = i := (List.mem_cons.1 hj).resolve_right hold
      rw [if_pos hcond, if_pos (List.contains_iff_mem.2 hread)]
      exact List.mem_append_left _ hp
    · exact absurd hj hold

/-- What becomes of some commits when the list has been gone over: those of
    them that were to be hidden are, and for what has become hidden the parents
    are to be. -/
theorem foldr_mark (read more hidden : List history.Position) {sorted : List history.Position}
    (hsorted : sorted.Pairwise (· < ·)) :
    let state := sorted.foldr (mark read) (more, hidden)
    more ⊆ state.1 ∧ hidden ⊆ state.2 ∧
      (∀ j ∈ sorted, j ∈ state.1 → j ∈ state.2) ∧
      ∀ j ∈ state.2, j ∈ hidden ∨ (j ∈ read → ∀ p ∈ history.parents j, p ∈ state.1) := by
  induction sorted with
  | nil => exact ⟨List.Subset.refl _, List.Subset.refl _, nofun, fun _ hj => .inl hj⟩
  | cons i rest ih =>
      obtain ⟨hfirst, hrest⟩ := List.pairwise_cons.1 hsorted
      obtain ⟨hmore, hhidden, hmarked, hclosed⟩ := ih hrest
      rw [List.foldr_cons]
      generalize rest.foldr (mark read) (more, hidden) = state at *
      obtain ⟨hkeep, hkeep'⟩ : _ ∧ state.2 ⊆ (mark read i state).2 := subset_mark i state
      exact ⟨List.Subset.trans hmore hkeep, List.Subset.trans hhidden hkeep',
        marked_mark hfirst hmarked, closed_mark hclosed⟩

theorem subset_spread : hidden ⊆ spread read more hidden :=
  (foldr_mark read more hidden (List.pairwise_lt_finRange _)).2.1

theorem more_subset_spread : more ⊆ spread read more hidden := by
  intro j hj
  obtain ⟨hmore, -, hmarked, -⟩ :=
    foldr_mark read more hidden (List.pairwise_lt_finRange history.size)
  exact hmarked j (List.mem_finRange j) (hmore hj)

/-- What is hidden is closed: if it was not hidden before and has been read, its
    parents are hidden. -/
theorem parents_subset_spread {j : history.Position} (hj : j ∈ spread read more hidden) :
    j ∈ hidden ∨ (j ∈ read → ∀ p ∈ history.parents j, p ∈ spread read more hidden) := by
  obtain ⟨-, -, hmarked, hclosed⟩ :=
    foldr_mark read more hidden (List.pairwise_lt_finRange history.size)
  rcases hclosed j hj with hbefore | hparents
  · exact .inl hbefore
  · exact .inr fun hread p hp => hmarked p (List.mem_finRange p) (hparents hread p hp)

/-- Nothing is hidden that does not have to be. -/
theorem ledTo_of_mem_spread {starts : List history.Position}
    (hmore : ∀ i ∈ more, history.LedTo starts i)
    (hhidden : ∀ i ∈ hidden, history.LedTo starts i) :
    ∀ i ∈ spread read more hidden, history.LedTo starts i := by
  -- The induction carries what is to be hidden along with what is.
  have hfold : ∀ list : List history.Position,
      (∀ i ∈ (list.foldr (mark read) (more, hidden)).1, history.LedTo starts i) ∧
        ∀ i ∈ (list.foldr (mark read) (more, hidden)).2, history.LedTo starts i := by
    intro list
    induction list with
    | nil => exact ⟨hmore, hhidden⟩
    | cons i rest ih =>
        rw [List.foldr_cons]
        generalize rest.foldr (mark read) (more, hidden) = state at *
        unfold mark
        split
        · rename_i hcond
          have hi : history.LedTo starts i := ih.1 i (by simp_all)
          constructor
          · intro j hj
            split at hj
            · rcases List.mem_append.1 hj with hp | hj
              · exact hi.tail hp
              · exact ih.1 j hj
            · exact ih.1 j hj
          · intro j hj
            rcases List.mem_cons.1 hj with rfl | hj
            · exact hi
            · exact ih.2 j hj
        · exact ih
  exact (hfold _).2

end Spread

section Place

variable {i j : history.Position} {pending : List history.Position}

/-- Commits in the order in which they are looked at, the latest first. -/
def Latest (pending : List history.Position) : Prop :=
  pending.Pairwise fun i j => (history.record j).time ≤ (history.record i).time

theorem perm_place (i : history.Position) (pending : List history.Position) :
    (place i pending).Perm (i :: pending) := by
  induction pending with
  | nil => exact .refl _
  | cons j rest ih =>
      rw [place]
      split
      · exact .refl _
      · exact (ih.cons j).trans (.swap i j rest)

theorem mem_place_iff : j ∈ place i pending ↔ j = i ∨ j ∈ pending := by
  rw [(perm_place i pending).mem_iff, List.mem_cons]

/-- A commit is put where it belongs. -/
theorem Latest.place (h : Latest pending) : Latest (place i pending) := by
  induction pending with
  | nil => exact List.pairwise_singleton _ _
  | cons j rest ih =>
      obtain ⟨hfirst, hrest⟩ := List.pairwise_cons.1 h
      rw [Descent.place]
      split
      · rename_i hlt
        refine List.pairwise_cons.2 ⟨?_, h⟩
        intro k hk
        rcases List.mem_cons.1 hk with rfl | hk
        · omega
        · have hle := hfirst k hk
          omega
      · rename_i hle
        refine List.pairwise_cons.2 ⟨?_, ih hrest⟩
        intro k hk
        rcases mem_place_iff.1 hk with rfl | hk
        · omega
        · exact hfirst k hk

end Place

/-- The commits that are left to be looked at and not hidden. -/
def unhidden (descent : Descent history) : List history.Position :=
  descent.pending.filter fun i => !descent.hidden.contains i

/-- Hiding more commits leaves fewer that are not hidden. -/
theorem sublist_filter_hidden {hidden others : List history.Position} (h : hidden ⊆ others)
    (pending : List history.Position) :
    (pending.filter fun i => !others.contains i).Sublist
      (pending.filter fun i => !hidden.contains i) := by
  refine List.monotone_filter_right _ ?_
  intro j hj
  simp only [Bool.not_eq_true', ← Bool.not_eq_true, List.contains_iff_mem] at hj ⊢
  exact fun hold => hj (h hold)

/-- What becomes of a descent when some commits are left to be looked at. They
    are read and seen. One that was seen before is left once more only if it is
    hidden, and some more commits can be hidden with those that they lead to. -/
structure Adds (descent : Descent history) (commits : List history.Position)
    (after : Descent history) : Prop where
  found_eq : after.found = descent.found
  mem_opened : ∀ j, j ∈ after.opened ↔ j ∈ descent.opened
  mem_read : ∀ j, j ∈ after.read ↔ j ∈ commits ∨ j ∈ descent.read
  mem_seen : ∀ j, j ∈ after.seen ↔ j ∈ commits ∨ j ∈ descent.seen
  pending_subset : descent.pending ⊆ after.pending
  of_mem_pending : ∀ j ∈ after.pending,
    j ∈ descent.pending ∨ j ∈ commits ∧ (j ∈ after.hidden ∨ j ∉ descent.seen)
  left : ∀ j ∈ commits, j ∈ after.pending ∨ j ∈ descent.seen
  length_pending : after.pending.length ≤ commits.length + descent.pending.length
  latest : Latest descent.pending → Latest after.pending
  nodup_unhidden : descent.pending ⊆ descent.seen → descent.unhidden.Nodup →
    after.unhidden.Nodup
  hidden_subset : descent.hidden ⊆ after.hidden
  closed : ∀ j ∈ after.hidden,
    j ∈ descent.hidden ∨ (j ∈ descent.read → ∀ p ∈ history.parents j, p ∈ after.hidden)
  ledTo : ∀ starts, (∀ j ∈ descent.hidden, history.LedTo starts j) →
    (∀ j ∈ commits, history.LedTo starts j) → ∀ j ∈ after.hidden, history.LedTo starts j

namespace Adds

variable {descent middle after : Descent history} {commits others : List history.Position}

theorem refl (descent : Descent history) : Adds descent [] descent where
  found_eq := rfl
  mem_opened := by simp
  mem_read := by simp
  mem_seen := by simp
  pending_subset := List.Subset.refl _
  of_mem_pending := fun _ hj => .inl hj
  left := by simp
  length_pending := by simp
  latest := id
  nodup_unhidden := fun _ h => h
  hidden_subset := List.Subset.refl _
  closed := fun _ hj => .inl hj
  ledTo := fun _ h _ => h

theorem trans (h : Adds descent commits middle) (h' : Adds middle others after) :
    Adds descent (commits ++ others) after where
  found_eq := h'.found_eq.trans h.found_eq
  mem_opened := fun j => (h'.mem_opened j).trans (h.mem_opened j)
  mem_read := by
    intro j
    rw [h'.mem_read, h.mem_read, List.mem_append, ← or_assoc, or_comm (a := j ∈ others)]
  mem_seen := by
    intro j
    rw [h'.mem_seen, h.mem_seen, List.mem_append, ← or_assoc, or_comm (a := j ∈ others)]
  pending_subset := List.Subset.trans h.pending_subset h'.pending_subset
  of_mem_pending := by
    intro j hj
    rcases h'.of_mem_pending j hj with hj | ⟨hother, hwhy⟩
    · rcases h.of_mem_pending j hj with hj | ⟨hcommit, hwhy⟩
      · exact .inl hj
      · exact .inr ⟨List.mem_append_left _ hcommit, hwhy.imp_left fun hh => h'.hidden_subset hh⟩
    · refine .inr ⟨List.mem_append_right _ hother, hwhy.imp_right ?_⟩
      intro hnew hold
      exact hnew ((h.mem_seen j).2 (.inr hold))
  left := by
    intro j hj
    rcases List.mem_append.1 hj with hj | hj
    · exact (h.left j hj).imp_left fun hp => h'.pending_subset hp
    · rcases h'.left j hj with hp | hseen
      · exact .inl hp
      · rcases (h.mem_seen j).1 hseen with hcommit | hold
        · exact (h.left j hcommit).imp_left fun hp => h'.pending_subset hp
        · exact .inr hold
  length_pending := by
    have h1 := h.length_pending
    have h2 := h'.length_pending
    rw [List.length_append]
    omega
  latest := fun hlatest => h'.latest (h.latest hlatest)
  nodup_unhidden := by
    intro hpending hnodup
    refine h'.nodup_unhidden ?_ (h.nodup_unhidden hpending hnodup)
    intro j hj
    rcases h.of_mem_pending j hj with hj | ⟨hcommit, -⟩
    · exact (h.mem_seen j).2 (.inr (hpending hj))
    · exact (h.mem_seen j).2 (.inl hcommit)
  hidden_subset := List.Subset.trans h.hidden_subset h'.hidden_subset
  closed := by
    intro j hj
    rcases h'.closed j hj with hj | hparents
    · refine (h.closed j hj).imp_right ?_
      intro hparents hread p hp
      exact h'.hidden_subset (hparents hread p hp)
    · exact .inr fun hread => hparents ((h.mem_read j).2 (.inr hread))
  ledTo := by
    intro starts hhidden hcommits
    have hmiddle := h.ledTo starts hhidden fun j hj => hcommits j (List.mem_append_left _ hj)
    exact h'.ledTo starts hmiddle fun j hj => hcommits j (List.mem_append_right _ hj)

/-- What is added by every commit of a list is added by the list. -/
theorem foldl {add : Descent history → history.Position → Descent history}
    (hadd : ∀ descent i, Adds descent [i] (add descent i)) (commits : List history.Position)
    (descent : Descent history) : Adds descent commits (commits.foldl add descent) := by
  induction commits generalizing descent with
  | nil => exact refl descent
  | cons i rest ih => exact (hadd descent i).trans (ih (add descent i))

end Adds

/-- A parent of a hidden commit is added, and hidden. -/
theorem adds_addHidden (descent : Descent history) (i : history.Position) :
    Adds descent [i] (descent.addHidden i) where
  found_eq := rfl
  mem_opened := fun _ => .rfl
  mem_read := by simp [addHidden]
  mem_seen := by simp [addHidden]
  pending_subset := fun _ hj => mem_place_iff.2 (.inr hj)
  of_mem_pending := by
    intro j hj
    rcases mem_place_iff.1 hj with rfl | hj
    · exact .inr ⟨List.mem_singleton_self _, .inl (subset_spread List.mem_cons_self)⟩
    · exact .inl hj
  left := by
    intro j hj
    rw [List.mem_singleton] at hj
    exact .inl (mem_place_iff.2 (.inl hj))
  length_pending := by
    rw [addHidden, (perm_place i descent.pending).length_eq, List.length_cons,
      List.length_singleton]
    omega
  latest := Latest.place
  nodup_unhidden := by
    intro _ hnodup
    have hi : i ∈ (descent.addHidden i).hidden := subset_spread List.mem_cons_self
    have hkeep : descent.hidden ⊆ (descent.addHidden i).hidden :=
      fun _ hj => subset_spread (List.mem_cons_of_mem _ hj)
    have hperm := (perm_place i descent.pending).filter
      fun j => !(descent.addHidden i).hidden.contains j
    -- The commit that is put in is hidden itself, and is filtered out.
    rw [List.filter_cons_of_neg (by simp [hi])] at hperm
    exact hperm.nodup_iff.2 ((sublist_filter_hidden hkeep _).nodup hnodup)
  hidden_subset := fun _ hj => subset_spread (List.mem_cons_of_mem _ hj)
  closed := by
    intro j hj
    -- The parents of the commit itself were given to be hidden.
    rcases parents_subset_spread hj with hj | hparents
    · rcases List.mem_cons.1 hj with rfl | hj
      · exact .inr fun _ p hp => more_subset_spread hp
      · exact .inl hj
    · exact .inr fun hread => hparents (List.mem_cons_of_mem _ hread)
  ledTo := by
    intro starts hhidden hi
    have hled := hi i (List.mem_singleton_self i)
    refine ledTo_of_mem_spread (fun p hp => hled.tail hp) ?_
    intro j hj
    rcases List.mem_cons.1 hj with rfl | hj
    · exact hled
    · exact hhidden j hj

/-- A commit that was seen before is only read once more. -/
theorem adds_again (descent : Descent history) {i : history.Position}
    (hseen : i ∈ descent.seen) :
    Adds descent [i] { descent with read := i :: descent.read } where
  found_eq := rfl
  mem_opened := fun _ => .rfl
  mem_read := by simp
  mem_seen := by
    intro j
    rw [List.mem_singleton, or_iff_right_of_imp]
    rintro rfl
    exact hseen
  pending_subset := List.Subset.refl _
  of_mem_pending := fun _ hj => .inl hj
  left := by
    intro j hj
    rw [List.mem_singleton] at hj
    exact .inr (hj ▸ hseen)
  length_pending := Nat.le_add_left _ _
  latest := id
  nodup_unhidden := fun _ h => h
  hidden_subset := List.Subset.refl _
  closed := fun _ hj => .inl hj
  ledTo := fun _ h _ => h

/-- A parent of a commit that was found is added. -/
theorem adds_addFound (descent : Descent history) (i : history.Position) :
    Adds descent [i] (descent.addFound i) := by
  unfold addFound
  simp only [List.contains_iff_mem]
  split
  · rename_i hseen
    exact adds_again descent hseen
  · rename_i hnew
    exact
      { found_eq := rfl
        mem_opened := fun _ => .rfl
        mem_read := by simp
        mem_seen := by simp
        pending_subset := fun _ hj => mem_place_iff.2 (.inr hj)
        of_mem_pending := by
          intro j hj
          rcases mem_place_iff.1 hj with rfl | hj
          · exact .inr ⟨List.mem_singleton_self _, .inr hnew⟩
          · exact .inl hj
        left := by
          intro j hj
          rw [List.mem_singleton] at hj
          exact .inl (mem_place_iff.2 (.inl hj))
        length_pending := by
          have hlength := (perm_place i descent.pending).length_eq
          simp only [List.length_cons, List.length_nil] at hlength ⊢
          omega
        latest := Latest.place
        nodup_unhidden := by
          intro hpending hnodup
          refine ((perm_place i descent.pending).filter _).nodup_iff.2 ?_
          rw [List.filter_cons]
          split
          · -- What is left has been seen, and this commit has not.
            refine List.nodup_cons.2 ⟨?_, hnodup⟩
            exact fun hi => hnew (hpending (List.mem_of_mem_filter hi))
          · exact hnodup
        hidden_subset := List.Subset.refl _
        closed := fun _ hj => .inl hj
        ledTo := fun _ h _ => h }

/-- A descent with the parents of a commit hidden. -/
def hideBehind (descent : Descent history) (i : history.Position) : Descent history :=
  { descent with hidden := spread descent.read (history.parents i) descent.hidden }

/-- Hiding the parents of a hidden commit adds no commit. -/
theorem adds_hideBehind (descent : Descent history) {i : history.Position}
    (hi : i ∈ descent.hidden) : Adds descent [] (descent.hideBehind i) where
  found_eq := rfl
  mem_opened := fun _ => .rfl
  mem_read := by simp [hideBehind]
  mem_seen := by simp [hideBehind]
  pending_subset := List.Subset.refl _
  of_mem_pending := fun _ hj => .inl hj
  left := by simp
  length_pending := Nat.le_add_left _ _
  latest := id
  nodup_unhidden := by
    intro _ hnodup
    exact (sublist_filter_hidden subset_spread _).nodup hnodup
  hidden_subset := subset_spread
  closed := fun _ hj => parents_subset_spread hj
  ledTo := by
    intro starts hhidden _
    exact ledTo_of_mem_spread (fun p hp => (hhidden i hi).tail hp) hhidden

theorem parents_subset_hideBehind (descent : Descent history) (i : history.Position) :
    history.parents i ⊆ (descent.hideBehind i).hidden :=
  more_subset_spread

/-- A descent with its next commit taken out and opened. -/
def taken (descent : Descent history) (i : history.Position) (rest : List history.Position) :
    Descent history :=
  { descent with pending := rest, opened := i :: descent.opened }

/-- What becomes of a descent when the next commit is looked at, be it hidden,
    for the first time or once more, or be it found. -/
inductive Looked (descent : Descent history) (i : history.Position)
    (rest : List history.Position) : Descent history → Prop
  | again {after : Descent history} (hopened : i ∈ descent.opened) (hhidden : i ∈ descent.hidden)
      (hadds : Adds (descent.taken i rest) [] after)
      (hparents : history.parents i ⊆ after.hidden) : Looked descent i rest after
  | hidden {after : Descent history} (hopened : i ∉ descent.opened)
      (hhidden : i ∈ descent.hidden)
      (hadds : Adds (descent.taken i rest) (history.parents i) after)
      (hparents : history.parents i ⊆ after.hidden) : Looked descent i rest after
  | found {after : Descent history} (hopened : i ∉ descent.opened)
      (hhidden : i ∉ descent.hidden)
      (hadds : Adds (descent.taken i rest) (history.parents i) after)
      (heq : after.hidden = descent.hidden) :
      Looked descent i rest { after with found := i :: after.found }

theorem hidden_foldl_addFound (commits : List history.Position) (descent : Descent history) :
    (commits.foldl addFound descent).hidden = descent.hidden := by
  induction commits generalizing descent with
  | nil => rfl
  | cons i rest ih =>
      rw [List.foldl_cons, ih]
      simp only [addFound]
      split <;> rfl

section Look

variable {descent : Descent history} {i : history.Position} (rest : List history.Position)

theorem look_of_mem_opened (hopened : i ∈ descent.opened) (hhidden : i ∈ descent.hidden) :
    look { descent with pending := rest } i =
      .ok (hideBehind { descent with pending := rest } i) := by
  simp [look, openUp, hopened, hhidden, hideBehind, bind, Except.bind, pure, Except.pure]

theorem look_of_mem_hidden (hgap : history.gap? i = none) (hopened : i ∉ descent.opened)
    (hhidden : i ∈ descent.hidden) :
    look { descent with pending := rest } i =
      .ok (((history.parents i).foldl addHidden (descent.taken i rest)).hideBehind i) := by
  have hi : i ∈ ((history.parents i).foldl addHidden (descent.taken i rest)).hidden :=
    (Adds.foldl adds_addHidden _ _).hidden_subset hhidden
  unfold taken at hi
  simp [look, openUp, hopened, hhidden, hgap, hi, taken, hideBehind, bind, Except.bind,
    pure, Except.pure]

theorem look_of_notMem_hidden (hgap : history.gap? i = none) (hopened : i ∉ descent.opened)
    (hhidden : i ∉ descent.hidden) :
    look { descent with pending := rest } i =
      let after := (history.parents i).foldl addFound (descent.taken i rest)
      .ok { after with found := i :: after.found } := by
  have hi : i ∉ ((history.parents i).foldl addFound (descent.taken i rest)).hidden := by
    rw [hidden_foldl_addFound]
    exact hhidden
  unfold taken at hi
  simp [look, openUp, hopened, hhidden, hgap, hi, taken, bind, Except.bind, pure,
    Except.pure]

/-- A commit one of whose parents cannot be read cannot be opened. -/
theorem look_of_gap {fault : ReadFault} (hopened : i ∉ descent.opened)
    (hgap : history.gap? i = some fault) :
    look { descent with pending := rest } i = .error fault := by
  simp [look, openUp, hopened, hgap, bind, Except.bind]

/-- A commit whose parents can be read, or have been, can be looked at, if it is
    not found a second time. -/
theorem look_spec (hgap : history.gap? i = none ∨ i ∈ descent.opened)
    (hagain : i ∈ descent.opened → i ∈ descent.hidden) :
    ∃ after, look { descent with pending := rest } i = .ok after ∧
      Looked descent i rest after := by
  by_cases hopened : i ∈ descent.opened
  · have hhidden := hagain hopened
    have hadds := adds_hideBehind { descent with pending := rest } hhidden
    refine ⟨_, look_of_mem_opened rest hopened hhidden, .again hopened hhidden ?_ ?_⟩
    · -- Opening it once more would change nothing.
      exact { hadds with mem_opened := by simp [taken, hideBehind, hopened] }
    · exact parents_subset_hideBehind _ i
  · have hgap := hgap.resolve_right hopened
    by_cases hhidden : i ∈ descent.hidden
    · have hadds := Adds.foldl adds_addHidden (history.parents i) (descent.taken i rest)
      have hbehind := adds_hideBehind _ (hadds.hidden_subset hhidden)
      refine ⟨_, look_of_mem_hidden rest hgap hopened hhidden, .hidden hopened hhidden ?_ ?_⟩
      · -- Hiding what lies behind adds no commit to those that were added.
        have hboth := hadds.trans hbehind
        rwa [List.append_nil] at hboth
      · exact parents_subset_hideBehind _ i
    · have hadds := Adds.foldl adds_addFound (history.parents i) (descent.taken i rest)
      exact ⟨_, look_of_notMem_hidden rest hgap hopened hhidden,
        .found hopened hhidden hadds (hidden_foldl_addFound _ _)⟩

end Look

end Descent

end ReleaseNotes
