import Mathlib.Data.List.Perm.Subperm
import ReleaseNotes.Proofs.History.Step

/-!
# The Course of a Descent

What holds of a descent however far it has come, and what has been found when
it ends.

Four things are kept from one commit that is looked at to the next. `Follows`
is about what has been seen and hidden: only what should be, and all of it that
the opened commits lead to at once. `Finds` is about what has been found: every
commit that was opened is found or hidden, and none is found twice, although a
hidden commit can be left to be looked at many times. `Linked` is about where it
was found: behind another one that was. `Timely` is about times, and needs a
history in which no commit is earlier than a parent of it: what is left to be
looked at is not later than what has been found.

A path from a commit that is to be hidden either has been gone along to its end
or is left at a commit that is still to be looked at. So when nothing is left,
everything that should be hidden is. A descent may also be given up, as long as
only hidden commits are left and all of them are earlier than the last one that
was found. A path from one of those then goes to earlier commits only, and to
nothing that was found. This is the one place where times count. What was found
is complete without them, since no commit that is not hidden is ever left over.

Each commit is opened once and leaves as many commits to be looked at as it has
parents. The commits left over and the parents of the commits not yet opened
are a `debt` that gets smaller with every commit looked at.

## Main definitions

* `Descent.Follows`: What has been seen and hidden is right.
* `Descent.Finds`: What has been found is right.
* `Descent.Linked`: What has been found hangs together.
* `Descent.Timely`: Nothing that is left is later than what has been found.
* `Descent.debt`: How many commits can still be looked at.
* `Descent.Ended`: Nothing is left that is worth looking at.

## Theorems

* `Descent.Follows.look`, `Descent.Finds.look`, `Descent.Linked.look`,
  `Descent.Timely.look`: They are kept when a commit is looked at.
* `Descent.goOn_spec`: What is kept by looking at a commit is kept to the end.
* `Descent.run_spec`: A descent comes to its end, or to a gap.
* `Descent.Follows.found_iff`: What has been found by then.
-/

namespace ReleaseNotes

namespace Descent

variable {history : History} {wanted unwanted : List history.Position}
variable {descent after : Descent history} {i : history.Position}
variable {rest commits : List history.Position}

/-- What has been seen can be come to, and what has been hidden is to be hidden.
    A commit that has been seen is left to be looked at or has been opened, and
    then its parents have been seen, and are hidden if it is. -/
structure Follows (wanted unwanted : List history.Position) (descent : Descent history) :
    Prop where
  ledTo_hidden : ∀ i ∈ descent.hidden, history.LedTo unwanted i
  ledTo_seen : ∀ i ∈ descent.seen, history.LedTo (unwanted ++ wanted) i
  start_seen : unwanted ++ wanted ⊆ descent.seen
  start_hidden : unwanted ⊆ descent.hidden
  seen_read : descent.seen ⊆ descent.read
  pending_seen : descent.pending ⊆ descent.seen
  opened_seen : descent.opened ⊆ descent.seen
  pending_or_opened : ∀ i ∈ descent.seen, i ∈ descent.pending ∨ i ∈ descent.opened
  parents_seen : ∀ i ∈ descent.opened, history.parents i ⊆ descent.seen
  parents_hidden : ∀ i ∈ descent.opened, i ∈ descent.hidden → history.parents i ⊆ descent.hidden

/-- What has been opened was found or is hidden. Nothing was found twice, or is
    left to be found a second time. -/
structure Finds (descent : Descent history) : Prop where
  found_or_hidden : ∀ i ∈ descent.opened, i ∈ descent.found ∨ i ∈ descent.hidden
  found_opened : descent.found ⊆ descent.opened
  nodup_found : descent.found.Nodup
  nodup_unhidden : descent.unhidden.Nodup
  hidden_of_found : ∀ i ∈ descent.found, i ∈ descent.pending → i ∈ descent.hidden

/-- Every commit that was found is wanted itself or a parent of one that was found.
    So is every commit that is left to be looked at and not hidden. -/
structure Linked (wanted : List history.Position) (descent : Descent history) : Prop where
  found : ∀ i ∈ descent.found, i ∈ wanted ∨ ∃ j ∈ descent.found, i ∈ history.parents j
  pending : ∀ i ∈ descent.pending,
    i ∈ descent.hidden ∨ i ∈ wanted ∨ ∃ j ∈ descent.found, i ∈ history.parents j

/-- Commits are found in the order of their times, and what is left to be looked
    at is not later. It is in order, too. Only at the start a hidden commit can
    come before a later one. -/
structure Timely (descent : Descent history) : Prop where
  pending_le : ∀ i ∈ descent.found, ∀ j ∈ descent.pending,
    (history.record j).time ≤ (history.record i).time
  pairwise_found : descent.found.Pairwise fun i j =>
    (history.record i).time ≤ (history.record j).time
  latest : Latest descent.pending ∨
    descent.found = [] ∧ ∃ i rest, descent.pending = i :: rest ∧ i ∈ descent.hidden ∧ Latest rest

section Next

variable (hnext : descent.pending = i :: rest)
include hnext

theorem mem_pending_of_next : i ∈ descent.pending := by
  rw [hnext]
  exact List.mem_cons_self

theorem rest_subset_pending : rest ⊆ descent.pending := by
  rw [hnext]
  exact List.subset_cons_self _ _

theorem length_pending_of_next : descent.pending.length = rest.length + 1 := by
  rw [hnext, List.length_cons]

end Next

theorem mem_taken_opened {j : history.Position} :
    j ∈ (descent.taken i rest).opened ↔ j = i ∨ j ∈ descent.opened :=
  List.mem_cons

namespace Follows

theorem start (wanted unwanted : List history.Position) :
    Follows wanted unwanted (Descent.start wanted unwanted) where
  ledTo_hidden := by
    refine ledTo_of_mem_spread ?_ fun i hi => History.ledTo_of_mem hi
    intro p hp
    obtain ⟨i, hi, hparent⟩ := List.mem_flatMap.1 hp
    exact (History.ledTo_of_mem hi).tail hparent
  ledTo_seen := fun _ hi => History.ledTo_of_mem (List.mem_eraseDups.1 hi)
  start_seen := fun _ hi => List.mem_eraseDups.2 hi
  start_hidden := subset_spread
  seen_read := List.Subset.refl _
  pending_seen := List.Subset.refl _
  opened_seen := List.nil_subset _
  pending_or_opened := fun _ hi => .inl hi
  parents_seen := by
    intro i hi
    cases hi
  parents_hidden := by
    intro i hi
    cases hi

/-- Opening the next commit keeps what is right, provided its parents have been
    added in the right way. -/
theorem adds (h : Follows wanted unwanted descent) (hnext : descent.pending = i :: rest)
    (hadds : Adds (descent.taken i rest) commits after)
    (hcommits : commits ⊆ history.parents i)
    (hled : ∀ j ∈ after.hidden, history.LedTo unwanted j)
    (hseen : history.parents i ⊆ after.seen)
    (hparents : i ∈ after.hidden → history.parents i ⊆ after.hidden) :
    Follows wanted unwanted after := by
  have hi : i ∈ descent.seen := h.pending_seen (mem_pending_of_next hnext)
  have hrest := rest_subset_pending hnext
  have hkeep : descent.seen ⊆ after.seen := fun j hj => (hadds.mem_seen j).2 (.inr hj)
  have hcommitted : commits ⊆ after.seen := fun j hj => (hadds.mem_seen j).2 (.inl hj)
  constructor
  case ledTo_hidden => exact hled
  case ledTo_seen =>
    intro j hj
    rcases (hadds.mem_seen j).1 hj with hj | hj
    · exact (h.ledTo_seen i hi).tail (hcommits hj)
    · exact h.ledTo_seen j hj
  case start_seen => exact List.Subset.trans h.start_seen hkeep
  case start_hidden => exact List.Subset.trans h.start_hidden hadds.hidden_subset
  case seen_read =>
    intro j hj
    rw [hadds.mem_read]
    exact ((hadds.mem_seen j).1 hj).imp_right fun hj => h.seen_read hj
  case pending_seen =>
    intro j hj
    rcases hadds.of_mem_pending j hj with hj | ⟨hj, -⟩
    · exact hkeep (h.pending_seen (hrest hj))
    · exact hcommitted hj
  case opened_seen =>
    intro j hj
    rcases mem_taken_opened.1 ((hadds.mem_opened j).1 hj) with rfl | hj
    · exact hkeep hi
    · exact hkeep (h.opened_seen hj)
  case pending_or_opened =>
    intro j hj
    -- The commit that was taken out is not left any more, but it is opened now.
    have hold : j ∈ descent.seen → j ∈ after.pending ∨ j ∈ after.opened := by
      intro hj
      rw [hadds.mem_opened, mem_taken_opened]
      rcases h.pending_or_opened j hj with hj | hj
      · rw [hnext] at hj
        rcases List.mem_cons.1 hj with rfl | hj
        · exact .inr (.inl rfl)
        · exact .inl (hadds.pending_subset hj)
      · exact .inr (.inr hj)
    rcases (hadds.mem_seen j).1 hj with hj | hj
    · rcases hadds.left j hj with hj | hj
      · exact .inl hj
      · exact hold hj
    · exact hold hj
  case parents_seen =>
    intro j hj
    rcases mem_taken_opened.1 ((hadds.mem_opened j).1 hj) with rfl | hj
    · exact hseen
    · exact List.Subset.trans (h.parents_seen j hj) hkeep
  case parents_hidden =>
    intro j hj hhidden
    rcases mem_taken_opened.1 ((hadds.mem_opened j).1 hj) with rfl | hj
    · exact hparents hhidden
    · -- An opened commit has been read, so what it leads to is hidden with it.
      rcases hadds.closed j hhidden with hold | hparents
      · exact List.Subset.trans (h.parents_hidden j hj hold) hadds.hidden_subset
      · exact hparents (h.seen_read (h.opened_seen hj))

theorem look (h : Follows wanted unwanted descent) (hnext : descent.pending = i :: rest)
    (hlook : Looked descent i rest after) : Follows wanted unwanted after := by
  cases hlook with
  | again hopened hhidden hadds hparents =>
      have hled := hadds.ledTo unwanted h.ledTo_hidden (by simp)
      refine h.adds hnext hadds (List.nil_subset _) hled ?_ fun _ => hparents
      exact fun p hp => (hadds.mem_seen p).2 (.inr (h.parents_seen i hopened hp))
  | hidden hopened hhidden hadds hparents =>
      have hled := hadds.ledTo unwanted h.ledTo_hidden
        fun p hp => (h.ledTo_hidden i hhidden).tail hp
      refine h.adds hnext hadds (List.Subset.refl _) hled ?_ fun _ => hparents
      exact fun p hp => (hadds.mem_seen p).2 (.inl hp)
  | @found after hopened hhidden hadds heq =>
      have hled : ∀ j ∈ after.hidden, history.LedTo unwanted j := by
        rw [heq]
        exact h.ledTo_hidden
      -- What has been found does not matter here.
      have hafter : Follows wanted unwanted after := by
        refine h.adds hnext hadds (List.Subset.refl _) hled ?_ ?_
        · exact fun p hp => (hadds.mem_seen p).2 (.inl hp)
        · intro hi
          exact absurd (heq ▸ hi) hhidden
      exact { hafter with }

end Follows

namespace Finds

theorem start (wanted unwanted : List history.Position) :
    Finds (Descent.start wanted unwanted) where
  found_or_hidden := by
    intro i hi
    cases hi
  found_opened := List.nil_subset _
  nodup_found := .nil
  nodup_unhidden := (nodup_eraseDups _).filter _
  hidden_of_found := by
    intro i hi
    cases hi

/-- A commit that is left although it has been opened is hidden. -/
theorem hidden_of_opened (h : Finds descent) (hnext : descent.pending = i :: rest)
    (hopened : i ∈ descent.opened) : i ∈ descent.hidden := by
  rcases h.found_or_hidden i hopened with hfound | hhidden
  · exact h.hidden_of_found i hfound (mem_pending_of_next hnext)
  · exact hhidden

theorem nodup_unhidden_taken (h : Finds descent) (hnext : descent.pending = i :: rest) :
    (descent.taken i rest).unhidden.Nodup := by
  have hsub : (descent.taken i rest).unhidden.Sublist descent.unhidden := by
    unfold unhidden
    rw [hnext]
    exact (List.sublist_cons_self i rest).filter _
  exact hsub.nodup h.nodup_unhidden

/-- A commit that is found is not left a second time. -/
theorem notMem_rest (h : Finds descent) (hnext : descent.pending = i :: rest)
    (hhidden : i ∉ descent.hidden) : i ∉ rest := by
  have hnodup := h.nodup_unhidden
  unfold unhidden at hnodup
  rw [hnext, List.filter_cons_of_pos (by simp [hhidden])] at hnodup
  intro hi
  exact (List.nodup_cons.1 hnodup).1 (List.mem_filter.2 ⟨hi, by simp [hhidden]⟩)

/-- Looking at a hidden commit keeps what has been found. -/
theorem adds (h : Finds descent) (hfollows : Follows wanted unwanted descent)
    (hnext : descent.pending = i :: rest) (hhidden : i ∈ descent.hidden)
    (hadds : Adds (descent.taken i rest) commits after) : Finds after := by
  have hrest := rest_subset_pending hnext
  have hfound : after.found = descent.found := hadds.found_eq
  constructor
  case found_or_hidden =>
    intro j hj
    rw [hfound]
    rcases mem_taken_opened.1 ((hadds.mem_opened j).1 hj) with rfl | hj
    · exact .inr (hadds.hidden_subset hhidden)
    · exact (h.found_or_hidden j hj).imp_right fun hj => hadds.hidden_subset hj
  case found_opened =>
    intro j hj
    rw [hfound] at hj
    exact (hadds.mem_opened j).2 (mem_taken_opened.2 (.inr (h.found_opened hj)))
  case nodup_found =>
    rw [hfound]
    exact h.nodup_found
  case nodup_unhidden =>
    refine hadds.nodup_unhidden ?_ (h.nodup_unhidden_taken hnext)
    exact List.Subset.trans hrest hfollows.pending_seen
  case hidden_of_found =>
    intro j hj hpending
    rw [hfound] at hj
    -- What was found has been seen, and can only be left once more if it is hidden.
    rcases hadds.of_mem_pending j hpending with hold | ⟨-, hhidden | hnew⟩
    · exact hadds.hidden_subset (h.hidden_of_found j hj (hrest hold))
    · exact hhidden
    · exact absurd (hfollows.opened_seen (h.found_opened hj)) hnew

theorem look (h : Finds descent) (hfollows : Follows wanted unwanted descent)
    (hnext : descent.pending = i :: rest) (hlook : Looked descent i rest after) :
    Finds after := by
  cases hlook with
  | again hopened hhidden hadds hparents => exact h.adds hfollows hnext hhidden hadds
  | hidden hopened hhidden hadds hparents => exact h.adds hfollows hnext hhidden hadds
  | @found after hopened hhidden hadds heq =>
      have hpending := mem_pending_of_next hnext
      have hrest := rest_subset_pending hnext
      have hfound : after.found = descent.found := hadds.found_eq
      constructor
      case found_or_hidden =>
        intro j hj
        rcases mem_taken_opened.1 ((hadds.mem_opened j).1 hj) with rfl | hj
        · exact .inl List.mem_cons_self
        · rcases h.found_or_hidden j hj with hj | hj
          · exact .inl (List.mem_cons_of_mem _ (hfound ▸ hj))
          · exact .inr (hadds.hidden_subset hj)
      case found_opened =>
        intro j hj
        refine (hadds.mem_opened j).2 (mem_taken_opened.2 ?_)
        rcases List.mem_cons.1 hj with rfl | hj
        · exact .inl rfl
        · exact .inr (h.found_opened (hfound ▸ hj))
      case nodup_found =>
        refine List.nodup_cons.2 ⟨?_, hfound ▸ h.nodup_found⟩
        rw [hfound]
        exact fun hi => hopened (h.found_opened hi)
      case nodup_unhidden =>
        refine hadds.nodup_unhidden ?_ (h.nodup_unhidden_taken hnext)
        exact List.Subset.trans hrest hfollows.pending_seen
      case hidden_of_found =>
        intro j hj hleft
        show j ∈ after.hidden
        have hseen : j ∈ descent.seen := by
          rcases List.mem_cons.1 hj with rfl | hj
          · exact hfollows.pending_seen hpending
          · exact hfollows.opened_seen (h.found_opened (hfound ▸ hj))
        -- The commit itself was left only once, and the others were found before.
        rcases hadds.of_mem_pending j hleft with hold | ⟨-, hhidden | hnew⟩
        · rcases List.mem_cons.1 hj with rfl | hj
          · exact absurd hold (h.notMem_rest hnext hhidden)
          · exact hadds.hidden_subset (h.hidden_of_found j (hfound ▸ hj) (hrest hold))
        · exact hhidden
        · exact absurd hseen hnew

end Finds

namespace Linked

theorem start (wanted unwanted : List history.Position) :
    Linked wanted (Descent.start wanted unwanted) where
  found := by
    intro i hi
    cases hi
  pending := by
    intro i hi
    rcases List.mem_append.1 (List.mem_eraseDups.1 hi) with hi | hi
    · exact .inl (subset_spread hi)
    · exact .inr (.inl hi)

/-- Looking at a hidden commit leaves hidden commits only. -/
theorem adds (h : Linked wanted descent) (hnext : descent.pending = i :: rest)
    (hadds : Adds (descent.taken i rest) commits after) (hhidden : commits ⊆ after.hidden) :
    Linked wanted after := by
  have hfound : after.found = descent.found := hadds.found_eq
  constructor
  case found =>
    rw [hfound]
    exact h.found
  case pending =>
    intro j hj
    rw [hfound]
    rcases hadds.of_mem_pending j hj with hj | ⟨hj, -⟩
    · exact (h.pending j (rest_subset_pending hnext hj)).imp_left fun hj => hadds.hidden_subset hj
    · exact .inl (hhidden hj)

theorem look (h : Linked wanted descent) (hnext : descent.pending = i :: rest)
    (hlook : Looked descent i rest after) : Linked wanted after := by
  cases hlook with
  | again hopened hhidden hadds hparents => exact h.adds hnext hadds (List.nil_subset _)
  | hidden hopened hhidden hadds hparents => exact h.adds hnext hadds hparents
  | @found after hopened hhidden hadds heq =>
      have hfound : after.found = descent.found := hadds.found_eq
      -- What a commit was found behind is still there.
      have hbehind : ∀ j, (j ∈ wanted ∨ ∃ k ∈ descent.found, j ∈ history.parents k) →
          j ∈ wanted ∨ ∃ k ∈ i :: after.found, j ∈ history.parents k := by
        rintro j (hj | ⟨k, hk, hj⟩)
        · exact .inl hj
        · exact .inr ⟨k, List.mem_cons_of_mem _ (hfound ▸ hk), hj⟩
      constructor
      case found =>
        intro j hj
        rcases List.mem_cons.1 hj with rfl | hj
        · exact hbehind j ((h.pending j (mem_pending_of_next hnext)).resolve_left hhidden)
        · exact hbehind j (h.found j (hfound ▸ hj))
      case pending =>
        intro j hj
        rcases hadds.of_mem_pending j hj with hj | ⟨hj, -⟩
        · exact (h.pending j (rest_subset_pending hnext hj)).imp
            (fun hj => hadds.hidden_subset hj) (hbehind j)
        · exact .inr (.inr ⟨i, List.mem_cons_self, hj⟩)

end Linked

namespace Timely

/-- A start from one commit, with at most one that is to be hidden. -/
theorem start (wanted : history.Position) (unwanted : Option history.Position) :
    Timely (Descent.start [wanted] unwanted.toList) where
  pending_le := by
    intro i hi
    cases hi
  pairwise_found := .nil
  latest := by
    cases unwanted with
    | none =>
        left
        simp [Descent.start, Latest, List.eraseDups_cons]
    | some boundary =>
        -- The boundary comes first, wherever it lies.
        right
        refine ⟨rfl, boundary, ([wanted].filter fun b => !b == boundary).eraseDups,
          List.eraseDups_cons, subset_spread (List.mem_singleton_self _), ?_⟩
        rw [List.filter_singleton]
        cases !wanted == boundary
        · exact .nil
        · simp [Latest, List.eraseDups_cons]

/-- What is left besides the next commit is in order. -/
theorem latest_rest (h : Timely descent) (hnext : descent.pending = i :: rest) : Latest rest := by
  rcases h.latest with hlatest | ⟨-, j, others, hpending, -, hothers⟩
  · rw [hnext] at hlatest
    exact (List.pairwise_cons.1 hlatest).2
  · rw [hnext] at hpending
    rw [(List.cons.inj hpending).2]
    exact hothers

/-- A commit that is found is the latest one that is left. -/
theorem le_of_found (h : Timely descent) (hnext : descent.pending = i :: rest)
    (hhidden : i ∉ descent.hidden) :
    ∀ j ∈ rest, (history.record j).time ≤ (history.record i).time := by
  rcases h.latest with hlatest | ⟨-, j, others, hpending, hj, -⟩
  · rw [hnext] at hlatest
    exact (List.pairwise_cons.1 hlatest).1
  · rw [hnext] at hpending
    rw [(List.cons.inj hpending).1] at hhidden
    exact absurd hj hhidden

/-- What is added is not later than what has been found, since the commit that
    leads to it is not. -/
theorem adds_le (h : Timely descent) (hforward : history.Forward)
    (hnext : descent.pending = i :: rest) (hadds : Adds (descent.taken i rest) commits after)
    (hcommits : commits ⊆ history.parents i) :
    ∀ j ∈ descent.found, ∀ k ∈ after.pending,
      (history.record k).time ≤ (history.record j).time := by
  intro j hj k hk
  rcases hadds.of_mem_pending k hk with hk | ⟨hk, -⟩
  · exact h.pending_le j hj k (rest_subset_pending hnext hk)
  · have hki := hforward i k (hcommits hk)
    have hij := h.pending_le j hj i (mem_pending_of_next hnext)
    exact Int.le_trans hki hij

/-- Looking at a hidden commit keeps the order. -/
theorem adds (h : Timely descent) (hforward : history.Forward)
    (hnext : descent.pending = i :: rest) (hadds : Adds (descent.taken i rest) commits after)
    (hcommits : commits ⊆ history.parents i) : Timely after := by
  have hfound : after.found = descent.found := hadds.found_eq
  constructor
  case pending_le =>
    rw [hfound]
    exact h.adds_le hforward hnext hadds hcommits
  case pairwise_found =>
    rw [hfound]
    exact h.pairwise_found
  case latest => exact .inl (hadds.latest (h.latest_rest hnext))

theorem look (h : Timely descent) (hforward : history.Forward)
    (hnext : descent.pending = i :: rest) (hlook : Looked descent i rest after) :
    Timely after := by
  cases hlook with
  | again hopened hhidden hadds hparents =>
      exact h.adds hforward hnext hadds (List.nil_subset _)
  | hidden hopened hhidden hadds hparents =>
      exact h.adds hforward hnext hadds (List.Subset.refl _)
  | @found after hopened hhidden hadds heq =>
      have hfound : after.found = descent.found := hadds.found_eq
      constructor
      case pending_le =>
        intro j hj k hk
        rcases List.mem_cons.1 hj with rfl | hj
        · -- The commit just found is not earlier than what was left with it.
          rcases hadds.of_mem_pending k hk with hk | ⟨hk, -⟩
          · exact h.le_of_found hnext hhidden k hk
          · exact hforward j k hk
        · exact h.adds_le hforward hnext hadds (List.Subset.refl _) j (hfound ▸ hj) k hk
      case pairwise_found =>
        refine List.pairwise_cons.2 ⟨?_, hfound ▸ h.pairwise_found⟩
        intro j hj
        exact h.pending_le j (hfound ▸ hj) i (mem_pending_of_next hnext)
      case latest => exact .inl (hadds.latest (h.latest_rest hnext))

end Timely

section Debt

/-- The commits that have not been opened. -/
def unopened (descent : Descent history) : List history.Position :=
  (List.finRange history.size).filter fun i => !descent.opened.contains i

/-- How many commits can still be looked at: those that are left, and the
    parents of those that have not been opened. -/
def debt (descent : Descent history) : Nat :=
  descent.pending.length + (descent.unopened.flatMap history.parents).length

/-- Opening a commit takes it from those that have not been opened. -/
theorem perm_unopened (hopened : i ∉ descent.opened)
    (h : ∀ j, j ∈ after.opened ↔ j = i ∨ j ∈ descent.opened) :
    descent.unopened.Perm (i :: after.unopened) := by
  have hi : i ∉ after.unopened := by
    simp [unopened, h]
  refine (List.perm_ext_iff_of_nodup ((List.nodup_finRange _).filter _)
    (List.nodup_cons.2 ⟨hi, (List.nodup_finRange _).filter _⟩)).2 ?_
  intro j
  by_cases hj : j = i
  · subst hj
    simp [unopened, hopened]
  · simp [unopened, h, hj]

/-- What a first look adds is paid for by the commit that it opens. -/
theorem debt_lt_of_opens (hnext : descent.pending = i :: rest) (hopened : i ∉ descent.opened)
    (hadds : Adds (descent.taken i rest) (history.parents i) after) :
    after.debt < descent.debt := by
  have hunopened := perm_unopened hopened fun j => (hadds.mem_opened j).trans mem_taken_opened
  have hparents := (hunopened.flatMap_right history.parents).length_eq
  have hpending : after.pending.length ≤ (history.parents i).length + rest.length :=
    hadds.length_pending
  have hlength := length_pending_of_next hnext
  rw [List.flatMap_cons, List.length_append] at hparents
  unfold debt
  omega

theorem Looked.debt_lt (hnext : descent.pending = i :: rest)
    (hlook : Looked descent i rest after) : after.debt < descent.debt := by
  cases hlook with
  | again hopened hhidden hadds hparents =>
      -- Nothing is opened, and one commit less is left.
      have hunopened : after.unopened = descent.unopened := by
        refine List.filter_congr fun j _ => ?_
        have hj := (hadds.mem_opened j).trans mem_taken_opened
        rw [or_iff_right_of_imp fun h => h ▸ hopened] at hj
        simp [hj]
      have hpending : after.pending.length ≤ [].length + rest.length := hadds.length_pending
      have hlength := length_pending_of_next hnext
      rw [List.length_nil] at hpending
      unfold debt
      rw [hunopened]
      omega
  | hidden hopened hhidden hadds hparents => exact debt_lt_of_opens hnext hopened hadds
  | @found after hopened hhidden hadds heq =>
      have hlt : after.debt < descent.debt := debt_lt_of_opens hnext hopened hadds
      exact hlt

end Debt

/-- Nothing is left that is worth looking at. -/
def Ended (descent : Descent history) : Prop :=
  descent.pending = [] ∨ descent.isPromising = false

/-- Patience runs out only when nothing is left that is worth looking at. -/
theorem ended_of_patienceLeft {patience : Nat} (h : descent.patienceLeft patience = 0) :
    Ended descent := by
  unfold patienceLeft at h
  split at h
  · rename_i hempty
    exact .inl (List.isEmpty_iff.1 hempty)
  · split at h
    · simp [maxPatience] at h
    · rename_i hpromising
      exact .inr (Bool.not_eq_true _ ▸ hpromising)

/-- Looking at the next commit keeps a property and leaves less to be looked at,
    or it fails in a certain way. Then a descent comes to its end with the
    property, or fails in that way. -/
theorem goOn_spec {motive : Descent history → Prop} {fails : ReadFault → Prop}
    (hlook : ∀ descent i rest, motive descent → descent.pending = i :: rest →
      (∃ after, look { descent with pending := rest } i = .ok after ∧ motive after ∧
        after.debt < descent.debt) ∨
      ∃ fault, look { descent with pending := rest } i = .error fault ∧ fails fault)
    (bound patience : Nat) (descent : Descent history) (hstart : motive descent)
    (hbound : descent.debt ≤ bound) :
    (∃ after, goOn bound patience descent = .ok after ∧ motive after ∧ Ended after) ∨
      ∃ fault, goOn bound patience descent = .error fault ∧ fails fault := by
  induction bound generalizing patience descent with
  | zero =>
      refine .inl ⟨descent, rfl, hstart, .inl ?_⟩
      unfold debt at hbound
      exact List.eq_nil_of_length_eq_zero (by omega)
  | succ bound ih =>
      rw [goOn]
      split
      · rename_i hpending
        exact .inl ⟨descent, rfl, hstart, .inl hpending⟩
      · rename_i i rest hnext
        rcases hlook descent i rest hstart hnext with
          ⟨after, hafter, hmotive, hdebt⟩ | ⟨fault, hfault, hfails⟩
        · rw [hafter]
          show (∃ last, (if after.hidden.contains i then _ else _) = _ ∧ _) ∨
            ∃ fault, (if after.hidden.contains i then _ else _) = _ ∧ _
          split
          · by_cases hpatience : after.patienceLeft patience = 0
            · exact .inl ⟨after, by simp [hpatience, pure, Except.pure], hmotive,
                ended_of_patienceLeft hpatience⟩
            · simp only [hpatience, if_false]
              exact ih _ after hmotive (by omega)
          · exact ih _ after hmotive (by omega)
        · rw [hfault]
          exact .inr ⟨fault, rfl, hfails⟩

/-- The number of commits that a descent looks at is bounded at its start. -/
theorem debt_start_le (wanted unwanted : List history.Position) :
    (start wanted unwanted).debt ≤
      ((List.finRange history.size).flatMap history.parents).length +
        (unwanted ++ wanted).length := by
  have hpending : (start wanted unwanted).pending.length ≤ (unwanted ++ wanted).length :=
    (List.subperm_of_subset (nodup_eraseDups _) fun _ hi => List.mem_eraseDups.1 hi).length_le
  have hunopened : (start wanted unwanted).unopened = List.finRange history.size :=
    List.filter_eq_self.2 fun i _ => rfl
  unfold debt
  rw [hunopened]
  omega

/-- A descent comes to its end, and all is right then, or it fails at a commit
    that it has been led to and whose parents cannot be read. -/
theorem run_spec (wanted unwanted : List history.Position) :
    (∃ after, run wanted unwanted = .ok after ∧ Follows wanted unwanted after ∧ Finds after ∧
      Linked wanted after ∧ (history.Forward → Timely (start wanted unwanted) → Timely after) ∧
      Ended after) ∨
    ∃ fault, run wanted unwanted = .error fault ∧
      ∃ i, history.LedTo (unwanted ++ wanted) i ∧ history.gap? i = some fault := by
  have hlook : ∀ descent i rest,
      (Follows wanted unwanted descent ∧ Finds descent ∧ Linked wanted descent ∧
        (history.Forward → Timely (start wanted unwanted) → Timely descent)) →
      descent.pending = i :: rest →
      (∃ after, look { descent with pending := rest } i = .ok after ∧
        (Follows wanted unwanted after ∧ Finds after ∧ Linked wanted after ∧
          (history.Forward → Timely (start wanted unwanted) → Timely after)) ∧
        after.debt < descent.debt) ∨
      ∃ fault, look { descent with pending := rest } i = .error fault ∧
        ∃ i, history.LedTo (unwanted ++ wanted) i ∧ history.gap? i = some fault := by
    rintro descent i rest ⟨hfollows, hfinds, hlinked, htimely⟩ hnext
    have hagain : i ∈ descent.opened → i ∈ descent.hidden := hfinds.hidden_of_opened hnext
    by_cases hgap : history.gap? i = none ∨ i ∈ descent.opened
    · left
      obtain ⟨after, hafter, hlooked⟩ := look_spec rest hgap hagain
      refine ⟨after, hafter,
        ⟨hfollows.look hnext hlooked, hfinds.look hfollows hnext hlooked,
          hlinked.look hnext hlooked, ?_⟩,
        hlooked.debt_lt hnext⟩
      exact fun hforward hstart => (htimely hforward hstart).look hforward hnext hlooked
    · right
      obtain ⟨hgap, hopened⟩ := not_or.1 hgap
      obtain ⟨fault, hfault⟩ := Option.ne_none_iff_exists'.1 hgap
      exact ⟨fault, look_of_gap rest hopened hfault, i,
        hfollows.ledTo_seen i (hfollows.pending_seen (mem_pending_of_next hnext)), hfault⟩
  rcases goOn_spec hlook _ maxPatience (start wanted unwanted)
      ⟨.start wanted unwanted, .start wanted unwanted, .start wanted unwanted, fun _ h => h⟩
      (debt_start_le wanted unwanted) with
    ⟨after, hafter, ⟨hfollows, hfinds, hlinked, htimely⟩, hended⟩ | hfails
  · exact .inl ⟨after, hafter, hfollows, hfinds, hlinked, htimely, hended⟩
  · exact .inr hfails

section End

/-- At the end only hidden commits are left. -/
theorem Ended.pending_hidden (h : Ended descent) : descent.pending ⊆ descent.hidden := by
  intro j hj
  rcases h with hnil | hpromising
  · rw [hnil] at hj
    cases hj
  · unfold isPromising at hpromising
    split at hpromising
    · have hall := List.any_eq_false.1 hpromising j hj
      simpa using hall
    · have hall := List.any_eq_false.1 (Bool.or_eq_false_iff.1 hpromising).2 j hj
      simp only [Bool.or_eq_true, not_or] at hall
      simpa using hall.1

/-- At the end what is left is earlier than all that was found. -/
theorem Timely.lt_of_ended (h : Timely descent) (hended : Ended descent) :
    ∀ i ∈ descent.found, ∀ j ∈ descent.pending,
      (history.record j).time < (history.record i).time := by
  intro i hi j hj
  rcases hended with hnil | hpromising
  · rw [hnil] at hj
    cases hj
  · unfold isPromising at hpromising
    split at hpromising
    · rename_i hfound
      rw [hfound] at hi
      cases hi
    · rename_i last others hfound
      have hlast : (history.record last).time ≤ (history.record i).time := by
        have hpairwise := h.pairwise_found
        rw [hfound] at hi hpairwise
        rcases List.mem_cons.1 hi with rfl | hi
        · exact Int.le_refl _
        · exact (List.pairwise_cons.1 hpairwise).1 i hi
      have hlatest : Latest descent.pending := by
        refine h.latest.resolve_right ?_
        rintro ⟨hnone, -⟩
        rw [hfound] at hnone
        cases hnone
      -- The first commit that is left is earlier than the last one found, and the
      -- others are not later than the first.
      have hfirst := (Bool.or_eq_false_iff.1 hpromising).1
      unfold Latest at hlatest
      generalize descent.pending = pending at hj hfirst hlatest
      cases pending with
      | nil => cases hj
      | cons first rest =>
          have hlt : (history.record first).time < (history.record last).time := by
            simpa using hfirst
          have hle : (history.record j).time ≤ (history.record first).time := by
            rcases List.mem_cons.1 hj with rfl | hj
            · exact Int.le_refl _
            · exact (List.pairwise_cons.1 hlatest).1 j hj
          omega

namespace Follows

/-- A commit that should be hidden is, or else a commit leads to it that is still
    left. -/
theorem hidden_or_left (h : Follows wanted unwanted descent) {a : history.Position}
    (hled : history.LedTo unwanted a) :
    a ∈ descent.hidden ∨ ∃ j ∈ descent.pending, history.LeadsTo j a := by
  obtain ⟨start, hstart, hpath⟩ := hled
  have hend : (a ∈ descent.hidden ∧ a ∈ descent.seen) ∨
      ∃ j ∈ descent.pending, history.LeadsTo j a := by
    refine hpath.induct (motive := fun k => (k ∈ descent.hidden ∧ k ∈ descent.seen) ∨
      ∃ j ∈ descent.pending, history.LeadsTo j a) ?_ ?_
    · exact .inl ⟨h.start_hidden hstart, h.start_seen (List.mem_append_left _ hstart)⟩
    · -- The path is gone along as long as its commits are opened.
      rintro k - hka (⟨hhidden, hseen⟩ | hleft) p hp
      · rcases h.pending_or_opened k hseen with hpending | hopened
        · exact .inr ⟨k, hpending, hka⟩
        · exact .inl ⟨h.parents_hidden k hopened hhidden hp, h.parents_seen k hopened hp⟩
      · exact .inr hleft
  exact hend.imp_left And.left

/-- At the end every commit that should be found is. -/
theorem mem_found (h : Follows wanted unwanted descent) (hfinds : Finds descent)
    (hended : Ended descent) {a : history.Position} (hwanted : history.LedTo wanted a)
    (hunwanted : ¬history.LedTo unwanted a) : a ∈ descent.found := by
  -- No commit on the way to `a` is hidden, so none of them is left.
  have hopened : ∀ k, history.LeadsTo k a → k ∈ descent.seen →
      k ∈ descent.opened ∧ k ∉ descent.hidden := by
    intro k hka hseen
    have hplain : k ∉ descent.hidden := fun hk => hunwanted ((h.ledTo_hidden k hk).trans hka)
    refine ⟨(h.pending_or_opened k hseen).resolve_left ?_, hplain⟩
    exact fun hk => hplain (hended.pending_hidden hk)
  obtain ⟨start, hstart, hpath⟩ := hwanted
  have hseen : a ∈ descent.seen := by
    refine hpath.induct (h.start_seen (List.mem_append_right _ hstart)) ?_
    intro k _ hka hk p hp
    exact h.parents_seen k (hopened k hka hk).1 hp
  obtain ⟨hopen, hplain⟩ := hopened a (.refl a) hseen
  exact (hfinds.found_or_hidden a hopen).resolve_right hplain

/-- What has been found at the end and is not hidden. Times count only if there
    is something to be hidden. -/
theorem found_iff (h : Follows wanted unwanted descent) (hfinds : Finds descent)
    (hended : Ended descent)
    (htimely : unwanted = [] ∨ history.Forward ∧ Timely descent) (a : history.Position) :
    a ∈ descent.found ∧ a ∉ descent.hidden ↔
      history.LedTo wanted a ∧ ¬history.LedTo unwanted a := by
  constructor
  · rintro ⟨hfound, hplain⟩
    have hunwanted : ¬history.LedTo unwanted a := by
      intro hled
      rcases h.hidden_or_left hled with hhidden | ⟨j, hj, hja⟩
      · exact hplain hhidden
      · -- Something leads to `a` that is left, so it would be later than itself.
        rcases htimely with hnil | ⟨hforward, htimely⟩
        · rw [hnil] at hled
          obtain ⟨start, hstart, -⟩ := hled
          cases hstart
        · have hlt := htimely.lt_of_ended hended a hfound j hj
          have hle := hja.time_le hforward
          omega
    obtain ⟨start, hstart, hpath⟩ := h.ledTo_seen a (h.opened_seen (hfinds.found_opened hfound))
    rcases List.mem_append.1 hstart with hstart | hstart
    · exact absurd ⟨start, hstart, hpath⟩ hunwanted
    · exact ⟨⟨start, hstart, hpath⟩, hunwanted⟩
  · rintro ⟨hwanted, hunwanted⟩
    exact ⟨h.mem_found hfinds hended hwanted hunwanted,
      fun hhidden => hunwanted (h.ledTo_hidden a hhidden)⟩

end Follows

end End

end Descent

end ReleaseNotes
