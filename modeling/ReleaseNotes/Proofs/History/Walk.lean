import Mathlib.Data.List.Nodup
import ReleaseNotes.Proofs.History.Ancestry
import ReleaseNotes.Proofs.History.Heap

/-!
# Walks

A walk shows every commit of its set once, and none before a commit that has it
as a parent.

At each step of a walk the ready commits are in a heap, and the next one comes out
of it. `Waits` says that they are the right ones: they are those that are waiting
and that no waiting commit has as a parent. Taking out a ready commit keeps this,
since it can only make parents of its own ready. As long as a commit is waiting
one is ready, for the last waiting one in the list of commits has no child
behind it. So a walk never comes to an end too early.

The heap decides which of the ready commits comes next. It is one of the latest, so
a commit is shown before a later one only if something is still to come that has the
later one as a parent.

## Main definitions

* `History.Waits`: The ready ones of the waiting commits are in a heap.

## Theorems

* `History.Waits.next`: Taking out a ready commit keeps the ready ones in the heap.
* `History.walk_perm`: A walk shows every commit of its set once.
* `History.pairwise_walk`: A walk shows no commit before a child of it.
* `History.time_le_of_walk`: Of the commits that can come next it shows a latest one.
* `History.pairwise_not_leadsWithin`: Nor before a commit that leads to it by way of
  what is shown.
* `History.pairwise_not_leadsTo`: Nor before any commit that leads to it, as long
  as no commit between two of them is left out.
-/

namespace ReleaseNotes

/-- What is left when repetitions are taken out has none. -/
theorem nodup_eraseDups {α : Type} [BEq α] [LawfulBEq α] :
    ∀ list : List α, list.eraseDups.Nodup
  | [] => by simp
  | a :: rest => by
      have hshort : (rest.filter fun b => !b == a).length ≤ rest.length :=
        List.length_filter_le _ _
      rw [List.eraseDups_cons, List.nodup_cons]
      refine ⟨?_, nodup_eraseDups _⟩
      intro h
      have hmem := List.mem_eraseDups.1 h
      simp at hmem
  termination_by list => list.length

namespace History

variable {history : History}

theorem isReady_iff {waiting : List history.Position} {i : history.Position} :
    history.isReady waiting i = true ↔ ∀ j ∈ waiting, i ∉ history.parents j := by
  simp [isReady]

theorem mem_freed {waiting : List history.Position} {i p : history.Position} :
    p ∈ history.freed waiting i ↔
      p ∈ history.parents i ∧ p ∈ waiting ∧ history.isReady waiting p = true := by
  simp [freed, List.mem_eraseDups]

theorem nodup_freed {waiting : List history.Position} {i : history.Position} :
    (history.freed waiting i).Nodup :=
  List.nodup_reverse.2 (nodup_eraseDups _)

/-- Of the commits that are waiting the ready ones are in a heap, each once. -/
structure Waits (history : History) (waiting : List history.Position)
    (ready : Array history.Position) : Prop where
  distinct : waiting.Nodup
  distinct_ready : ready.toList.Nodup
  mem_ready : ∀ i, i ∈ ready.toList ↔ i ∈ waiting ∧ history.isReady waiting i = true
  ordered : Heap.Ordered history.time ready

namespace Waits

variable {waiting : List history.Position} {ready others : Array history.Position}
variable {i : history.Position}

/-- At the start of a walk the ready commits are sought out. -/
theorem start (h : waiting.Nodup) :
    history.Waits waiting
      (Heap.pushAll history.time #[] (waiting.filter (history.isReady waiting))) := by
  have hperm :
      (Heap.pushAll history.time #[] (waiting.filter (history.isReady waiting))).toList.Perm
        (waiting.filter (history.isReady waiting)) := Heap.pushAll_perm _ _ _
  exact {
    distinct := h
    distinct_ready := hperm.nodup_iff.2 (h.filter _)
    mem_ready := fun _ => hperm.mem_iff.trans List.mem_filter
    ordered := Heap.ordered_empty.pushAll _ }

/-- Of waiting commits the last one in the list of commits is ready. -/
theorem ready_ne_empty (h : history.Waits waiting ready) (hwaiting : waiting ≠ []) :
    ready ≠ #[] := by
  have hmem : waiting.maxOn Fin.val hwaiting ∈ waiting := List.maxOn_mem
  have hready : history.isReady waiting (waiting.maxOn Fin.val hwaiting) = true := by
    rw [isReady_iff]
    intro j hj hparent
    have hlt := Fin.lt_def.1 (lt_of_mem_parents hparent)
    have hle : j.val ≤ (waiting.maxOn Fin.val hwaiting).val :=
      List.le_apply_maxOn_of_mem hj
    omega
  have hfound := (h.mem_ready _).2 ⟨hmem, hready⟩
  rintro rfl
  cases hfound

/-- What comes out of the heap was ready. -/
theorem taken (h : history.Waits waiting ready)
    (hpop : Heap.pop? history.time ready = some (i, others)) :
    i ∈ waiting ∧ ∀ j ∈ waiting, i ∉ history.parents j := by
  obtain ⟨-, hperm⟩ := Heap.pop?_eq_some hpop
  obtain ⟨hwait, hready⟩ := (h.mem_ready i).1 (hperm.mem_iff.2 List.mem_cons_self)
  exact ⟨hwait, isReady_iff.1 hready⟩

/-- Taking out a ready commit makes at most some of its parents ready. -/
theorem next (h : history.Waits waiting ready)
    (hpop : Heap.pop? history.time ready = some (i, others)) :
    history.Waits (waiting.erase i)
      (Heap.pushAll history.time others (history.freed (waiting.erase i) i)) := by
  obtain ⟨hwait, hfree⟩ := h.taken hpop
  have hperm := (Heap.pop?_eq_some hpop).2
  have hpushed := Heap.pushAll_perm history.time others (history.freed (waiting.erase i) i)
  obtain ⟨hi, hothers⟩ := List.nodup_cons.1 (hperm.nodup_iff.1 h.distinct_ready)
  -- What stays in the heap was ready before, and is not the one that was taken out.
  have hmem : ∀ j, j ∈ others.toList ↔ j ≠ i ∧ j ∈ waiting ∧ history.isReady waiting j = true := by
    intro j
    rw [← h.mem_ready, hperm.mem_iff, List.mem_cons]
    constructor
    · exact fun hj => ⟨fun heq => hi (heq ▸ hj), .inr hj⟩
    · exact fun ⟨hne, hj⟩ => hj.resolve_left hne
  constructor
  · exact h.distinct.erase i
  · refine hpushed.nodup_iff.2 (List.nodup_append.2 ⟨hothers, nodup_freed, ?_⟩)
    rintro j hj k hk rfl
    exact isReady_iff.1 ((hmem j).1 hj).2.2 i hwait (mem_freed.1 hk).1
  · intro j
    rw [hpushed.mem_iff, List.mem_append, mem_freed, hmem, h.distinct.mem_erase_iff, isReady_iff,
      isReady_iff]
    constructor
    · rintro (⟨hne, hj, hnone⟩ | ⟨-, hj, hnone⟩)
      · exact ⟨⟨hne, hj⟩, fun k hk => hnone k (List.mem_of_mem_erase hk)⟩
      · exact ⟨hj, hnone⟩
    · rintro ⟨⟨hne, hj⟩, hnone⟩
      -- Only a parent of `i` can have waited for `i` and nothing else.
      by_cases hparent : j ∈ history.parents i
      · exact .inr ⟨hparent, ⟨hne, hj⟩, hnone⟩
      · refine .inl ⟨hne, hj, fun k hk => ?_⟩
        by_cases hki : k = i
        · exact hki ▸ hparent
        · exact hnone k ((h.distinct.mem_erase_iff).2 ⟨hki, hk⟩)
  · exact (h.ordered.pop? hpop).pushAll _

/-- Steps go on until no commit is waiting. -/
theorem walkFrom_perm (h : history.Waits waiting ready) (count : Nat)
    (hcount : waiting.length ≤ count) :
    (history.walkFrom count waiting ready).Perm waiting := by
  induction count generalizing waiting ready with
  | zero =>
      have hnil : waiting = [] := List.eq_nil_of_length_eq_zero (by omega)
      rw [hnil]
      exact .nil
  | succ count ih =>
      rw [walkFrom]
      split
      · rename_i hnone
        -- Without a ready commit there is no waiting one either.
        by_cases hwaiting : waiting = []
        · rw [hwaiting]
        · exact absurd (Heap.pop?_eq_none_iff.1 hnone) (h.ready_ne_empty hwaiting)
      · rename_i i others hpop
        have hwait := (h.taken hpop).1
        have hlength := List.length_erase_of_mem hwait
        have hpos := List.length_pos_of_mem hwait
        have hrest := ih (h.next hpop) (by omega)
        exact (hrest.cons i).trans (List.perm_cons_erase hwait).symm

/-- What comes next has no child among what comes later. -/
theorem pairwise_walkFrom (h : history.Waits waiting ready) (count : Nat)
    (hcount : waiting.length ≤ count) :
    (history.walkFrom count waiting ready).Pairwise fun i j => i ∉ history.parents j := by
  induction count generalizing waiting ready with
  | zero => exact .nil
  | succ count ih =>
      rw [walkFrom]
      split
      · exact .nil
      · rename_i i others hpop
        obtain ⟨hwait, hready⟩ := h.taken hpop
        have hlength := List.length_erase_of_mem hwait
        have hpos := List.length_pos_of_mem hwait
        have hnext := h.next hpop
        refine .cons ?_ (ih hnext (by omega))
        intro j hj
        have hrest := ((hnext.walkFrom_perm count (by omega)).mem_iff).1 hj
        exact hready j (List.mem_of_mem_erase hrest)

/-- What comes next is not earlier than what could come next besides. -/
theorem time_le_of_walkFrom (h : history.Waits waiting ready) (count : Nat)
    (hcount : waiting.length ≤ count) {before after : List history.Position}
    (hwalk : history.walkFrom count waiting ready = before ++ i :: after) :
    ∀ j ∈ after, (∀ k ∈ i :: after, j ∉ history.parents k) → history.time j ≤ history.time i := by
  induction count generalizing waiting ready before with
  | zero => simp [walkFrom] at hwalk
  | succ count ih =>
      rw [walkFrom] at hwalk
      split at hwalk
      · simp at hwalk
      · rename_i first others hpop
        have hwait := (h.taken hpop).1
        have hlength := List.length_erase_of_mem hwait
        have hpos := List.length_pos_of_mem hwait
        cases before with
        | nil =>
            obtain ⟨rfl, hafter⟩ := List.cons.inj hwalk
            intro j hj hnone
            -- What comes later is what is waiting, so `j` is ready already.
            have hperm := (h.walkFrom_perm (count + 1) hcount)
            rw [walkFrom, hpop] at hperm
            simp only [hafter] at hperm
            have hready : j ∈ ready.toList := (h.mem_ready j).2
              ⟨hperm.mem_iff.1 (.tail _ hj), isReady_iff.2 fun k hk =>
                hnone k (hperm.mem_iff.2 hk)⟩
            exact h.ordered.rank_le (Heap.pop?_eq_some hpop).1 j hready
        | cons other before =>
            obtain ⟨rfl, hafter⟩ := List.cons.inj hwalk
            exact ih (h.next hpop) (by omega) hafter

end Waits

/-- A walk shows every commit of its set once. -/
theorem walk_perm {commits : List history.Position} (h : commits.Nodup) :
    (history.walk commits).Perm commits :=
  (Waits.start h).walkFrom_perm _ (Nat.le_refl _)

/-- A walk shows no commit before a child of it. -/
theorem pairwise_walk {commits : List history.Position} (h : commits.Nodup) :
    (history.walk commits).Pairwise fun i j => i ∉ history.parents j :=
  (Waits.start h).pairwise_walkFrom _ (Nat.le_refl _)

/-- Of the commits that can come next a walk shows a latest one. -/
theorem time_le_of_walk {commits before after : List history.Position} {i : history.Position}
    (h : commits.Nodup) (hwalk : history.walk commits = before ++ i :: after) :
    ∀ j ∈ after, (∀ k ∈ i :: after, j ∉ history.parents k) → history.time j ≤ history.time i :=
  (Waits.start h).time_le_of_walkFrom _ (Nat.le_refl _) hwalk

section Order

variable {shown : List history.Position}

/-- A parent stands behind its child. -/
theorem idxOf_lt_of_mem_parents (hparents : shown.Pairwise fun i j => i ∉ history.parents j)
    {i p : history.Position} (hi : i ∈ shown) (hmem : p ∈ shown) (hp : p ∈ history.parents i) :
    shown.idxOf i < shown.idxOf p := by
  have hplace := List.idxOf_lt_length_iff.2 hi
  have hplace' := List.idxOf_lt_length_iff.2 hmem
  have hne : shown.idxOf p ≠ shown.idxOf i := by
    intro heq
    have hlt := lt_of_mem_parents hp
    rw [(List.idxOf_inj hmem).1 heq] at hlt
    exact Fin.lt_irrefl i hlt
  rcases Nat.lt_or_ge (shown.idxOf i) (shown.idxOf p) with hlt | hge
  · exact hlt
  · have hbefore := List.pairwise_iff_getElem.1 hparents _ _ hplace' hplace (by omega)
    rw [List.getElem_idxOf, List.getElem_idxOf] at hbefore
    exact absurd hp hbefore

/-- Along a path that stays among the commits that are shown, the places grow. -/
theorem idxOf_le_of_leadsWithin (hparents : shown.Pairwise fun i j => i ∉ history.parents j)
    {i j : history.Position} (h : history.LeadsWithin shown i j) :
    shown.idxOf i ≤ shown.idxOf j := by
  induction h with
  | refl _ => exact Nat.le_refl _
  | @step i p j hi hp hpj ih =>
      have hmem : p ∈ shown := by cases hpj <;> assumption
      have hlt := idxOf_lt_of_mem_parents hparents hi hmem hp
      omega

/-- If no commit is shown before a child of it, none is shown before a commit that
    leads to it by way of what is shown. -/
theorem pairwise_not_leadsWithin (hnodup : shown.Nodup)
    (hparents : shown.Pairwise fun i j => i ∉ history.parents j) :
    shown.Pairwise fun i j => ¬history.LeadsWithin shown j i := by
  rw [List.pairwise_iff_getElem]
  intro a b ha hb hab hlead
  have hplaces := idxOf_le_of_leadsWithin hparents hlead
  rw [hnodup.idxOf_getElem, hnodup.idxOf_getElem] at hplaces
  omega

/-- If with any two commits those on the paths between them are shown, and none
    before a child of it, then none is shown before a commit that leads to it. -/
theorem pairwise_not_leadsTo (hnodup : shown.Nodup)
    (hparents : shown.Pairwise fun i j => i ∉ history.parents j)
    (hbetween : ∀ i ∈ shown, ∀ j ∈ shown, ∀ k, history.LeadsTo i k → history.LeadsTo k j →
      k ∈ shown) :
    shown.Pairwise fun i j => ¬history.LeadsTo j i := by
  have hwithin : ∀ i j, history.LeadsTo i j → i ∈ shown → j ∈ shown →
      history.LeadsWithin shown i j := by
    intro i j h
    induction h with
    | refl i => exact fun hi _ => .refl hi
    | @step i p j hp hpj ih =>
        intro hi hj
        exact .step hi hp (ih (hbetween i hi j hj p (.single hp) hpj) hj)
  refine (pairwise_not_leadsWithin hnodup hparents).imp_of_mem ?_
  intro i j hi hj hnot hlead
  exact hnot (hwithin j i hlead hj hi)

end Order

end History

end ReleaseNotes
