import Mathlib.Data.List.Nodup
import ReleaseNotes.Storage.Survey

/-!
# Commits Are Written Down in Their Order

Commits that stand behind their parents already are written down as they stand.

The order of a history is found by doing tasks: a commit that is visited has its
parents visited first and is written down behind them. In a list in which no parent
stands behind its commit (`ParentsAhead`), the parents of the commit that is visited
next have been written down before, or are none of the list at all. So visiting them
does nothing, and the commit is written down at once. By induction along the list the
commits that have been written down are always those in front of the one that is
visited next.

Each commit takes two tasks and one more for each of its parents, which is less than
the number of tasks that are done at most.

## Main definitions

* `readable`: The commits of a survey that can be read.
* `ParentsAhead`: No parent stands behind its commit.
* `links`: The number of parents of the commits of a list.

## Theorems

* `order_passed`: Visiting parents that have been written down does nothing.
* `order_visit`: A commit behind its parents is written down when it is visited.
* `order_commits`: Commits behind their parents are written down as they stand.
* `history_of_parentsAhead`: The history of such commits.
-/

namespace ReleaseNotes

namespace Storage.Survey

/-- The commits of a survey that can be read. -/
def readable (survey : Survey) : List (String × CommitContent) :=
  survey.commits.filterMap fun
    | (hash, .ok commit) => some (hash, commit)
    | (_, .error _) => none

/-- No commit of a list has a parent that stands behind it, or is its own parent. -/
def ParentsAhead : List (String × CommitContent) → Prop
  | [] => True
  | commit :: later =>
    (∀ other ∈ commit :: later, other.1 ∉ commit.2.parents) ∧ ParentsAhead later

/-- The number of parents that the commits of a list have, counted for each of them. -/
def links (commits : List (String × CommitContent)) : Nat :=
  (commits.flatMap (·.2.parents)).length

section order

variable {table : Table CommitContent} {written : Written} {tasks : List Task}

/-- A hash is not visited if it has been written down, or is not that of a commit. -/
def Passed (table : Table CommitContent) (written : Written) (hash : String) : Prop :=
  written.hashes[hash]?.isSome = true ∨ table[hash]? = none

/-- Visiting what is passed does nothing but count. -/
theorem order_passed {hashes : List String} (h : ∀ hash ∈ hashes, Passed table written hash)
    (bound : Nat) :
    order table (hashes.length + bound) (hashes.map .visit ++ tasks) written =
      order table bound tasks written := by
  induction hashes with
  | nil => rw [List.length_nil, Nat.zero_add, List.map_nil, List.nil_append]
  | cons hash hashes ih =>
      obtain ⟨hhash, hhashes⟩ := List.forall_mem_cons.1 h
      rw [List.length_cons, Nat.add_right_comm, List.map_cons, List.cons_append, order,
        ← ih hhashes]
      rcases hhash with hwritten | hother
      · obtain ⟨found, hfound⟩ := Option.isSome_iff_exists.1 hwritten
        rw [hfound]
      · rw [hother]
        cases written.hashes[hash]? <;> rfl

/-- A commit whose parents are passed is written down when it is visited. -/
theorem order_visit {hash : String} {commit : CommitContent} (hcommit : table[hash]? = some commit)
    (hnew : written.hashes[hash]? = none)
    (hparents : ∀ parent ∈ commit.parents, Passed table written parent) (bound : Nat) :
    order table (commit.parents.length + 2 + bound) (.visit hash :: tasks) written =
      order table bound tasks (written.add hash commit) := by
  have hbound : commit.parents.length + 2 + bound = commit.parents.length + (bound + 1) + 1 := by
    omega
  rw [hbound, order]
  simp only [hnew, hcommit]
  rw [order_passed hparents, order]
  simp only [hnew, hcommit]

/-- Commits written down one after the other. -/
theorem commits_foldl_add (commits : List (String × CommitContent)) (written : Written) :
    (commits.foldl (fun written commit => written.add commit.1 commit.2) written).commits =
      commits.reverse ++ written.commits := by
  induction commits generalizing written with
  | nil => rfl
  | cons commit commits ih =>
      rw [List.foldl_cons, ih, List.reverse_cons, List.append_assoc]
      rfl

/-- Commits behind their parents are written down as they stand. -/
theorem order_commits {later : List (String × CommitContent)}
    (htable : ∀ commit ∈ later, table[commit.1]? = some commit.2)
    (hcover : ∀ hash, table[hash]?.isSome = true →
      written.hashes[hash]?.isSome = true ∨ hash ∈ later.map (·.1))
    (hnew : ∀ commit ∈ later, written.hashes[commit.1]? = none)
    (honce : (later.map (·.1)).Nodup) (hahead : ParentsAhead later) (bound : Nat) :
    order table (2 * later.length + links later + bound) (later.map (.visit ·.1)) written =
      later.foldl (fun written commit => written.add commit.1 commit.2) written := by
  induction later generalizing written with
  | nil => cases bound <;> rfl
  | cons commit later ih =>
      obtain ⟨hcommit, htable⟩ := List.forall_mem_cons.1 htable
      obtain ⟨hfirst, hlater⟩ := List.forall_mem_cons.1 hnew
      rw [List.map_cons, List.nodup_cons] at honce
      -- A parent that is there to be written down has been, since it is not behind.
      have hparents : ∀ parent ∈ commit.2.parents, Passed table written parent := by
        intro parent hparent
        cases hknown : table[parent]? with
        | none => exact .inr hknown
        | some found =>
            refine .inl ((hcover parent (by rw [hknown]; rfl)).resolve_right fun hmem => ?_)
            obtain ⟨other, hother, rfl⟩ := List.mem_map.1 hmem
            exact hahead.1 other hother hparent
      have hadded (hash : String) : (written.add commit.1 commit.2).hashes[hash]? =
          if commit.1 == hash then some () else written.hashes[hash]? :=
        Std.HashMap.getElem?_insert
      have hbound : 2 * (commit :: later).length + links (commit :: later) + bound =
          commit.2.parents.length + 2 + (2 * later.length + links later + bound) := by
        rw [links, links, List.flatMap_cons, List.length_append, List.length_cons]
        omega
      rw [hbound, List.map_cons, order_visit hcommit hfirst hparents, List.foldl_cons]
      refine ih htable (fun hash hsome => ?_) (fun other hother => ?_) honce.2 hahead.2
      · rw [hadded]
        by_cases heq : commit.1 = hash
        · exact .inl (by rw [if_pos (beq_iff_eq.2 heq)]; rfl)
        · rw [if_neg (mt beq_iff_eq.1 heq)]
          exact (hcover hash hsome).imp_right fun hmem =>
            (List.mem_cons.1 hmem).resolve_left (Ne.symm heq)
      · rw [hadded, if_neg fun heq => honce.1 ?_]
        · exact hlater other hother
        · rw [eq_of_beq heq]
          exact List.mem_map_of_mem hother

end order

/-- The history of commits that stand behind their parents has them as they stand. -/
theorem history_of_parentsAhead {survey : Survey} (honce : (survey.readable.map (·.1)).Nodup)
    (hahead : ParentsAhead survey.readable) (index : Index) :
    survey.history index = History.ofList index.reason survey.readable := by
  have htable : ∀ commit ∈ survey.readable,
      (Std.HashMap.ofList survey.readable)[commit.1]? = some commit.2 := by
    intro commit hcommit
    refine Std.HashMap.getElem?_ofList_of_mem (beq_self_eq_true _) ?_ hcommit
    exact (List.pairwise_map.1 honce).imp fun hne => beq_eq_false_iff_ne.2 hne
  have hcover (hash : String) (hsome : (Std.HashMap.ofList survey.readable)[hash]?.isSome = true) :
      hash ∈ survey.readable.map (·.1) := by
    by_contra hnot
    have hnone : (Std.HashMap.ofList survey.readable)[hash]? = none :=
      Std.HashMap.getElem?_ofList_of_contains_eq_false
        (Bool.eq_false_iff.2 (mt List.contains_iff_mem.1 hnot))
    rw [hnone] at hsome
    cases hsome
  have hbound : 2 * (links survey.readable + survey.readable.length) + links survey.readable + 1 =
      2 * survey.readable.length + links survey.readable + (2 * links survey.readable + 1) := by
    omega
  have hnew : ∀ commit ∈ survey.readable, ({} : Written).hashes[commit.1]? = none :=
    fun _ _ => Std.HashMap.getElem?_empty
  have horder := order_commits htable (fun hash hsome => .inr (hcover hash hsome)) hnew honce
    hahead (2 * links survey.readable + 1)
  show History.ofList index.reason (order (.ofList survey.readable)
    (2 * (links survey.readable + survey.readable.length) + links survey.readable + 1)
    (survey.readable.map (.visit ·.1)) {}).commits.reverse = _
  rw [hbound, horder, commits_foldl_add, List.append_nil, List.reverse_reverse]

end Storage.Survey

end ReleaseNotes
