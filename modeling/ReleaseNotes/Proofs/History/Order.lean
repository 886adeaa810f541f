import ReleaseNotes.Proofs.History.Range

/-!
# The Order of a Range

Which commits of a range come before which, and which one comes first.

A walk shows no commit before a child of it, but it looks at the commits of the
range only. A path from one of them to another one can leave the range in
between. If it does, it has come to something that the boundary leads to, and so
the boundary leads to the end of the path as well. In a history in which no
commit is earlier than a parent of it there is no such end in the range, and the
order is that of all paths. Otherwise a descent can be given up before the
boundary's side of the history has been gone along, and then there can be one:
`skewed` is a history in which a commit is shown before another one that leads
to it.

What is shown is closed towards the start. A commit is found as a parent of one
that was found before, unless it is the start itself, and if that one is hidden in
the end, so are its parents. Hence the start is the only commit that is shown
without a child, and the first one cannot have a child. This does not depend on
times.

## Main definitions

* `History.NewestFirst`: Commits are shown as those of a range are.
* `Repository.skewed`: A history with a commit that is earlier than its parent.

## Theorems

* `History.eq_start_or_child`: What is shown is closed towards the start.
* `History.parent_shown_or_hidden`: A path leaves what is shown for what the
  boundary leads to.
* `History.newestFirst_between`: The order of what is shown.
* `Repository.range_newestFirst`: The order of a range.
-/

namespace ReleaseNotes

namespace History

variable {history : History}

/-- Commits behind a start are shown the newest first: each once, none before one
    that leads to it by way of commits that are shown, and the start before all
    others. One that leads to it by any other way can only come behind it if the
    boundary leads to it, too. -/
structure NewestFirst (history : History) (start : history.Position)
    (boundary : Option history.Position) (shown : List history.Position) : Prop where
  distinct : shown.Nodup
  behindWithin : shown.Pairwise fun i j => ¬history.LeadsWithin shown j i
  behindAll : shown.Pairwise fun i j => history.LeadsTo j i →
    ∃ b ∈ boundary, history.LeadsTo b i
  startFirst : shown = [] ∨ ∃ rest, shown = start :: rest

section Between

variable {start : history.Position} {boundary : Option history.Position}
variable {shown : List history.Position}

/-- What is shown besides the start has a child that is shown. -/
theorem eq_start_or_child (h : history.between start boundary = .ok shown) :
    ∀ i ∈ shown, i = start ∨ ∃ j ∈ shown, i ∈ history.parents j := by
  obtain ⟨⟨after, hfollows, hfinds, hlinked, -, -, hmem⟩, -, -⟩ := between_eq_ok h
  intro i hi
  obtain ⟨hfound, hplain⟩ := (hmem i).1 hi
  rcases hlinked.found i hfound with hstart | ⟨j, hj, hparent⟩
  · exact .inl (List.mem_singleton.1 hstart)
  · -- A hidden child would have been opened, and would have hidden `i`.
    have hchild : j ∉ after.hidden := fun hhidden =>
      hplain (hfollows.parents_hidden j (hfinds.found_opened hj) hhidden hparent)
    exact .inr ⟨j, (hmem j).2 ⟨hj, hchild⟩, hparent⟩

/-- A parent of what is shown is shown, unless the boundary leads to it. -/
theorem parent_shown_or_hidden (h : history.between start boundary = .ok shown) :
    ∀ i ∈ shown, ∀ p ∈ history.parents i, p ∈ shown ∨ ∃ b ∈ boundary, history.LeadsTo b p := by
  obtain ⟨⟨after, hfollows, hfinds, -, -, hended, hmem⟩, -, -⟩ := between_eq_ok h
  intro i hi p hp
  have hopened := hfinds.found_opened ((hmem i).1 hi).1
  by_cases hhidden : p ∈ after.hidden
  · exact .inr (ledTo_toList.1 (hfollows.ledTo_hidden p hhidden))
  · -- Nothing is left at the end that is not hidden, so the parent has been found.
    have hleft := hfollows.pending_or_opened p (hfollows.parents_seen i hopened hp)
    have hpopened := hleft.resolve_left fun hpending => hhidden (hended.pending_hidden hpending)
    have hfound := (hfinds.found_or_hidden p hpopened).resolve_right hhidden
    exact .inl ((hmem p).2 ⟨hfound, hhidden⟩)

/-- What is shown comes the newest first, whatever the times are. -/
theorem newestFirst_between (h : history.between start boundary = .ok shown) :
    history.NewestFirst start boundary shown := by
  obtain ⟨-, hnodup, hparents⟩ := between_eq_ok h
  have hwithin := pairwise_not_leadsWithin hnodup hparents
  refine ⟨hnodup, hwithin, ?_, ?_⟩
  · refine hwithin.imp_of_mem fun {i j} _ hj hnot hlead => ?_
    have haway : ∀ k, (∃ b ∈ boundary, history.LeadsTo b k) → ∀ p ∈ history.parents k,
        ∃ b ∈ boundary, history.LeadsTo b p := by
      rintro k ⟨b, hb, hk⟩ p hp
      exact ⟨b, hb, hk.tail hp⟩
    exact (hlead.within_or (parent_shown_or_hidden h) haway hj).resolve_left hnot
  · cases shown with
    | nil => exact .inl rfl
    | cons first rest =>
        rcases eq_start_or_child h first List.mem_cons_self with rfl | ⟨j, hj, hparent⟩
        · exact .inr ⟨rest, rfl⟩
        · -- A child of the first commit would have to be that commit itself.
          rcases List.mem_cons.1 hj with rfl | hj
          · exact absurd (lt_of_mem_parents hparent) (Fin.lt_irrefl _)
          · exact absurd hparent ((List.pairwise_cons.1 hparents).1 j hj)

/-- Where no commit is earlier than a parent of it, nothing is shown before a
    commit that leads to it. -/
theorem pairwise_between (hforward : history.Forward)
    (h : history.between start boundary = .ok shown) :
    shown.Pairwise fun i j => ¬history.LeadsTo j i := by
  obtain ⟨-, -, hmem⟩ := shown_between h (.inr hforward)
  refine (newestFirst_between h).behindAll.imp_of_mem fun {i j} hi _ hall hlead => ?_
  obtain ⟨b, hb, hbi⟩ := hall hlead
  exact ((hmem i).1 hi).2 b hb hbi

end Between

end History

namespace Repository

/-- The commits of a range come the newest first, behind whatever boundary they
    were read. Where no commit is earlier than a parent of it, none comes before
    any commit that leads to it. A range with commits starts with its head. -/
theorem range_newestFirst (repository : Repository) {revision : String} {since : Option String}
    {range : CommitRange} (hrange : repository.range revision since = .ok range) :
    ∃ start release shown, repository.start revision = .ok start ∧
      repository.release start since = .ok release ∧
      range.commits = shown.map (fun i => (repository.history.record i).toCommit) ∧
      repository.history.NewestFirst start (release.map (·.2)) shown ∧
      (repository.history.Forward →
        shown.Pairwise fun i j => ¬repository.history.LeadsTo j i) ∧
      (range.commits = [] ∨
        ∃ first rest, range.commits = first :: rest ∧ first.hash = range.head) := by
  obtain ⟨start, hstart⟩ := exists_start_of_range hrange
  obtain ⟨release, shown, hrelease, hshown, rfl⟩ := (range_eq_ok_iff hstart).1 hrange
  have hnewest := History.newestFirst_between hshown
  refine ⟨start, release, shown, hstart, hrelease, rfl, hnewest,
    fun hforward => History.pairwise_between hforward hshown, ?_⟩
  rcases hnewest.startFirst with rfl | ⟨rest, rfl⟩
  · exact .inl rfl
  · exact .inr ⟨_, _, rfl, CommitRecord.hash_toCommit _⟩

/-- A history in which the second commit is earlier than its parent. The boundary
    leads to that parent by way of the third commit and of the second one, and the
    head by way of the fourth one and of the second one, or at once. Five more
    commits behind the boundary are looked at before the second and third one. -/
def skewed : Repository where
  history :=
    let commit (parents : List String) (time : Int) : CommitContent :=
      { tree := "", parents, time, author := .empty, message := .empty }
    .ofList .missing
      [("late", commit [] 60), ("early", commit ["late"] 1), ("link", commit ["early"] 2),
        ("side", commit ["early"] 50), ("head", commit ["side", "late"] 100),
        ("p", commit [] 36), ("q", commit ["p"] 37), ("r", commit ["q"] 38),
        ("s", commit ["r"] 39), ("t", commit ["s"] 40), ("u", commit ["t", "link"] 90)]
  objects := []
  entries := fun _ => []
  refs := [("HEAD", .hash "head" none), ("refs/tags/v1", .hash "u" none)]
  table := some []
  logs := []
  settings := []

theorem range_skewed :
    skewed.range "HEAD" (some "v1") =
      .ok (skewed.rangeOf ⟨4, by decide⟩ (some ("v1", ⟨10, by decide⟩))
        [⟨4, by decide⟩, ⟨0, by decide⟩, ⟨3, by decide⟩]) := by
  have hstart : skewed.start "HEAD" = .ok ⟨4, by decide⟩ := rfl
  have htag : skewed.tagCommit "v1" = .ok ⟨10, by decide⟩ := rfl
  -- The descent is given up while the second and the third commit are left.
  have hshown : skewed.history.between ⟨4, by decide⟩ (some ⟨10, by decide⟩) =
      .ok [⟨4, by decide⟩, ⟨0, by decide⟩, ⟨3, by decide⟩] := by decide +kernel
  exact (range_eq_ok_iff hstart).2 ⟨_, _, release_some_eq_ok htag, hshown, rfl⟩

theorem skewed_range_newestFirst :
    ∃ range start release shown, skewed.range "HEAD" (some "v1") = .ok range ∧
      skewed.start "HEAD" = .ok start ∧ skewed.release start (some "v1") = .ok release ∧
      range.commits = shown.map (fun i => (skewed.history.record i).toCommit) ∧
      skewed.history.NewestFirst start (release.map (·.2)) shown ∧
      ∃ first rest, range.commits = first :: rest ∧ first.hash = range.head := by
  obtain ⟨start, release, shown, hstart, hrelease, hcommits, hnewest, -, hfirst⟩ :=
    range_newestFirst skewed range_skewed
  exact ⟨_, start, release, shown, range_skewed, hstart, hrelease, hcommits, hnewest,
    hfirst.resolve_left (List.cons_ne_nil _ _)⟩

/-- A path that leaves the range is not heeded: in this one the second commit comes
    before the third one, which leads to it. -/
theorem late_before_side_in_skewed_range :
    ∃ range head late side, skewed.range "HEAD" (some "v1") = .ok range ∧
      range.commits = [head, late, side].map (fun i => (skewed.history.record i).toCommit) ∧
      skewed.history.LeadsTo side late := by
  refine ⟨_, _, _, _, range_skewed, rfl, ?_⟩
  exact .step (p := ⟨1, by decide⟩) (by decide) (.single (by decide))

end Repository

end ReleaseNotes
