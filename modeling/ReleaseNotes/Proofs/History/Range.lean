import ReleaseNotes.History.Release
import ReleaseNotes.Proofs.History.Course

/-!
# The Commits of a Range

A range holds the commits that its start leads to and its boundary does not,
each of them once.

What there is in a range and whether there is one are two questions. A descent
that comes to a gap gives no range at all, so for a range to be there, what the
start and the boundary lead to has to be readable. For what is in it nothing of
the kind is needed, but no commit may be earlier than a parent of it, since a
descent may be given up while hidden commits are left. Where there is no boundary
nothing is hidden, and times do not matter. Nothing is asked of the boundary: it
may lie behind the start, beside it or in front of it.

## Main definitions

* `History.Spans`: Some commits of the notes are those between a start and a
  boundary.
* `Repository.rangeOf`: The range of some commits.

## Theorems

* `History.between_eq_ok`: How something is shown between a start and a boundary.
* `History.shown_between`: What is shown between a start and a boundary.
* `History.between_isOk`: When something is shown.
* `Repository.latestTag_isOk`: When a release can be looked for.
* `Repository.range_eq_ok_iff`: How a range is read.
* `Repository.range_spans`: The commits of a range.
-/

namespace ReleaseNotes

namespace CommitRecord

theorem hash_toCommit (record : CommitRecord) : record.toCommit.hash = record.hash := by
  unfold toCommit
  split <;> rfl

end CommitRecord

namespace History

variable {history : History}

theorem ledTo_toList {boundary : Option history.Position} {i : history.Position} :
    history.LedTo boundary.toList i ↔ ∃ b ∈ boundary, history.LeadsTo b i := by
  simp [LedTo]

/-- No two commits have the same hash. -/
theorem eq_of_hash_eq {i j : history.Position}
    (h : (history.record i).hash = (history.record j).hash) : i = j := by
  have hmap : ∀ k : history.Position,
      (history.records.toList.map (·.hash))[k.val]? = some (history.record k).hash := by
    intro k
    simp [record]
  have hi : i.val < (history.records.toList.map (·.hash)).length := by simp
  have hget := (hmap i).trans ((congrArg some h).trans (hmap j).symm)
  exact Fin.ext ((List.getElem?_inj hi history.distinct).1 hget)

/-- What is shown between a start and a boundary has been found by a descent that
    came to its end, and is not hidden. Each commit is shown once and before its
    parents. -/
theorem between_eq_ok {start : history.Position} {boundary : Option history.Position}
    {shown : List history.Position} (h : history.between start boundary = .ok shown) :
    (∃ after, Descent.Follows [start] boundary.toList after ∧ Descent.Finds after ∧
      Descent.Linked [start] after ∧ (history.Forward → Descent.Timely after) ∧
      Descent.Ended after ∧ ∀ i, i ∈ shown ↔ i ∈ after.found ∧ i ∉ after.hidden) ∧
    shown.Nodup ∧ shown.Pairwise fun i j => i ∉ history.parents j := by
  rcases Descent.run_spec [start] boundary.toList with
    ⟨after, hrun, hfollows, hfinds, hlinked, htimely, hended⟩ | ⟨fault, hrun, -⟩
  · rw [between, hrun] at h
    obtain rfl := Except.ok.inj h
    have hnodup : after.found.reverse.Nodup := List.nodup_reverse.2 hfinds.nodup_found
    have hwalk := walk_perm hnodup
    refine ⟨⟨after, hfollows, hfinds, hlinked, ?_, hended, fun i => ?_⟩,
      (hwalk.nodup_iff.2 hnodup).filter _, (pairwise_walk hnodup).filter _⟩
    · exact fun hforward => htimely hforward (.start start boundary)
    · rw [List.mem_filter, hwalk.mem_iff, List.mem_reverse]
      simp
  · rw [between, hrun] at h
    cases h

/-- What is shown between a start and a boundary, if anything is: what the start
    leads to and the boundary does not, each commit once and before its
    parents. -/
theorem shown_between {start : history.Position} {boundary : Option history.Position}
    {shown : List history.Position} (h : history.between start boundary = .ok shown)
    (htime : boundary = none ∨ history.Forward) :
    shown.Nodup ∧ (shown.Pairwise fun i j => i ∉ history.parents j) ∧
      ∀ i, i ∈ shown ↔ history.LeadsTo start i ∧ ∀ b ∈ boundary, ¬history.LeadsTo b i := by
  obtain ⟨⟨after, hfollows, hfinds, -, htimely, hended, hmem⟩, hnodup, hparents⟩ :=
    between_eq_ok h
  -- A descent with nothing to hide is right in any history.
  have hwhen : boundary.toList = [] ∨ history.Forward ∧ Descent.Timely after := by
    rcases htime with hnone | hforward
    · exact .inl (by rw [hnone]; rfl)
    · exact .inr ⟨hforward, htimely hforward⟩
  refine ⟨hnodup, hparents, fun i => ?_⟩
  have hfound := hfollows.found_iff hfinds hended hwhen i
  rw [ledTo_singleton, ledTo_toList] at hfound
  rw [hmem]
  simpa using hfound

/-- Something is shown if what the start and the boundary lead to can be read. -/
theorem between_isOk {start : history.Position} {boundary : Option history.Position}
    (hwhole : history.WholeFrom (boundary.toList ++ [start])) :
    ∃ shown, history.between start boundary = .ok shown := by
  rcases Descent.run_spec [start] boundary.toList with
    ⟨after, hrun, -⟩ | ⟨fault, -, i, hled, hgap⟩
  · rw [between, hrun]
    exact ⟨_, rfl⟩
  · rw [hwhole i hled] at hgap
    cases hgap

/-- What a start leads to and a boundary does not is shown, each commit once and
    before its parents. -/
theorem between_spec (hwhole : history.Whole) (start : history.Position)
    (boundary : Option history.Position) (htime : boundary = none ∨ history.Forward) :
    ∃ shown, history.between start boundary = .ok shown ∧ shown.Nodup ∧
      (shown.Pairwise fun i j => i ∉ history.parents j) ∧
      ∀ i, i ∈ shown ↔ history.LeadsTo start i ∧ ∀ b ∈ boundary, ¬history.LeadsTo b i := by
  obtain ⟨shown, hshown⟩ := between_isOk (hwhole.wholeFrom (boundary.toList ++ [start]))
  exact ⟨shown, hshown, shown_between hshown htime⟩

/-- Some commits of the notes are those that a start leads to and a boundary does
    not, each of them once. -/
def Spans (history : History) (start : history.Position) (boundary : Option history.Position)
    (commits : List Commit) : Prop :=
  ∃ positions : List history.Position, positions.Nodup ∧ (commits.map (·.hash)).Nodup ∧
    commits = positions.map (fun i => (history.record i).toCommit) ∧
    ∀ i, i ∈ positions ↔ history.LeadsTo start i ∧ ∀ b ∈ boundary, ¬history.LeadsTo b i

/-- Different commits of a history are different commits of the notes. -/
theorem nodup_hashes {positions : List history.Position} (h : positions.Nodup) :
    ((positions.map fun i => (history.record i).toCommit).map (·.hash)).Nodup := by
  rw [List.map_map]
  refine h.map_on ?_
  intro i _ j _ hij
  simp only [Function.comp_apply, CommitRecord.hash_toCommit] at hij
  exact eq_of_hash_eq hij

end History

namespace Repository

variable {repository : Repository}

/-- A release can be looked for if what the start leads to can be read. -/
theorem latestTag_isOk {start : repository.history.Position}
    (hwhole : repository.history.WholeFrom [start]) :
    ∃ release, repository.latestTag start = .ok release := by
  obtain ⟨shown, hshown⟩ : ∃ shown, repository.history.between start none = .ok shown :=
    History.between_isOk hwhole
  simp only [latestTag]
  split
  · exact ⟨none, rfl⟩
  · rw [hshown]
    exact ⟨_, rfl⟩

/-- A release that is given is the one of its tag, and one that is looked for is
    there or is not. -/
theorem release_spec (hwhole : repository.history.Whole) (start : repository.history.Position)
    {since : Option String}
    (hsince : ∀ name ∈ since, ∃ boundary, repository.tagCommit name = .ok boundary) :
    ∃ release, repository.release start since = .ok release ∧
      ∀ name ∈ since, ∃ boundary, repository.tagCommit name = .ok boundary ∧
        release = some (name, boundary) := by
  cases since with
  | none =>
      obtain ⟨release, hrelease⟩ := latestTag_isOk (hwhole.wholeFrom [start])
      refine ⟨release, ?_, by simp⟩
      rw [Repository.release, hrelease]
      rfl
  | some name =>
      obtain ⟨boundary, hboundary⟩ := hsince name rfl
      refine ⟨some (name, boundary), ?_, ?_⟩
      · rw [Repository.release, hboundary]
        rfl
      · rintro other ⟨⟩
        exact ⟨boundary, hboundary, rfl⟩

theorem release_some_eq_ok {start boundary : repository.history.Position} {name : String}
    (htag : repository.tagCommit name = .ok boundary) :
    repository.release start (some name) = .ok (some (name, boundary)) := by
  rw [Repository.release, htag]
  rfl

/-- The range of some commits of the history, read from a start behind a
    release. -/
def rangeOf (repository : Repository) (start : repository.history.Position)
    (release : Option (String × repository.history.Position))
    (shown : List repository.history.Position) : CommitRange where
  sinceTag := release.map (·.1)
  head := (repository.history.record start).hash
  commits := shown.map fun i => (repository.history.record i).toCommit

/-- A range is read from a start. -/
theorem exists_start_of_range {revision : String} {since : Option String} {range : CommitRange}
    (hrange : repository.range revision since = .ok range) :
    ∃ start, repository.start revision = .ok start := by
  cases hstart : repository.start revision with
  | ok start => exact ⟨start, rfl⟩
  | error fault =>
      rw [Repository.range, hstart] at hrange
      cases hrange

/-- A range is read when there is a release, or known to be none, and what lies
    between the start and its boundary can be shown. -/
theorem range_eq_ok_iff {revision : String} {since : Option String}
    {start : repository.history.Position} {range : CommitRange}
    (hstart : repository.start revision = .ok start) :
    repository.range revision since = .ok range ↔
      ∃ release shown, repository.release start since = .ok release ∧
        repository.history.between start (release.map (·.2)) = .ok shown ∧
        range = repository.rangeOf start release shown := by
  simp only [Repository.range, hstart, bind, Except.bind, pure, Except.pure]
  cases hrelease : repository.release start since with
  | error fault => simp
  | ok release =>
      cases hshown : repository.history.between start (release.map (·.2)) with
      | error fault => simp [Except.mapError, hshown]
      | ok shown => simp [Except.mapError, hshown, rangeOf, eq_comm]

/-- In a whole history in which no commit is earlier than a parent of it, the
    range read from a commit holds what this commit leads to and the boundary
    does not, each commit once. The boundary is that of the tag that is given, or
    that of the latest release, and there need not be one. -/
theorem range_spans (repository : Repository) (hwhole : repository.history.Whole)
    (hforward : repository.history.Forward) (revision : String) (since : Option String)
    {start : repository.history.Position} (hstart : repository.start revision = .ok start)
    (hsince : ∀ name ∈ since, ∃ boundary, repository.tagCommit name = .ok boundary) :
    ∃ release range,
      repository.release start since = .ok release ∧
      (∀ name ∈ since, ∃ boundary, repository.tagCommit name = .ok boundary ∧
        release = some (name, boundary)) ∧
      repository.range revision since = .ok range ∧
      range.sinceTag = release.map (·.1) ∧
      range.head = (repository.history.record start).hash ∧
      repository.history.Spans start (release.map (·.2)) range.commits := by
  obtain ⟨release, hrelease, hgiven⟩ := release_spec hwhole start hsince
  obtain ⟨shown, hshown, hnodup, -, hmem⟩ :=
    History.between_spec hwhole start (release.map (·.2)) (.inr hforward)
  refine ⟨release,
    { sinceTag := release.map (·.1)
      head := (repository.history.record start).hash
      commits := shown.map fun i => (repository.history.record i).toCommit },
    hrelease, hgiven, ?_, rfl, rfl, ?_⟩
  · simp only [range, hstart, hrelease, hshown, bind, Except.bind, pure, Except.pure,
      Except.mapError]
  · exact ⟨shown, hnodup, History.nodup_hashes hnodup, rfl, hmem⟩

/-- A history of five commits. It parts and comes together again in the fourth
    one. The last one is beside that, later than it, and the boundary. -/
def forked : Repository where
  history :=
    let commit (parents : List String) (time : Int) : CommitContent :=
      { tree := "", parents, time, author := .empty, message := .empty }
    .ofList .missing
      [("a", commit [] 1), ("b", commit ["a"] 2), ("c", commit ["a"] 2),
        ("d", commit ["b", "c"] 3), ("e", commit ["c"] 4)]
  objects := []
  entries := fun _ => []
  refs := [("HEAD", .hash "d" none), ("refs/tags/v1", .hash "e" none)]
  table := some []
  logs := []
  settings := []

theorem forked_range_spans :
    forked.history.Whole ∧ forked.history.Forward ∧
      ∃ start range, forked.start "HEAD" = .ok start ∧
        forked.range "HEAD" (some "v1") = .ok range ∧ range.sinceTag = some "v1" ∧
        ∃ boundary, forked.tagCommit "v1" = .ok boundary ∧
          forked.history.Spans start (some boundary) range.commits := by
  have hwhole : forked.history.Whole := by decide
  have hforward : forked.history.Forward := by decide
  have hstart : forked.start "HEAD" = .ok ⟨3, by decide⟩ := rfl
  have htag : forked.tagCommit "v1" = .ok ⟨4, by decide⟩ := rfl
  obtain ⟨release, range, -, hgiven, hrange, htagged, -, hspans⟩ :=
    range_spans forked hwhole hforward "HEAD" (some "v1") hstart
      (by rintro name ⟨⟩; exact ⟨_, htag⟩)
  obtain ⟨boundary, hboundary, rfl⟩ := hgiven "v1" rfl
  exact ⟨hwhole, hforward, _, range, hstart, hrange, htagged, boundary, hboundary, hspans⟩

end Repository

end ReleaseNotes
