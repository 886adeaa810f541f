import ReleaseNotes.Proofs.History.Latest

/-!
# Tags and Ranges

What a range depends on among the tags of a repository.

The latest release is looked for among all tags, from commits to names, and a
release that is given is looked up, from a name to its commit. Both ways go through
the same tag in the end. So whoever reads a range behind the latest release, and
then gives the name of that release, reads the same range again.

Only the tags that mark a commit behind the start can matter when the latest release
is looked for, since a walk comes to no other commits. A repository without any
listed tag is not even walked through, but a walk that meets no tag comes to the
same. If the walk fails at a commit that cannot be read, so does the walk that reads
the range. A release that is given is looked up by itself, and then no other tag
plays a part at all.

There is one exception. A tag that leads through references to nothing marks no
commit, and should be passed over like a tag of a tree. It breaks the list of tags,
though, and then no release is found any more. That is the only way in which a tag
that marks nothing can be noticed, and it is noticed exactly if there is a release
to be lost.

## Main definitions

* `Repository.retagged`: The same history with other references.
* `Repository.Untagged`: No tag marks what a start leads to.
* `Repository.SameMarks`: The same tags mark what a start leads to.

## Theorems

* `Repository.tagOf_eq_some_iff`: The tag that counts for a commit.
* `Repository.mem_tagged_iff_marks`: The tags that are listed with commits.
* `Repository.latestTag_of_between`: A walk that is left out would have found nothing.
* `Repository.latestTag_isSome_iff`: When a release is found.
* `Repository.sameMarks_of_tags`: Tags that lead elsewhere may come and go.
* `Repository.range_retagged`: What a range takes from the references.
* `Repository.range_by_name`: A release that was found can be given by its name.
* `Repository.ranges_of_retagged`: Which tags can be noticed in a range.
-/

namespace ReleaseNotes

namespace Repository

variable {repository : Repository}

section Found

variable {tagged : List (repository.history.Position × String)}
variable {i : repository.history.Position}

/-- The tag that counts for a commit is the last one of those that are listed with
    it. -/
theorem tagOf_eq_some_iff {name : String} :
    tagOf repository tagged i = some name ↔
      (i, name) ∈ tagged ∧ ∀ other, (i, other) ∈ tagged → other ≤ name := by
  constructor
  · exact tagOf_eq_some
  · rintro ⟨hmem, hlast⟩
    cases htag : tagOf repository tagged i with
    | none => exact absurd hmem (tagOf_eq_none htag name)
    | some other =>
        -- Two names that are both the last one are the same.
        obtain ⟨hother, hotherLast⟩ := tagOf_eq_some htag
        rw [Std.le_antisymm (hlast other hother) (hotherLast name hmem)]

/-- A tag marks the commit that it leads to. -/
theorem marks_iff {name : String} :
    repository.Marks name i ↔ name ∈ repository.tags ∧ repository.tagCommit name = .ok i :=
  and_congr_right' tagCommit_eq_ok_iff.symm

/-- The tags that are listed with commits are those that mark them, as long as the
    list is not broken. -/
theorem mem_tagged_iff_marks {name : String} :
    (i, name) ∈ repository.tagged ↔ repository.Listable ∧ repository.Marks name i := by
  constructor
  · intro h
    exact ⟨(listable_of_mem_listedTags (mem_tagged_iff.1 h).1).1, marks_of_mem_tagged h⟩
  · rintro ⟨hlistable, hmarks⟩
    exact mem_tagged_of_marks hlistable hmarks

end Found

section Walked

variable {start : repository.history.Position}

/-- A release that is found is listed with its boundary. -/
theorem mem_tagged_of_latestTag {name : String} {i : repository.history.Position}
    (h : repository.latestTag start = .ok (some (name, i))) : (i, name) ∈ repository.tagged := by
  rcases latestTag_eq_ok h with ⟨-, hnone⟩ | ⟨walk, -, hsome⟩
  · cases hnone
  · obtain ⟨j, -, hfound⟩ := List.exists_of_findSome?_eq_some hsome.symm
    obtain ⟨other, hname, hpair⟩ := Option.map_eq_some_iff.1 hfound
    obtain ⟨rfl, rfl⟩ := Prod.mk.inj hpair
    exact (tagOf_eq_some hname).1

/-- The latest release is the first tag along a walk, also if there is no tag and the
    walk is left out. -/
theorem latestTag_of_between {walk : List repository.history.Position}
    (hwalk : repository.history.between start none = .ok walk) :
    repository.latestTag start = .ok (walk.findSome? fun i =>
      (tagOf repository repository.tagged i).map fun name => (name, i)) := by
  unfold latestTag
  simp only []
  split
  · -- Without tags a search along the walk comes to its end.
    rename_i hempty
    rw [List.isEmpty_iff.1 hempty, eq_comm, List.findSome?_eq_none_iff.2]
    intro i _
    rfl
  · rw [hwalk]
    rfl

/-- No tag marks a commit that a start leads to. -/
def Untagged (repository : Repository) (start : repository.history.Position) : Prop :=
  ∀ name i, repository.Marks name i → ¬repository.history.LeadsTo start i

/-- A release is found if the list of tags is not broken and one of them marks a
    commit that the start leads to. -/
theorem latestTag_isSome_iff {release : Option (String × repository.history.Position)}
    (h : repository.latestTag start = .ok release) :
    release.isSome ↔ repository.Listable ∧ ¬repository.Untagged start := by
  rcases release with _ | ⟨name, i⟩
  · simp only [Option.isSome_none, Bool.false_eq_true, false_iff, not_and, not_not]
    exact fun hlistable => latestTag_eq_none hlistable h
  · have hlatest := latestTag_eq_some h
    simp only [Option.isSome_some, true_iff]
    exact ⟨(mem_tagged_iff_marks.1 (mem_tagged_of_latestTag h)).1,
      fun hnone => hnone name i hlatest.marks hlatest.reached⟩

/-- How a range is read from a start, whether or not it can be read. -/
theorem range_of_start {revision : String} (hstart : repository.start revision = .ok start)
    (since : Option String) :
    repository.range revision since = do
      let release ← repository.release start since
      let shown ← (repository.history.between start (release.map (·.2))).mapError .walk
      return repository.rangeOf start release shown := by
  rw [Repository.range, hstart]
  rfl

/-- If a walk from the start fails, so does the range behind the latest release. -/
theorem range_none_of_gap {revision : String} (hstart : repository.start revision = .ok start)
    {fault : ReadFault} (hwalk : repository.history.between start none = .error fault) :
    repository.range revision none = .error (.walk fault) := by
  rw [range_of_start hstart]
  unfold release latestTag
  simp only []
  -- Without tags the range is the first to be walked through, otherwise the search is.
  split
  · simp [Except.mapError, bind, Except.bind, hwalk]
  · simp [Except.mapError, bind, Except.bind, hwalk]

/-- If what the start leads to can be read, so can the range behind the latest
    release. -/
theorem range_none_isOk {revision : String} (hstart : repository.start revision = .ok start)
    (hwhole : repository.history.WholeFrom [start]) :
    ∃ release range, repository.latestTag start = .ok release ∧
      repository.range revision none = .ok range ∧ range.sinceTag = release.map (·.1) := by
  obtain ⟨release, hrelease⟩ := latestTag_isOk hwhole
  have hboundary : repository.history.WholeFrom (release.map (·.2)).toList := by
    rcases release with _ | ⟨name, i⟩
    · rintro i ⟨j, hj, -⟩
      cases hj
    · exact hwhole.of_leadsTo (latestTag_eq_some hrelease).reached
  obtain ⟨shown, hshown⟩ := History.between_isOk (hboundary.append hwhole)
  exact ⟨release, _, hrelease, (range_eq_ok_iff hstart).2
    ⟨release, shown, release_none_eq_ok_iff.2 hrelease, hshown, rfl⟩, rfl⟩

end Walked

/-- A range that was read behind the latest release is read again if the release is
    given by the name of its tag. -/
theorem range_by_name (repository : Repository) {revision name : String} {range : CommitRange}
    (hrange : repository.range revision none = .ok range) (hname : range.sinceTag = some name) :
    repository.range revision (some name) = .ok range := by
  obtain ⟨start, hstart⟩ := exists_start_of_range hrange
  obtain ⟨release, shown, hrelease, hshown, rfl⟩ := (range_eq_ok_iff hstart).1 hrange
  obtain ⟨⟨other, boundary⟩, rfl, rfl⟩ := Option.map_eq_some_iff.1 hname
  -- The tag was listed with its commit, and looking it up leads to the same commit.
  have hlisted := mem_tagged_of_latestTag (release_none_eq_ok_iff.1 hrelease)
  have hcommit := (mem_tagged_iff.1 hlisted).2
  exact (range_eq_ok_iff hstart).2 ⟨_, shown, release_some_eq_ok hcommit, hshown, rfl⟩

theorem tagged_parted :
    parted.tagged =
      [(⟨0, by decide⟩, "v1"), (⟨2, by decide⟩, "v2"), (⟨2, by decide⟩, "v2-b"),
        (⟨4, by decide⟩, "v3")] := by
  rw [tagged, listedTags, tags_parted]
  rfl

theorem range_parted :
    parted.range "HEAD" none =
      .ok (parted.rangeOf ⟨3, by decide⟩ (some ("v2-b", ⟨2, by decide⟩))
        [⟨3, by decide⟩, ⟨1, by decide⟩]) := by
  have hstart : parted.start "HEAD" = .ok ⟨3, by decide⟩ := rfl
  have hwalk : parted.history.between ⟨3, by decide⟩ none =
      .ok [⟨3, by decide⟩, ⟨1, by decide⟩, ⟨2, by decide⟩, ⟨0, by decide⟩] := by decide +kernel
  have hrelease : parted.latestTag ⟨3, by decide⟩ = .ok (some ("v2-b", ⟨2, by decide⟩)) := by
    rw [latestTag_of_between hwalk, tagged_parted]
    rfl
  have hshown : parted.history.between ⟨3, by decide⟩ (some ⟨2, by decide⟩) =
      .ok [⟨3, by decide⟩, ⟨1, by decide⟩] := by decide +kernel
  exact (range_eq_ok_iff hstart).2 ⟨_, _, release_none_eq_ok_iff.2 hrelease, hshown, rfl⟩

theorem parted_range_by_name :
    ∃ range, parted.range "HEAD" none = .ok range ∧ range.sinceTag = some "v2-b" ∧
      parted.range "HEAD" (some "v2-b") = .ok range :=
  ⟨_, range_parted, rfl, range_by_name parted range_parted rfl⟩

section Retagged

variable (repository)
variable (objects : List (String × Object repository.history)) (refs : List (String × Target))
variable (table : Option (List (String × Target)))

/-- The same history with other references, and with other objects besides its
    commits. -/
abbrev retagged : Repository :=
  { repository with objects, refs, table }

/-- With the other references the same tags mark the commits that a start leads to.
    Any other tags may be there or not, and lead wherever they do. -/
def SameMarks (start : repository.history.Position) : Prop :=
  ∀ name i, repository.history.LeadsTo start i →
    (repository.Marks name i ↔ (repository.retagged objects refs table).Marks name i)

variable {repository objects refs table}
variable {start : repository.history.Position}

/-- The same tags mark what a start leads to, if a tag that is not the same in both
    leads to nothing of that. -/
theorem sameMarks_of_tags
    (hold : ∀ name ∈ repository.tags,
      (name ∈ (repository.retagged objects refs table).tags ∧
        repository.tagCommit name = (repository.retagged objects refs table).tagCommit name) ∨
      ∀ i, repository.tagCommit name = .ok i → ¬repository.history.LeadsTo start i)
    (hnew : ∀ name ∈ (repository.retagged objects refs table).tags,
      (name ∈ repository.tags ∧
        repository.tagCommit name = (repository.retagged objects refs table).tagCommit name) ∨
      ∀ i, (repository.retagged objects refs table).tagCommit name = .ok i →
        ¬repository.history.LeadsTo start i) :
    repository.SameMarks objects refs table start := by
  intro name i hlead
  rw [marks_iff, marks_iff]
  constructor
  · rintro ⟨hmem, hcommit⟩
    rcases hold name hmem with ⟨hkept, heq⟩ | haway
    · exact ⟨hkept, heq.symm.trans hcommit⟩
    · exact absurd hlead (haway i hcommit)
  · rintro ⟨hmem, hcommit⟩
    rcases hnew name hmem with ⟨hkept, heq⟩ | haway
    · exact ⟨hkept, heq.trans hcommit⟩
    · exact absurd hlead (haway i hcommit)

/-- Nothing is marked that the start leads to, if with other references nothing is. -/
theorem SameMarks.untagged_iff (h : repository.SameMarks objects refs table start) :
    repository.Untagged start ↔ (repository.retagged objects refs table).Untagged start := by
  unfold Untagged
  constructor
  · intro hnone name i hmarks hlead
    exact hnone name i ((h name i hlead).2 hmarks) hlead
  · intro hnone name i hmarks hlead
    exact hnone name i ((h name i hlead).1 hmarks) hlead

/-- Tags that are listed alike as far as a walk comes give the same latest release. -/
theorem latestTag_retagged
    (hlisted : ∀ i, repository.history.LeadsTo start i → ∀ name,
      (i, name) ∈ (repository.retagged objects refs table).tagged ↔ (i, name) ∈ repository.tagged)
    {walk : List repository.history.Position}
    (hwalk : repository.history.between start none = .ok walk) :
    (repository.retagged objects refs table).latestTag start = repository.latestTag start := by
  -- The walk is the same in both, and shows only what the start leads to.
  obtain ⟨-, -, hmem⟩ := History.shown_between hwalk (.inl rfl)
  have htag : ∀ i ∈ walk,
      tagOf (repository.retagged objects refs table)
        (repository.retagged objects refs table).tagged i =
      tagOf repository repository.tagged i := by
    intro i hi
    refine Option.ext fun name => ?_
    rw [tagOf_eq_some_iff, tagOf_eq_some_iff]
    simp only [hlisted i ((hmem i).1 hi).1]
  have hother := @latestTag_of_between (repository.retagged objects refs table) start walk hwalk
  rw [hother, latestTag_of_between hwalk, ← List.head?_filterMap, ← List.head?_filterMap]
  refine congrArg (fun found => Except.ok (List.head? found)) (List.filterMap_congr fun i hi => ?_)
  rw [htag i hi]

section Ranges

variable {revision : String} (hstart : repository.start revision = .ok start)
variable (hother : (repository.retagged objects refs table).start revision = .ok start)
include hstart hother

/-- The release is all that a range takes from the references, besides its start. -/
theorem range_retagged {since : Option String}
    (hrelease : (repository.retagged objects refs table).release start since =
      repository.release start since) :
    (repository.retagged objects refs table).range revision since =
      repository.range revision since := by
  rw [range_of_start hstart, range_of_start hother, hrelease]
  rfl

/-- Tags that are listed alike as far as a walk comes give the same range. -/
theorem range_none_retagged
    (hlisted : ∀ i, repository.history.LeadsTo start i → ∀ name,
      (i, name) ∈ (repository.retagged objects refs table).tagged ↔
        (i, name) ∈ repository.tagged) :
    (repository.retagged objects refs table).range revision none =
      repository.range revision none := by
  cases hwalk : repository.history.between start none with
  | error fault =>
      rw [range_none_of_gap hstart hwalk]
      exact range_none_of_gap hother hwalk
  | ok walk =>
      exact range_retagged hstart hother
        (congrArg (Except.mapError SourceFault.walk) (latestTag_retagged hlisted hwalk))

/-- A release that is given is looked up by itself. -/
theorem range_some_retagged {name : String}
    (htag : (repository.retagged objects refs table).tagCommit name =
      repository.tagCommit name) :
    (repository.retagged objects refs table).range revision (some name) =
      repository.range revision (some name) := by
  refine range_retagged hstart hother ?_
  unfold release
  simp only [htag]

/-- If the same range is read, both lists of tags are broken or neither is, or there
    is nothing in them to be found. -/
theorem listable_iff_of_range_eq (hsame : repository.SameMarks objects refs table start)
    (hwhole : repository.history.WholeFrom [start])
    (heq : (repository.retagged objects refs table).range revision none =
      repository.range revision none) :
    (repository.Listable ↔ (repository.retagged objects refs table).Listable) ∨
      repository.Untagged start := by
  obtain ⟨release, range, hrelease, hrange, htag⟩ := range_none_isOk hstart hwhole
  obtain ⟨other, otherRange, hotherRelease, hotherRange, hotherTag⟩ :=
    range_none_isOk hother hwhole
  -- The tag of a range tells whether a release was found.
  have hsome : release.isSome = other.isSome := by
    rw [hrange, hotherRange] at heq
    rw [Except.ok.inj heq, htag] at hotherTag
    simpa using congrArg Option.isSome hotherTag
  have hfound := latestTag_isSome_iff hrelease
  rw [hsome, latestTag_isSome_iff hotherRelease, ← hsame.untagged_iff] at hfound
  by_cases huntagged : repository.Untagged start
  · exact .inr huntagged
  · simp only [huntagged, not_false_eq_true, and_true] at hfound
    exact .inl hfound.symm

end Ranges

end Retagged

/-- Two repositories of the same history, in which a revision means the same commit.
    If the same tags mark what it leads to, the range behind the latest release is the
    same in both, or cannot be read for the same reason. It does not matter which other
    tags there are and where they lead, except that one that leads to nothing breaks
    the list of tags: that has to happen in both or in neither, unless there is no
    release to be found anyway. The range behind a release that is given is the same
    if its tag leads to the same commit, however all other tags differ. -/
theorem ranges_of_retagged (repository : Repository)
    (objects : List (String × Object repository.history)) (refs : List (String × Target))
    (table : Option (List (String × Target))) {revision : String}
    {start : repository.history.Position} (hstart : repository.start revision = .ok start)
    (hother : (repository.retagged objects refs table).start revision = .ok start) :
    (repository.SameMarks objects refs table start →
      ((repository.Listable ↔ (repository.retagged objects refs table).Listable) ∨
          repository.Untagged start →
        (repository.retagged objects refs table).range revision none =
          repository.range revision none) ∧
      (repository.history.WholeFrom [start] →
        (repository.retagged objects refs table).range revision none =
            repository.range revision none →
          (repository.Listable ↔ (repository.retagged objects refs table).Listable) ∨
            repository.Untagged start)) ∧
    ∀ name,
      (repository.retagged objects refs table).tagCommit name = repository.tagCommit name →
        (repository.retagged objects refs table).range revision (some name) =
          repository.range revision (some name) := by
  refine ⟨fun hsame => ⟨fun hlists => ?_, ?_⟩, fun name htag => ?_⟩
  · refine range_none_retagged hstart hother fun i hlead name => ?_
    -- A tag is listed with a commit if it marks it, unless the list is broken.
    rw [mem_tagged_iff_marks, mem_tagged_iff_marks, ← hsame name i hlead]
    rcases hlists with hlistable | huntagged
    · rw [hlistable]
    · have hnone : ¬repository.Marks name i := fun hmarks => huntagged name i hmarks hlead
      simp only [hnone, and_false]
  · exact listable_iff_of_range_eq hstart hother hsame
  · exact range_some_retagged hstart hother htag

/-- The references of `parted` with other tags beside its history: one of the last
    commit has another name, and one of a tree is in another place. -/
def besideRefs : List (String × Target) :=
  [("HEAD", .hash "d" none), ("refs/tags/also", .hash "e" none),
    ("refs/tags/v1", .hash "a" none), ("refs/tags/v2", .hash "t" none),
    ("refs/tags/v2-b", .hash "c" none), ("refs/tags/v9", .hash "f" none)]

theorem tags_beside :
    (parted.retagged parted.objects besideRefs (some [])).tags =
      ["also", "v1", "v2", "v2-b", "v9"] := by
  rw [tags, namesIn_eq_of_sorted rfl (by decide)]
  rfl

theorem parted_sameMarks_beside :
    parted.SameMarks parted.objects besideRefs (some []) ⟨3, by decide⟩ := by
  -- The last commit stands behind the start.
  have haway : ∀ i, (Except.ok ⟨4, by decide⟩ : Except TagFault parted.history.Position) = .ok i →
      ¬parted.history.LeadsTo ⟨3, by decide⟩ i := by
    rintro _ ⟨⟩ hlead
    exact absurd hlead.le (by decide)
  apply sameMarks_of_tags
  · rw [tags_parted, tags_beside]
    simp only [List.forall_mem_cons]
    exact ⟨.inr nofun, .inl ⟨by decide, rfl⟩, .inl ⟨by decide, rfl⟩, .inl ⟨by decide, rfl⟩,
      .inr haway, nofun⟩
  · rw [tags_parted, tags_beside]
    simp only [List.forall_mem_cons]
    exact ⟨.inr haway, .inl ⟨by decide, rfl⟩, .inl ⟨by decide, rfl⟩, .inl ⟨by decide, rfl⟩,
      .inr nofun, nofun⟩

theorem parted_ranges_beside :
    let other := parted.retagged parted.objects besideRefs (some [])
    ∃ start range, parted.start "HEAD" = .ok start ∧ other.start "HEAD" = .ok start ∧
      parted.SameMarks parted.objects besideRefs (some []) start ∧
      parted.range "HEAD" none = .ok range ∧ range.sinceTag = some "v2-b" ∧
      other.range "HEAD" none = .ok range ∧
      ((parted.Listable ↔ other.Listable) ∨ parted.Untagged start) ∧
      other.tagCommit "v1" = parted.tagCommit "v1" ∧
      other.range "HEAD" (some "v1") = parted.range "HEAD" (some "v1") := by
  intro other
  have hstart : parted.start "HEAD" = .ok ⟨3, by decide⟩ := rfl
  have hother : other.start "HEAD" = .ok ⟨3, by decide⟩ := rfl
  have hlistable : parted.Listable :=
    (mem_tagged_iff_marks.1 (tagged_parted ▸ List.mem_cons_self)).1
  have hotherListable : other.Listable := by
    unfold Listable
    rw [tags_beside]
    simp only [List.forall_mem_cons]
    exact ⟨⟨_, rfl⟩, ⟨_, rfl⟩, ⟨_, rfl⟩, ⟨_, rfl⟩, ⟨_, rfl⟩, nofun⟩
  have hwhole : parted.history.Whole := by decide
  have htag : other.tagCommit "v1" = parted.tagCommit "v1" := rfl
  obtain ⟨hlatest, hgiven⟩ :=
    ranges_of_retagged parted parted.objects besideRefs (some []) hstart hother
  obtain ⟨hsame, hlists⟩ := hlatest parted_sameMarks_beside
  have heq := hsame (.inl ⟨fun _ => hotherListable, fun _ => hlistable⟩)
  exact ⟨_, _, hstart, hother, parted_sameMarks_beside, range_parted, rfl, heq.trans range_parted,
    hlists (hwhole.wholeFrom _) heq, htag, hgiven "v1" htag⟩

/-- The references of `parted`, and a tag that leads to a branch that is not there. -/
def nowhereRefs : List (String × Target) :=
  parted.refs ++ [("refs/tags/void", .name "refs/heads/void")]

theorem tags_nowhere :
    (parted.retagged parted.objects nowhereRefs (some [])).tags =
      ["files", "v1", "v2", "v2-b", "v3", "void"] := by
  rw [tags, namesIn_eq_of_sorted rfl (by decide)]
  rfl

/-- A tag that leads to nothing marks nothing. Still no release is found if it is
    there, and the range goes back to the first commit. -/
theorem parted_release_lost_by_nowhere :
    let other := parted.retagged parted.objects nowhereRefs (some [])
    ∃ start range otherRange, parted.start "HEAD" = .ok start ∧
      other.start "HEAD" = .ok start ∧
      parted.SameMarks parted.objects nowhereRefs (some []) start ∧
      parted.range "HEAD" none = .ok range ∧ range.sinceTag = some "v2-b" ∧
      other.range "HEAD" none = .ok otherRange ∧ otherRange.sinceTag = none := by
  intro other
  have hother : other.start "HEAD" = .ok ⟨3, by decide⟩ := rfl
  have hsame : parted.SameMarks parted.objects nowhereRefs (some []) ⟨3, by decide⟩ := by
    apply sameMarks_of_tags
    · rw [tags_parted, tags_nowhere]
      simp only [List.forall_mem_cons]
      exact ⟨.inl ⟨by decide, rfl⟩, .inl ⟨by decide, rfl⟩, .inl ⟨by decide, rfl⟩,
        .inl ⟨by decide, rfl⟩, .inl ⟨by decide, rfl⟩, nofun⟩
    · rw [tags_parted, tags_nowhere]
      simp only [List.forall_mem_cons]
      exact ⟨.inl ⟨by decide, rfl⟩, .inl ⟨by decide, rfl⟩, .inl ⟨by decide, rfl⟩,
        .inl ⟨by decide, rfl⟩, .inl ⟨by decide, rfl⟩, .inr nofun, nofun⟩
  have hbroken : ¬other.Listable := by
    intro hlistable
    obtain ⟨lead, hlead⟩ := hlistable "void" (tags_nowhere ▸ by decide)
    cases hlead
  have hwhole : parted.history.Whole := by decide
  obtain ⟨release, otherRange, hrelease, hrange, htag⟩ :=
    range_none_isOk hother (hwhole.wholeFrom _)
  -- No release is found in a list that is broken.
  have hnone : ¬release.isSome := fun hsome => hbroken ((latestTag_isSome_iff hrelease).1 hsome).1
  rw [Option.not_isSome_iff_eq_none.1 hnone] at htag
  exact ⟨_, _, otherRange, rfl, hother, hsame, range_parted, rfl, hrange, htag⟩

end Repository

end ReleaseNotes
