import ReleaseNotes.Proofs.History.Range
import ReleaseNotes.Proofs.Outcome

/-!
# Successive Releases

What the notes since an older release have to do with those since a newer one.

Let a start lead to a newer release, and that one to an older one. What the
start leads to and the older release does not is of two kinds: the newer release
leads to it, or it does not. These are the commits between the two releases, and
those since the newer one. So nothing is lost between two releases and nothing
told twice, also where the history parts and comes together again.

That is about commits. Where a commit goes in a document does not depend on the
other commits, so the entries under a key are those of the two parts, put
together. Their order need not be the same, since the walk over a longer history
may show one branch before the other.

Of notes, only what is said here comes apart in this way. The text does not, and
the warnings do not either.

## Main definitions

* `RuleSet.Splits`: What is said about a range is said about two parts of it.

## Theorems

* `History.between_splits`: The commits since a release, by those since a newer one.
* `RuleSet.splits_of_perm`: The documents and the counts follow the commits.
* `Repository.range_splits`: The notes since a release, by those since a newer one.
-/

namespace ReleaseNotes

namespace History

variable {history : History}

/-- What lies behind a release is what lies behind a newer one, together with
    what lies between the two. -/
theorem between_splits (hforward : history.Forward) {start middle boundary : history.Position}
    (hnewer : history.LeadsTo start middle) (holder : history.LeadsTo middle boundary)
    {whole newer older : List history.Position}
    (hwhole : history.between start (some boundary) = .ok whole)
    (hsince : history.between start (some middle) = .ok newer)
    (huntil : history.between middle (some boundary) = .ok older) :
    whole.Perm (newer ++ older) ∧ newer.Disjoint older := by
  obtain ⟨hnodup, -, hmem⟩ := shown_between hwhole (.inr hforward)
  obtain ⟨hnodupNewer, -, hmemNewer⟩ := shown_between hsince (.inr hforward)
  obtain ⟨hnodupOlder, -, hmemOlder⟩ := shown_between huntil (.inr hforward)
  simp only [Option.mem_some_iff, forall_eq'] at hmem hmemNewer hmemOlder
  have hdisjoint : newer.Disjoint older := by
    intro i hi hi'
    exact ((hmemNewer i).1 hi).2 ((hmemOlder i).1 hi').1
  refine ⟨(List.perm_ext_iff_of_nodup hnodup
    (hnodupNewer.append hnodupOlder hdisjoint)).2 fun i => ?_, hdisjoint⟩
  rw [List.mem_append, hmem, hmemNewer, hmemOlder]
  constructor
  · rintro ⟨hstart, hboundary⟩
    by_cases hmiddle : history.LeadsTo middle i
    · exact .inr ⟨hmiddle, hboundary⟩
    · exact .inl ⟨hstart, hmiddle⟩
  · rintro (⟨hstart, hmiddle⟩ | ⟨hmiddle, hboundary⟩)
    · exact ⟨hstart, fun hboundary => hmiddle (holder.trans hboundary)⟩
    · exact ⟨hnewer.trans hmiddle, hboundary⟩

end History

namespace RuleSet

/-- What the notes say about a range is what they say about a newer part and an
    older part of it, put together. -/
structure Splits (rules : RuleSet) (contributors : Bool) (whole newer older : CommitRange) :
    Prop where
  /-- Under every key stand the entries of both parts. -/
  entries : ∀ key, ((rules.document whole.commits).entriesUnder key).Perm
    ((rules.document newer.commits).entriesUnder key ++
      (rules.document older.commits).entriesUnder key)
  /-- No entry is in both parts. -/
  apart : ∀ key, ((rules.document newer.commits).entriesUnder key).Disjoint
    ((rules.document older.commits).entriesUnder key)
  /-- The numbers of commits add up. -/
  counts : ∃ notes newerNotes olderNotes,
    rules.run (.ok whole) contributors = .ok notes ∧
    rules.run (.ok newer) contributors = .ok newerNotes ∧
    rules.run (.ok older) contributors = .ok olderNotes ∧
    notes.renderedCount = newerNotes.renderedCount + olderNotes.renderedCount ∧
    notes.commitCount = newerNotes.commitCount + olderNotes.commitCount

/-- If the commits of a range are those of two parts, and none is in both, so it
    is with what the notes say about them. -/
theorem splits_of_perm {rules : RuleSet} (hrules : rules.check = .ok ()) (contributors : Bool)
    {whole newer older : CommitRange}
    (hperm : whole.commits.Perm (newer.commits ++ older.commits))
    (hapart : ∀ a ∈ newer.commits, ∀ b ∈ older.commits, a.hash ≠ b.hash) :
    rules.Splits contributors whole newer older where
  entries := by
    intro key
    simp only [entriesUnder_document _ hrules, ← List.map_append, ← List.filter_append]
    exact (hperm.filter _).map _
  apart := by
    intro key entry hnewer holder
    rw [entriesUnder_document _ hrules] at hnewer holder
    obtain ⟨a, ha, rfl⟩ := List.mem_map.1 hnewer
    obtain ⟨b, hb, hentry⟩ := List.mem_map.1 holder
    have hhash := congrArg (·.commit.hash) hentry
    simp only [hash_entry] at hhash
    exact hapart a (List.mem_of_mem_filter ha) b (List.mem_of_mem_filter hb) hhash.symm
  counts := by
    refine ⟨_, _, _, run_ok hrules whole contributors, run_ok hrules newer contributors,
      run_ok hrules older contributors, ?_, ?_⟩
    · simp only [notesFor, document_asked, entryCount_document _ hrules]
      rw [hperm.countP_eq, List.countP_append]
    · simp only [notesFor]
      rw [hperm.length_eq, List.length_append]

end RuleSet

namespace Repository

variable {repository : Repository}

theorem range_some_eq_ok_iff {revision name : String}
    {start boundary : repository.history.Position} {range : CommitRange}
    (hstart : repository.start revision = .ok start)
    (htag : repository.tagCommit name = .ok boundary) :
    repository.range revision (some name) = .ok range ↔
      ∃ shown, repository.history.between start (some boundary) = .ok shown ∧
        range = repository.rangeOf start (some (name, boundary)) shown := by
  rw [range_eq_ok_iff hstart, release_some_eq_ok htag]
  simp

/-- The range since a release is read if what lies behind it and behind the start
    can be. -/
theorem range_some_isOk {revision name : String}
    {start boundary : repository.history.Position}
    (hstart : repository.start revision = .ok start)
    (htag : repository.tagCommit name = .ok boundary)
    (hwhole : repository.history.WholeFrom [boundary, start]) :
    ∃ range, repository.range revision (some name) = .ok range := by
  obtain ⟨shown, hshown⟩ :
      ∃ shown, repository.history.between start (some boundary) = .ok shown :=
    History.between_isOk hwhole
  exact ⟨_, (range_some_eq_ok_iff hstart htag).2 ⟨shown, hshown, rfl⟩⟩

/-- In a history in which no commit is earlier than a parent of it, let a start
    lead to a release and that one to an older one. What the notes say about the
    commits since the older release is what they say about those since the newer
    one and about those between the two. There are these ranges if what the start
    leads to can be read. -/
theorem range_splits (repository : Repository) (hforward : repository.history.Forward)
    (rules : RuleSet) (hrules : rules.check = .ok ()) (contributors : Bool)
    {revision earlier newerTag olderTag : String}
    {start middle boundary : repository.history.Position}
    (hstart : repository.start revision = .ok start)
    (hmiddle : repository.start earlier = .ok middle)
    (hnewerTag : repository.tagCommit newerTag = .ok middle)
    (holderTag : repository.tagCommit olderTag = .ok boundary)
    (hnewer : repository.history.LeadsTo start middle)
    (holder : repository.history.LeadsTo middle boundary) :
    (repository.history.WholeFrom [start] →
      (∃ range, repository.range revision (some olderTag) = .ok range) ∧
      (∃ range, repository.range revision (some newerTag) = .ok range) ∧
      ∃ range, repository.range earlier (some olderTag) = .ok range) ∧
    ∀ whole newer older, repository.range revision (some olderTag) = .ok whole →
      repository.range revision (some newerTag) = .ok newer →
      repository.range earlier (some olderTag) = .ok older →
      rules.Splits contributors whole newer older := by
  constructor
  · intro hwhole
    have hwholeMiddle := hwhole.of_leadsTo hnewer
    have hwholeBoundary := hwholeMiddle.of_leadsTo holder
    refine ⟨?_, ?_, ?_⟩
    · exact range_some_isOk hstart holderTag (hwholeBoundary.append hwhole)
    · exact range_some_isOk hstart hnewerTag (hwholeMiddle.append hwhole)
    · exact range_some_isOk hmiddle holderTag (hwholeBoundary.append hwholeMiddle)
  · intro whole newer older hwhole hsince huntil
    obtain ⟨all, hall, rfl⟩ := (range_some_eq_ok_iff hstart holderTag).1 hwhole
    obtain ⟨after, hafter, rfl⟩ := (range_some_eq_ok_iff hstart hnewerTag).1 hsince
    obtain ⟨before, hbefore, rfl⟩ := (range_some_eq_ok_iff hmiddle holderTag).1 huntil
    obtain ⟨hperm, hdisjoint⟩ :=
      History.between_splits hforward hnewer holder hall hafter hbefore
    refine RuleSet.splits_of_perm hrules contributors ?_ ?_
    · simp only [rangeOf, ← List.map_append]
      exact hperm.map _
    · simp only [rangeOf, List.forall_mem_map, CommitRecord.hash_toCommit]
      intro i hi j hj hhash
      obtain rfl := History.eq_of_hash_eq hhash
      exact hdisjoint hi hj

/-- A history of five commits that parts behind the first one and comes together
    again in the fourth one. One of the two branches is released, then what they
    come together in. -/
def released : Repository where
  history :=
    let commit (parents : List String) (time : Int) (message : String) : CommitContent :=
      { tree := "", parents, time, author := .empty, message := message.toUTF8 }
    .ofList .missing
      [("a", commit [] 1 "feat: a"), ("b", commit ["a"] 2 "fix: b"),
        ("c", commit ["a"] 2 "fix: c"), ("d", commit ["b", "c"] 3 "merge"),
        ("e", commit ["d"] 3 "fix: e")]
  objects := []
  entries := fun _ => []
  refs :=
    [("HEAD", .hash "e" none), ("refs/tags/v1", .hash "b" none),
      ("refs/tags/v2", .hash "d" none)]
  table := some []
  logs := []
  settings := []

theorem released_range_splits :
    released.history.Forward ∧ RuleSet.standard.check = .ok () ∧
      ∃ whole newer older, released.range "HEAD" (some "v1") = .ok whole ∧
        released.range "HEAD" (some "v2") = .ok newer ∧
        released.range "v2" (some "v1") = .ok older ∧
        RuleSet.standard.Splits false whole newer older := by
  have hforward : released.history.Forward := by decide
  have hrules : RuleSet.standard.check = .ok () := rfl
  have hwhole : released.history.Whole := by decide
  have hstart : released.start "HEAD" = .ok ⟨4, by decide⟩ := rfl
  have hmiddle : released.start "v2" = .ok ⟨3, by decide⟩ := rfl
  have hnewerTag : released.tagCommit "v2" = .ok ⟨3, by decide⟩ := rfl
  have holderTag : released.tagCommit "v1" = .ok ⟨1, by decide⟩ := rfl
  obtain ⟨hread, hsplits⟩ :=
    range_splits released hforward .standard hrules false hstart hmiddle hnewerTag holderTag
      (.single (by decide)) (.single (by decide))
  obtain ⟨⟨whole, hall⟩, ⟨newer, hsince⟩, older, huntil⟩ := hread (hwhole.wholeFrom _)
  exact ⟨hforward, hrules, whole, newer, older, hall, hsince, huntil,
    hsplits whole newer older hall hsince huntil⟩

end Repository

end ReleaseNotes
