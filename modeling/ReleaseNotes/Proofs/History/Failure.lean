import ReleaseNotes.Fault
import ReleaseNotes.Proofs.Attempts
import ReleaseNotes.Proofs.History.Latest
import ReleaseNotes.Proofs.Lines

/-!
# Ranges That Cannot Be Read

What decides whether a range can be read, and what is said if it cannot.

In a history in which everything can be read, nothing fails on the way through it. So
what is left are the two texts that somebody gives, the start and the tag. The start
has to mean an object that leads to a commit. It is looked at first, and if there is
something wrong with it, the tag plays no part. Then the tag has to be there and to
lead to a commit. If no tag is given, one is looked for, and the tags that lead to
something else are passed over then, so none of them can do any harm.

A tag that is not there is told apart from one that is there and leads to no commit.
The first is a mistake of whoever gave its name, the second one a failure of the
repository. What tells them apart is the fault of the look-up, and that is about the
name as it was looked for, with extra slashes taken out. A text that is a name has no
extra slashes, so nothing is taken out.

A name can be too long for a reference to be looked for at all. Then it cannot be said
whether the tag is there, and that is a failure of the repository as well.

## Main definitions

* `RefName.IsShort`: A reference can be looked for under a name.
* `Repository.HasRef`: There is a reference of a name.
* `Repository.MeansCommit`, `Repository.TagMeansCommit`: A revision, or a tag, leads to
  a commit.
* `Repository.RangeOutcome`: What decides whether a range can be read.

## Theorems

* `RefName.tidy_of_isValid`: A name is looked for as it is.
* `Repository.ref_eq_dangling_iff`: When a reference is not found.
* `Repository.tagCommit_eq_dangling_iff`: When a tag is not found.
* `Repository.start_eq_ok_iff`: When there is a start.
* `Repository.range_isOk_iff`: When a range can be read.
* `Repository.range_outcome`: What is said if it cannot.
-/

namespace ReleaseNotes

namespace RefName

/-- The name is not too long, neither as a whole nor in a segment. -/
def IsShort (name : String) : Prop :=
  fits name = true ∧ isStorable name = true

variable {text : String}

/-- No slash is taken out if no segment is empty. The first one may be, since there is
    nothing in front of its slash. -/
theorem squeeze_of_segments {text : List Char}
    (h : ∀ segment ∈ (text.splitOn '/').tail, segment ≠ []) : squeeze text = text := by
  induction text using squeeze.induct with
  | case1 => rfl
  | case2 c => rfl
  | case3 a b rest hslashes ih =>
      -- Between two slashes there is an empty segment.
      rw [Bool.and_eq_true, beq_iff_eq, beq_iff_eq] at hslashes
      obtain ⟨rfl, rfl⟩ := hslashes
      simp [List.splitOn_cons_eq_if_modifyHead] at h
  | case4 a b rest hslashes ih =>
      rw [squeeze, if_neg hslashes, ih]
      intro segment hsegment
      refine h segment ?_
      rw [List.splitOn_cons_eq_if_modifyHead]
      split
      · exact List.mem_of_mem_tail hsegment
      · rw [List.tail_modifyHead]
        exact hsegment

theorem isSegment_of_isValid (h : isValid text = true) :
    ∀ segment ∈ text.toList.splitOn '/', isSegment segment = true := by
  simp only [isValid, Bool.and_eq_true, List.all_eq_true] at h
  exact h.1.1

/-- A name is looked for as it is. -/
theorem tidy_of_isValid (h : isValid text = true) : tidy text = text := by
  rw [tidy, squeeze_of_segments, String.ofList_toList]
  intro segment hsegment hempty
  have hvalid := isSegment_of_isValid h segment (List.mem_of_mem_tail hsegment)
  rw [hempty] at hvalid
  cases hvalid

/-- A name has no character that ends the text for those who look it up. -/
theorem zero_notMem_of_isValid (h : isValid text = true) : '\x00' ∉ text.toList := by
  intro hzero
  have htext : ['/'].intercalate (text.toList.splitOn '/') = text.toList :=
    List.intercalate_splitOn '/'
  rw [← htext] at hzero
  rcases mem_of_mem_intercalate hzero with hslash | ⟨segment, hsegment, hmem⟩
  · simp at hslash
  · have hvalid := isSegment_of_isValid h segment hsegment
    simp only [isSegment, Bool.and_eq_true, List.all_eq_true] at hvalid
    -- All characters of a segment come behind the blank.
    have hallowed := hvalid.1.1.1.2 _ hmem
    cases hallowed

end RefName

namespace SourceFault

/-- What is wrong with a tag is a failure of the repository, unless there is no such
    tag. -/
theorem kind_tag_of_ne {name : String} {cause : TagFault}
    (h : ∀ other, cause ≠ .ref (.dangling other)) : (tag name cause).kind = .repository := by
  cases cause with
  | ref fault =>
      cases fault with
      | dangling other => exact absurd rfl (h other)
      | _ => rfl
  | _ => rfl

end SourceFault

namespace Repository

/-- There is a reference of this name, kept by itself or in the table. -/
def HasRef (repository : Repository) (name : String) : Prop :=
  ∃ target, (name, target) ∈ repository.refs ∨ ∃ table ∈ repository.table, (name, target) ∈ table

/-- The text means an object that leads to a commit when its tags are taken off. -/
def MeansCommit (repository : Repository) (text : String) : Prop :=
  ∃ object i, repository.revision text = .ok object ∧ object.commit? = some i

/-- There is such a tag, and its object leads to a commit when its tags are taken off. -/
def TagMeansCommit (repository : Repository) (name : String) : Prop :=
  repository.HasRef (tagRef name) ∧
    ∃ object i, repository.tagObject name = .ok object ∧ object.commit? = some i

variable {repository : Repository}

section References

variable {name other : String}

theorem lookup_eq_none_iff_notMem {entries : List (String × Target)} :
    entries.lookup name = none ↔ ∀ target, (name, target) ∉ entries := by
  rw [List.lookup_eq_none_iff]
  constructor
  · intro h target hmem
    simpa using h _ hmem
  · rintro h ⟨key, target⟩ hmem
    rw [bne_iff_ne]
    rintro rfl
    exact h target hmem

/-- A reference is not found if there is none, provided that the table can be read. -/
theorem ref_eq_dangling_iff (htable : repository.table.isSome) :
    repository.ref name = .error (.dangling other) ↔ other = name ∧ ¬repository.HasRef name := by
  obtain ⟨table, htable⟩ := Option.isSome_iff_exists.1 htable
  have hnone : ¬repository.HasRef name ↔
      repository.refs.lookup name = none ∧ table.lookup name = none := by
    simp only [HasRef, htable, Option.mem_some_iff, exists_eq_left', lookup_eq_none_iff_notMem,
      not_exists, not_or, forall_and]
  rw [hnone, ref, htable]
  cases repository.refs.lookup name with
  | some target => cases target <;> simp
  | none =>
      simp only [true_and]
      cases table.lookup name <;> simp [eq_comm]

/-- A name is looked for as it is, if it is not too long. -/
theorem lookedFor_eq_ok_iff {text found : String} (hvalid : RefName.isValid text = true) :
    lookedFor text = .ok found ↔ found = text ∧ RefName.IsShort text := by
  rw [lookedFor, RefName.find?, RefName.tidy_of_isValid hvalid, RefName.ofText?, dif_pos hvalid]
  unfold RefName.IsShort
  cases hfits : RefName.fits text <;> cases hstorable : RefName.isStorable text <;>
    simp [hfits, hstorable, eq_comm]

/-- Whatever is wrong with a text, it is not that there is no reference. -/
theorem lookedFor_ne_dangling {text : String} : lookedFor text ≠ .error (.dangling other) := by
  unfold lookedFor
  intro h
  repeat' split at h
  all_goals cases h

theorem zero_notMem_of_tagRef (hvalid : RefName.isValid (tagRef name) = true) :
    '\x00' ∉ name.toList := by
  have hzero := RefName.zero_notMem_of_isValid hvalid
  rw [tagRef, String.toList_append, List.mem_append, not_or] at hzero
  exact hzero.2

/-- What keeps the reference of a tag from being found is what is wrong with the tag. -/
theorem tagObject_of_notFound (hzero : '\x00' ∉ name.toList) {cause : RefFault}
    (h : lookedFor (tagRef name) >>= repository.ref = .error cause) :
    repository.tagObject name = .error (.ref cause) := by
  have hcontains : ¬name.toList.contains '\x00' = true := by simpa using hzero
  rw [tagObject, if_neg hcontains]
  rcases bind_eq_error_iff.1 h with hlooked | ⟨ref, hlooked, href⟩
  · rw [hlooked]
    rfl
  · rw [hlooked]
    change (do let target ← (repository.ref ref).mapError TagFault.ref; _) = _
    rw [href]
    rfl

/-- A tag is not found only because its reference is not. -/
theorem notFound_of_tagObject
    (h : repository.tagObject name = .error (.ref (.dangling other))) :
    lookedFor (tagRef name) >>= repository.ref = .error (.dangling other) := by
  by_cases hzero : name.toList.contains '\x00'
  · rw [tagObject, if_pos hzero] at h
    cases h
  rw [tagObject, if_neg hzero] at h
  change ((lookedFor (tagRef name)).mapError TagFault.ref >>= _) = _ at h
  rw [bind_eq_error_iff] at h ⊢
  rcases h with h | ⟨ref, hlooked, h⟩
  · obtain ⟨cause, hcause, heq⟩ := mapError_eq_error_iff.1 h
    exact .inl (TagFault.ref.inj heq ▸ hcause)
  · refine .inr ⟨ref, mapError_eq_ok_iff.1 hlooked, ?_⟩
    rcases bind_eq_error_iff.1 h with h | ⟨target, -, h⟩
    · obtain ⟨cause, hcause, heq⟩ := mapError_eq_error_iff.1 h
      exact TagFault.ref.inj heq ▸ hcause
    · -- Behind the reference everything that can be wrong is called something else.
      exfalso
      cases target with
      | hash hash peeled =>
          obtain ⟨_, _, heq⟩ := mapError_eq_error_iff.1 h
          cases heq
      | name next =>
          rcases bind_eq_error_iff.1 h with h | ⟨lead, -, h⟩
          all_goals
            obtain ⟨_, _, heq⟩ := mapError_eq_error_iff.1 h
            cases heq
      | garbled likeName => cases h

section Named

variable (htable : repository.table.isSome) (hvalid : RefName.isValid (tagRef name) = true)
include htable hvalid

/-- The tag is not found if there is no reference of its name, and the name is not too long
    for that to be known. -/
theorem tagCommit_eq_dangling_iff :
    repository.tagCommit name = .error (.ref (.dangling other)) ↔
      other = tagRef name ∧ ¬repository.HasRef (tagRef name) ∧ RefName.IsShort (tagRef name) := by
  have hobject : repository.tagCommit name = .error (.ref (.dangling other)) ↔
      repository.tagObject name = .error (.ref (.dangling other)) := by
    rw [tagCommit, bind_eq_error_iff, or_iff_left]
    rintro ⟨object, -, h⟩
    obtain ⟨_, _, heq⟩ := mapError_eq_error_iff.1 h
    cases heq
  rw [hobject]
  constructor
  · intro h
    rcases bind_eq_error_iff.1 (notFound_of_tagObject h) with hlooked | ⟨ref, hlooked, href⟩
    · exact absurd hlooked lookedFor_ne_dangling
    · obtain ⟨rfl, hshort⟩ := (lookedFor_eq_ok_iff hvalid).1 hlooked
      obtain ⟨hother, hnone⟩ := (ref_eq_dangling_iff htable).1 href
      exact ⟨hother, hnone, hshort⟩
  · rintro ⟨rfl, hnone, hshort⟩
    refine tagObject_of_notFound (zero_notMem_of_tagRef hvalid) (bind_eq_error_iff.2 (.inr ?_))
    exact ⟨_, (lookedFor_eq_ok_iff hvalid).2 ⟨rfl, hshort⟩,
      (ref_eq_dangling_iff htable).2 ⟨rfl, hnone⟩⟩

/-- A tag that leads to a commit is there, and its name is not too long. -/
theorem found_of_tagCommit {i : repository.history.Position}
    (h : repository.tagCommit name = .ok i) :
    repository.HasRef (tagRef name) ∧ RefName.IsShort (tagRef name) := by
  obtain ⟨object, hobject, -⟩ := tagCommit_eq_ok_iff.1 h
  cases hfound : lookedFor (tagRef name) >>= repository.ref with
  | error cause =>
      rw [tagObject_of_notFound (zero_notMem_of_tagRef hvalid) hfound] at hobject
      cases hobject
  | ok target =>
      obtain ⟨ref, hlooked, href⟩ := bind_eq_ok_iff.1 hfound
      obtain ⟨rfl, hshort⟩ := (lookedFor_eq_ok_iff hvalid).1 hlooked
      refine ⟨?_, hshort⟩
      by_contra hnone
      rw [(ref_eq_dangling_iff htable).2 ⟨rfl, hnone⟩] at href
      cases href

theorem tagMeansCommit_iff :
    repository.TagMeansCommit name ↔ ∃ i, repository.tagCommit name = .ok i := by
  simp only [tagCommit_eq_ok_iff]
  constructor
  · rintro ⟨-, object, i, h⟩
    exact ⟨i, object, h⟩
  · rintro ⟨i, object, h⟩
    exact ⟨(found_of_tagCommit htable hvalid (tagCommit_eq_ok_iff.2 ⟨object, h⟩)).1, object, i, h⟩

end Named

end References

section Ranges

variable {revision : String}

theorem start_eq_ok_iff {i : repository.history.Position} :
    repository.start revision = .ok i ↔
      ∃ object, repository.revision revision = .ok object ∧ object.commit? = some i := by
  simp only [start, bind_eq_ok_iff, mapError_eq_ok_iff, Object.peelToCommit_eq_ok_iff]

theorem meansCommit_iff :
    repository.MeansCommit revision ↔ ∃ i, repository.start revision = .ok i := by
  simp only [start_eq_ok_iff]
  exact exists_comm

theorem range_of_noStart {fault : SourceFault} (h : repository.start revision = .error fault)
    (since : Option String) : repository.range revision since = .error fault := by
  rw [range, h]
  rfl

theorem range_of_noTag (hmeans : repository.MeansCommit revision) {name : String}
    {cause : TagFault} (h : repository.tagCommit name = .error cause) :
    repository.range revision (some name) = .error (.tag name cause) := by
  obtain ⟨start, hstart⟩ := meansCommit_iff.1 hmeans
  rw [range, hstart, ok_bind, release, h]
  rfl

/-- If everything can be read, a range can be read if there are a start and, if one is
    given, a tag. -/
theorem range_isOk_iff (hwhole : repository.history.Whole) {since : Option String} :
    (∃ range, repository.range revision since = .ok range) ↔
      repository.MeansCommit revision ∧ ∀ name ∈ since, ∃ i, repository.tagCommit name = .ok i := by
  rw [meansCommit_iff]
  constructor
  · rintro ⟨range, hrange⟩
    obtain ⟨start, hstart⟩ := exists_start_of_range hrange
    obtain ⟨release, -, hrelease, -⟩ := (range_eq_ok_iff hstart).1 hrange
    refine ⟨⟨start, hstart⟩, ?_⟩
    rintro name ⟨⟩
    obtain ⟨boundary, hboundary, -⟩ := bind_eq_ok_iff.1 hrelease
    exact ⟨boundary, mapError_eq_ok_iff.1 hboundary⟩
  · rintro ⟨⟨start, hstart⟩, hsince⟩
    obtain ⟨release, hrelease, -⟩ := release_spec hwhole start hsince
    obtain ⟨shown, hshown⟩ := History.between_isOk (hwhole.wholeFrom _)
    exact ⟨_, (range_eq_ok_iff hstart).2 ⟨release, shown, hrelease, hshown, rfl⟩⟩

/-- What decides whether the range of a start and a tag can be read, and what is said if it
    cannot. -/
structure RangeOutcome (repository : Repository) (revision : String) (since : Option String) :
    Prop where
  /-- The start has to lead to a commit, and so has the tag if one is given. -/
  read_iff : (∃ range, repository.range revision since = .ok range) ↔
    repository.MeansCommit revision ∧ ∀ name ∈ since, repository.TagMeansCommit name
  /-- Without a tag the start alone decides. -/
  read_without : repository.MeansCommit revision →
    ∃ range, repository.range revision none = .ok range
  /-- A start that means nothing is a fault of the source, whatever tag is given. -/
  noStart : ∀ cause, repository.revision revision = .error cause →
    ∃ fault, fault.kind = .source ∧ ∀ other, repository.range revision other = .error fault
  /-- A start that is no commit is a failure of the repository, whatever tag is given. -/
  startNotCommit : ∀ object, repository.revision revision = .ok object → object.commit? = none →
    ∃ fault, fault.kind = .repository ∧ ∀ other, repository.range revision other = .error fault
  /-- A tag that is not there is a fault of the source. -/
  noTag : repository.MeansCommit revision → ∀ name ∈ since, ¬repository.HasRef (tagRef name) →
    RefName.IsShort (tagRef name) →
    ∃ fault, repository.range revision since = .error fault ∧ fault.kind = .source ∧
      fault.detail = "Tag not found: " ++ name
  /-- A tag that is there, but about a tree, a blob or nothing, is a failure of the
      repository. -/
  tagNotCommit : repository.MeansCommit revision → ∀ name ∈ since,
    repository.HasRef (tagRef name) → ¬repository.TagMeansCommit name →
    ∃ fault, repository.range revision since = .error fault ∧ fault.kind = .repository
  /-- A tag that cannot be looked for is one as well. -/
  tagTooLong : repository.MeansCommit revision → ∀ name ∈ since, ¬RefName.IsShort (tagRef name) →
    ∃ fault, repository.range revision since = .error fault ∧ fault.kind = .repository

/-- A tag that leads to no commit is a failure of the repository, unless it is known that
    there is no such tag. -/
theorem range_of_otherTag (htable : repository.table.isSome) {name : String}
    (hvalid : RefName.isValid (tagRef name) = true) (hmeans : repository.MeansCommit revision)
    (hnot : ¬repository.TagMeansCommit name)
    (hother : RefName.IsShort (tagRef name) → repository.HasRef (tagRef name)) :
    ∃ fault, repository.range revision (some name) = .error fault ∧ fault.kind = .repository := by
  cases hcommit : repository.tagCommit name with
  | ok i => exact absurd ((tagMeansCommit_iff htable hvalid).2 ⟨i, hcommit⟩) hnot
  | error cause =>
      refine ⟨_, range_of_noTag hmeans hcommit, SourceFault.kind_tag_of_ne ?_⟩
      rintro other rfl
      obtain ⟨-, hnone, hshort⟩ := (tagCommit_eq_dangling_iff htable hvalid).1 hcommit
      exact hnone (hother hshort)

/-- Of a tag whose name is too long it is not known whether it is there. -/
theorem range_of_longTag (htable : repository.table.isSome) {name : String}
    (hvalid : RefName.isValid (tagRef name) = true) (hmeans : repository.MeansCommit revision)
    (hlong : ¬RefName.IsShort (tagRef name)) :
    ∃ fault, repository.range revision (some name) = .error fault ∧ fault.kind = .repository := by
  refine range_of_otherTag htable hvalid hmeans (fun htag => ?_) fun h => absurd h hlong
  obtain ⟨i, hi⟩ := (tagMeansCommit_iff htable hvalid).1 htag
  exact hlong (found_of_tagCommit htable hvalid hi).2

end Ranges

/-- In a repository in which everything can be read, the start of a range and the name of
    a tag decide whether the range can be read, and if not, what is said. -/
theorem range_outcome (repository : Repository) (hwhole : repository.history.Whole)
    (htable : repository.table.isSome) (revision : String) (since : Option String)
    (hsince : ∀ name ∈ since, RefName.isValid (tagRef name) = true) :
    repository.RangeOutcome revision since where
  read_iff := by
    rw [range_isOk_iff hwhole]
    refine and_congr_right fun _ => forall₂_congr fun name hname => ?_
    exact (tagMeansCommit_iff htable (hsince name hname)).symm
  read_without := fun hmeans => (range_isOk_iff hwhole).2 ⟨hmeans, nofun⟩
  noStart := by
    intro cause hcause
    have hstart : repository.start revision = .error (.revision revision cause) := by
      rw [start, hcause]
      rfl
    exact ⟨_, rfl, range_of_noStart hstart⟩
  startNotCommit := by
    intro object hobject hcommit
    cases hpeel : object.peelToCommit with
    | ok i =>
        rw [Object.peelToCommit_eq_ok_iff.1 hpeel] at hcommit
        cases hcommit
    | error cause =>
        have hstart : repository.start revision = .error (.startNotCommit cause) := by
          refine bind_eq_error_iff.2 (.inr ⟨object, mapError_eq_ok_iff.2 hobject, ?_⟩)
          exact mapError_eq_error_iff.2 ⟨cause, hpeel, rfl⟩
        exact ⟨_, rfl, range_of_noStart hstart⟩
  noTag := by
    rintro hmeans name ⟨⟩ hnone hshort
    have hcommit := (tagCommit_eq_dangling_iff htable (hsince name rfl)).2 ⟨rfl, hnone, hshort⟩
    exact ⟨_, range_of_noTag hmeans hcommit, rfl, rfl⟩
  tagNotCommit := by
    rintro hmeans name ⟨⟩ href hnot
    exact range_of_otherTag htable (hsince name rfl) hmeans hnot fun _ => href
  tagTooLong := by
    rintro hmeans name ⟨⟩ hlong
    exact range_of_longTag htable (hsince name rfl) hmeans hlong

theorem parted_meansCommit : parted.MeansCommit "HEAD" :=
  meansCommit_iff.2 ⟨⟨3, by decide⟩, rfl⟩

theorem parted_range_outcome :
    parted.history.Whole ∧ parted.table.isSome ∧
      (∀ name ∈ ["v2", "files", "v9"], RefName.isValid (tagRef name) = true) ∧
      (∃ range, parted.range "HEAD" (some "v2") = .ok range) ∧
      (∃ fault, parted.range "HEAD" (some "v9") = .error fault ∧ fault.kind = .source ∧
        fault.detail = "Tag not found: v9") ∧
      (∃ fault, parted.range "HEAD" (some "files") = .error fault ∧ fault.kind = .repository) ∧
      (∃ fault, fault.kind = .repository ∧
        ∀ other, parted.range "files" other = .error fault) ∧
      ∃ fault, fault.kind = .source ∧ ∀ other, parted.range "nowhere" other = .error fault := by
  have hwhole : parted.history.Whole := by decide
  have hvalid : ∀ name ∈ ["v2", "files", "v9"], RefName.isValid (tagRef name) = true := by decide
  have houtcome : ∀ revision, ∀ name ∈ ["v2", "files", "v9"],
      parted.RangeOutcome revision (some name) := by
    intro revision name hname
    refine range_outcome parted hwhole rfl revision (some name) ?_
    rintro _ ⟨⟩
    exact hvalid name hname
  have hfiles : parted.tagObject "files" = .ok (.tree "f") := rfl
  have hread : parted.TagMeansCommit "v2" :=
    ⟨⟨.hash "t" none, .inl (by decide)⟩,
      .tag "t" (.tag "u" (.commit ⟨2, by decide⟩)), ⟨2, by decide⟩, rfl, rfl⟩
  have htree : ¬parted.TagMeansCommit "files" := by
    rintro ⟨-, object, i, hobject, hcommit⟩
    rw [← Except.ok.inj (hfiles.symm.trans hobject)] at hcommit
    cases hcommit
  have href : parted.ref (tagRef "v9") = .error (.dangling (tagRef "v9")) := rfl
  have hnone : ¬parted.HasRef (tagRef "v9") := ((ref_eq_dangling_iff rfl).1 href).2
  refine ⟨hwhole, rfl, hvalid, ?_, ?_, ?_, ?_, ?_⟩
  · exact (houtcome "HEAD" "v2" (by simp)).read_iff.2
      ⟨parted_meansCommit, by rintro _ ⟨⟩; exact hread⟩
  · exact (houtcome "HEAD" "v9" (by simp)).noTag parted_meansCommit _ rfl hnone
      ⟨by decide, by decide⟩
  · exact (houtcome "HEAD" "files" (by simp)).tagNotCommit parted_meansCommit _ rfl
      ⟨.hash "f" none, .inl (by decide)⟩ htree
  · exact (houtcome "files" "v2" (by simp)).startNotCommit (.tree "f") rfl rfl
  · exact (houtcome "nowhere" "v2" (by simp)).noStart (.notFound "nowhere") rfl

/-- A name of a tag with this many letters. -/
def longTag (length : Nat) : String := String.ofList (List.replicate length 'v')

theorem toList_tagRef_longTag (length : Nat) :
    (tagRef (longTag length)).toList = "refs/tags/".toList ++ List.replicate length 'v' := by
  simp only [tagRef, longTag, String.toList_append, String.toList_ofList]

/-- A tag may have a name that no reference can be looked for under. It is not said then
    that there is no such tag. -/
theorem parted_range_longTag :
    parted.history.Whole ∧ parted.table.isSome ∧ parted.MeansCommit "HEAD" ∧
      RefName.isValid (tagRef (longTag 1014)) = true ∧
      ¬parted.HasRef (tagRef (longTag 1014)) ∧
      ∃ fault, parted.range "HEAD" (some (longTag 1014)) = .error fault ∧
        fault.kind = .repository := by
  have hvalid : RefName.isValid (tagRef (longTag 1014)) = true := by
    unfold RefName.isValid
    rw [toList_tagRef_longTag]
    decide +kernel
  have hlong : RefName.fits (tagRef (longTag 1014)) = false := by decide +kernel
  refine ⟨by decide, rfl, parted_meansCommit, hvalid, ?_, ?_⟩
  · -- The names of all references fit.
    have hfits : ∀ ref ∈ parted.refs, RefName.fits ref.1 = true := by decide
    rintro ⟨target, hmem | ⟨table, ⟨⟩, hmem⟩⟩
    · rw [hfits _ hmem] at hlong
      cases hlong
    · cases hmem
  · exact range_of_longTag rfl hvalid parted_meansCommit fun h => absurd h.1 (by simp [hlong])

end Repository

end ReleaseNotes
