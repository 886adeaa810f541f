import ReleaseNotes.Proofs.History.Range

/-!
# The Latest Release

Which tag a range starts behind when none is given.

A tag marks a commit if that is what is left of its object when its tags are
taken off. A tag of a tree or a blob marks nothing. Of the commits that a start
leads to and that are marked, the latest release is at one that none of the
others leads to. There can be several of these where the history parts, and it
is not said which of them is taken. If several tags mark the same commit, the
one whose name is last counts.

The release is found by going along a walk up to the first marked commit. The
walk shows no commit before one that leads to it, so what comes before the first
marked commit is not marked, and what comes behind it does not lead to it.
Nothing has to be known about times for that, since nothing is hidden in this
walk.

The tags are listed as a whole, and a tag that leads through references to
nothing breaks the list. So that no tag is found where there is one has to be
excluded by `Listable`. A tag that is found is the right one in any case, for
then the list was not broken.

## Main definitions

* `Repository.Marks`: A tag is about a commit.
* `Repository.Listable`: No tag breaks the list of tags.
* `Repository.IsLatest`: A tag is the latest release before a start.

## Theorems

* `Repository.tagOf_eq_some`: The tag that counts for a commit.
* `Repository.latestTag_eq_none`, `Repository.latestTag_eq_some`: What is found
  along a walk.
* `Repository.range_behind_latest`: The tag that a range starts behind.
-/

namespace ReleaseNotes

namespace Object

variable {history : History}

/-- An object is peeled to a commit if it leads to one when its tags are taken
    off. -/
theorem peelToCommit_eq_ok_iff {object : Object history} {i : history.Position} :
    object.peelToCommit = .ok i ↔ object.commit? = some i := by
  unfold peelToCommit
  split
  · rename_i hcommit
    rw [hcommit, Except.ok.injEq, Option.some.injEq]
  all_goals
    rename_i hcommit
    rw [hcommit]
    simp

end Object

namespace Repository

variable {repository : Repository}

/-- The tag is recorded, and its object leads to this commit when its tags are
    taken off. -/
def Marks (repository : Repository) (name : String) (i : repository.history.Position) : Prop :=
  name ∈ repository.tags ∧
    ∃ object, repository.tagObject name = .ok object ∧ object.commit? = some i

/-- Every tag leads to a hash, so none of them breaks the list of tags. -/
def Listable (repository : Repository) : Prop :=
  ∀ name ∈ repository.tags, ∃ lead, repository.resolve (tagRef name) = .ok lead

/-- The tag is the latest release at a commit that a start leads to: no other
    marked commit that the start leads to leads to this one, and no tag of it has
    a later name. -/
structure IsLatest (repository : Repository) (start : repository.history.Position)
    (name : String) (i : repository.history.Position) : Prop where
  marks : repository.Marks name i
  reached : repository.history.LeadsTo start i
  newest : ∀ other j, repository.Marks other j → repository.history.LeadsTo start j → j ≠ i →
    ¬repository.history.LeadsTo j i
  last : ∀ other, repository.Marks other i → other ≤ name

section Tagged

theorem tagCommit_eq_ok_iff {name : String} {i : repository.history.Position} :
    repository.tagCommit name = .ok i ↔
      ∃ object, repository.tagObject name = .ok object ∧ object.commit? = some i := by
  simp only [tagCommit, bind, Except.bind, ← Object.peelToCommit_eq_ok_iff]
  cases repository.tagObject name with
  | error fault => simp
  | ok object => cases hpeel : object.peelToCommit <;> simp [Except.mapError, hpeel]

/-- If something is listed, everything is. -/
theorem listable_of_mem_listedTags {name : String} (h : name ∈ repository.listedTags) :
    repository.Listable ∧ name ∈ repository.tags := by
  unfold listedTags at h
  split at h
  · rename_i hall
    refine ⟨fun other hother => ?_, h⟩
    have hsome := List.all_eq_true.1 hall other hother
    cases hresolve : repository.resolve (tagRef other) with
    | ok lead => exact ⟨lead, rfl⟩
    | error fault =>
        rw [hresolve] at hsome
        cases hsome
  · cases h

theorem listedTags_of_listable (h : repository.Listable) :
    repository.listedTags = repository.tags := by
  unfold listedTags
  rw [if_pos]
  rw [List.all_eq_true]
  intro name hname
  obtain ⟨lead, hlead⟩ := h name hname
  rw [hlead]
  rfl

theorem mem_tagged_iff {name : String} {i : repository.history.Position} :
    (i, name) ∈ repository.tagged ↔
      name ∈ repository.listedTags ∧ repository.tagCommit name = .ok i := by
  simp only [tagged, List.mem_filterMap, Option.map_eq_some_iff, Prod.mk.injEq]
  constructor
  · rintro ⟨other, hlisted, j, hcommit, rfl, rfl⟩
    refine ⟨hlisted, ?_⟩
    cases hok : repository.tagCommit other with
    | ok k =>
        rw [hok] at hcommit
        rw [Option.some.inj hcommit]
    | error fault =>
        rw [hok] at hcommit
        cases hcommit
  · rintro ⟨hlisted, hcommit⟩
    exact ⟨name, hlisted, i, by rw [hcommit]; rfl, rfl, rfl⟩

/-- Listed tags mark what they are listed with. -/
theorem marks_of_mem_tagged {name : String} {i : repository.history.Position}
    (h : (i, name) ∈ repository.tagged) : repository.Marks name i := by
  obtain ⟨hlisted, hcommit⟩ := mem_tagged_iff.1 h
  exact ⟨(listable_of_mem_listedTags hlisted).2, tagCommit_eq_ok_iff.1 hcommit⟩

/-- All tags that mark something are listed, unless the list is broken. -/
theorem mem_tagged_of_marks (hlistable : repository.Listable) {name : String}
    {i : repository.history.Position} (h : repository.Marks name i) :
    (i, name) ∈ repository.tagged := by
  rw [mem_tagged_iff, listedTags_of_listable hlistable]
  exact ⟨h.1, tagCommit_eq_ok_iff.2 h.2⟩

end Tagged

section Last

/-- The later of two names is one of them, and no earlier than either. -/
theorem laterName_spec (a b : String) :
    a ≤ laterName a b ∧ b ≤ laterName a b ∧ (laterName a b = a ∨ laterName a b = b) := by
  unfold laterName
  split
  · rename_i hlt
    exact ⟨Std.le_of_lt hlt, Std.le_refl b, .inr rfl⟩
  · rename_i hnot
    exact ⟨Std.le_refl a, Std.not_lt.1 hnot, .inl rfl⟩

/-- The last of some names is one of them, and none of them is later. -/
theorem foldl_laterName_spec (name : String) (names : List String) :
    names.foldl laterName name ∈ name :: names ∧
      ∀ other ∈ name :: names, other ≤ names.foldl laterName name := by
  induction names generalizing name with
  | nil => simp
  | cons next rest ih =>
      obtain ⟨hleft, hright, hone⟩ := laterName_spec name next
      obtain ⟨hmem, hle⟩ := ih (laterName name next)
      have hfirst := hle (laterName name next) List.mem_cons_self
      rw [List.foldl_cons]
      refine ⟨?_, fun other hother => ?_⟩
      · rcases List.mem_cons.1 hmem with heq | hmem
        · rw [heq]
          rcases hone with hone | hone <;> simp [hone]
        · exact List.mem_cons_of_mem _ (List.mem_cons_of_mem _ hmem)
      · -- The first two names are not later than the later one of them.
        rcases List.mem_cons.1 hother with rfl | hother
        · exact Std.le_trans hleft hfirst
        · rcases List.mem_cons.1 hother with rfl | hother
          · exact Std.le_trans hright hfirst
          · exact hle other (List.mem_cons_of_mem _ hother)

variable {tagged : List (repository.history.Position × String)}
variable {i : repository.history.Position}

theorem mem_names_iff {name : String} :
    (name ∈ tagged.filterMap fun entry => if entry.1 = i then some entry.2 else none) ↔
      (i, name) ∈ tagged := by
  rw [List.mem_filterMap]
  constructor
  · rintro ⟨⟨j, other⟩, hmem, hentry⟩
    split at hentry
    · rename_i hji
      obtain rfl := Option.some.inj hentry
      exact hji ▸ hmem
    · cases hentry
  · intro hmem
    exact ⟨(i, name), hmem, if_pos rfl⟩

/-- A tag counts for a commit unless no tag is listed with it. -/
theorem tagOf_eq_none (h : tagOf repository tagged i = none) (name : String) :
    (i, name) ∉ tagged := by
  unfold tagOf at h
  split at h
  · rename_i hnil
    rw [← mem_names_iff, hnil]
    exact List.not_mem_nil
  · cases h

/-- The tag that counts for a commit is listed with it, and has the last name of
    those that are. -/
theorem tagOf_eq_some {name : String} (h : tagOf repository tagged i = some name) :
    (i, name) ∈ tagged ∧ ∀ other, (i, other) ∈ tagged → other ≤ name := by
  unfold tagOf at h
  split at h
  · cases h
  · rename_i first rest hnames
    obtain ⟨hmem, hle⟩ := foldl_laterName_spec first rest
    rw [Option.some.inj h] at hmem hle
    rw [← hnames] at hmem hle
    exact ⟨mem_names_iff.1 hmem, fun other hother => hle other (mem_names_iff.2 hother)⟩

end Last

section Latest

variable {start : repository.history.Position}

theorem release_none_eq_ok_iff {release : Option (String × repository.history.Position)} :
    repository.release start none = .ok release ↔ repository.latestTag start = .ok release := by
  unfold Repository.release
  cases repository.latestTag start <;> simp [Except.mapError]

/-- A release is looked for along a walk of all that the start leads to, unless no
    tag is listed. -/
theorem latestTag_eq_ok {release : Option (String × repository.history.Position)}
    (h : repository.latestTag start = .ok release) :
    repository.tagged = [] ∧ release = none ∨
      ∃ walk, repository.history.between start none = .ok walk ∧
        release = walk.findSome? fun i =>
          (repository.tagOf repository.tagged i).map fun name => (name, i) := by
  simp only [latestTag] at h
  split at h
  · rename_i hempty
    exact .inl ⟨List.isEmpty_iff.1 hempty, (Except.ok.inj h).symm⟩
  · right
    cases hwalk : repository.history.between start none with
    | error fault =>
        rw [hwalk] at h
        cases h
    | ok walk =>
        rw [hwalk] at h
        exact ⟨walk, rfl, (Except.ok.inj h).symm⟩

/-- If no release is found, no commit is marked that the start leads to. -/
theorem latestTag_eq_none (hlistable : repository.Listable)
    (h : repository.latestTag start = .ok none) (name : String)
    (i : repository.history.Position) (hmarks : repository.Marks name i) :
    ¬repository.history.LeadsTo start i := by
  intro hlead
  have htagged := mem_tagged_of_marks hlistable hmarks
  rcases latestTag_eq_ok h with ⟨hnil, -⟩ | ⟨walk, hwalk, hnone⟩
  · rw [hnil] at htagged
    cases htagged
  · obtain ⟨-, -, hmem⟩ := History.shown_between hwalk (.inl rfl)
    have hi := List.findSome?_eq_none_iff.1 hnone.symm i ((hmem i).2 ⟨hlead, by simp⟩)
    exact tagOf_eq_none (Option.map_eq_none_iff.1 hi) name htagged

/-- A release that is found is the latest one. -/
theorem latestTag_eq_some {name : String} {i : repository.history.Position}
    (h : repository.latestTag start = .ok (some (name, i))) :
    repository.IsLatest start name i := by
  rcases latestTag_eq_ok h with ⟨-, hnone⟩ | ⟨walk, hwalk, hsome⟩
  · cases hnone
  · obtain ⟨hnodup, hparents, hmem⟩ := History.shown_between hwalk (.inl rfl)
    -- The walk shows all that the start leads to, so no commit on a path is left out.
    have horder := History.pairwise_not_leadsTo hnodup hparents fun j hj _ _ k hjk _ =>
      (hmem k).2 ⟨((hmem j).1 hj).1.trans hjk, by simp⟩
    obtain ⟨before, j, after, hsplit, hfound, hbefore⟩ :=
      List.findSome?_eq_some_iff.1 hsome.symm
    obtain ⟨other, hname, hpair⟩ := Option.map_eq_some_iff.1 hfound
    obtain ⟨rfl, rfl⟩ := Prod.mk.inj hpair
    obtain ⟨htagged, hlast⟩ := tagOf_eq_some hname
    have hlistable := (listable_of_mem_listedTags (mem_tagged_iff.1 htagged).1).1
    rw [hsplit, List.pairwise_append, List.pairwise_cons] at horder
    constructor
    · exact marks_of_mem_tagged htagged
    · exact ((hmem j).1 (by simp [hsplit])).1
    · intro name' k hmarks hlead hne
      have hk : k ∈ before ++ j :: after := hsplit ▸ (hmem k).2 ⟨hlead, by simp⟩
      rcases List.mem_append.1 hk with hk | hk
      · have hnone := Option.map_eq_none_iff.1 (hbefore k hk)
        exact absurd (mem_tagged_of_marks hlistable hmarks) (tagOf_eq_none hnone name')
      · exact horder.2.1.1 k ((List.mem_cons.1 hk).resolve_left hne)
    · intro name' hmarks
      exact hlast name' (mem_tagged_of_marks hlistable hmarks)

end Latest

/-- A range that is read without a tag being given starts behind the latest
    release. If the tags can be listed, it starts behind none just when the start
    leads to no marked commit. A tag of something else is never taken. The range
    can be read if what the start leads to can be. -/
theorem range_behind_latest (repository : Repository) (revision : String)
    {start : repository.history.Position} (hstart : repository.start revision = .ok start) :
    (repository.history.WholeFrom [start] → ∃ range, repository.range revision none = .ok range) ∧
    ∀ range, repository.range revision none = .ok range →
      (repository.Listable → (range.sinceTag = none ↔
        ∀ name i, repository.Marks name i → ¬repository.history.LeadsTo start i)) ∧
      (∀ name, range.sinceTag = some name → ∃ i, repository.IsLatest start name i) ∧
      ∀ name object, repository.tagObject name = .ok object → object.commit? = none →
        range.sinceTag ≠ some name := by
  constructor
  · intro hwhole
    obtain ⟨release, hrelease⟩ := latestTag_isOk hwhole
    -- The boundary lies behind the start, so what it leads to can be read as well.
    have hboundary : repository.history.WholeFrom (release.map (·.2)).toList := by
      rcases release with _ | ⟨name, i⟩
      · rintro i ⟨j, hj, -⟩
        cases hj
      · exact hwhole.of_leadsTo (latestTag_eq_some hrelease).reached
    obtain ⟨shown, hshown⟩ := History.between_isOk (hboundary.append hwhole)
    exact ⟨_, (range_eq_ok_iff hstart).2
      ⟨release, shown, release_none_eq_ok_iff.2 hrelease, hshown, rfl⟩⟩
  · intro range hrange
    obtain ⟨release, shown, hrelease, -, rfl⟩ := (range_eq_ok_iff hstart).1 hrange
    have hlatest := release_none_eq_ok_iff.1 hrelease
    have hsome : ∀ name, (repository.rangeOf start release shown).sinceTag = some name →
        ∃ i, repository.IsLatest start name i := by
      intro name hname
      obtain ⟨⟨other, i⟩, rfl, rfl⟩ := Option.map_eq_some_iff.1 hname
      exact ⟨i, latestTag_eq_some hlatest⟩
    refine ⟨fun hlistable => ⟨fun hnone => ?_, fun hnone => ?_⟩, hsome,
      fun name object hobject hcommit hname => ?_⟩
    · rw [Option.map_eq_none_iff.1 hnone] at hlatest
      exact latestTag_eq_none hlistable hlatest
    · rw [Option.eq_none_iff_forall_ne_some]
      intro name hname
      obtain ⟨i, hi⟩ := hsome name hname
      exact hnone name i hi.marks hi.reached
    · obtain ⟨i, hi⟩ := hsome name hname
      obtain ⟨-, other, hother, hi⟩ := hi.marks
      rw [hobject] at hother
      rw [Except.ok.inj hother, hi] at hcommit
      cases hcommit

/-- References that are listed in order are left as they are, if the table has no
    others. -/
theorem namesIn_eq_of_sorted {place : String} {names : List String}
    (h : repository.namesIn place =
      names.mergeSort (fun a b => a ≤ b) ++ [].mergeSort fun a b => a ≤ b)
    (hsorted : names.Pairwise fun a b => decide (a ≤ b) = true) :
    repository.namesIn place = names := by
  rw [h, List.mergeSort_of_pairwise hsorted, List.mergeSort_nil, List.append_nil]

/-- A history of five commits. It parts and comes together again in the fourth
    one. The last one is beside that, and later. -/
def partedHistory : History :=
  let commit (parents : List String) (time : Int) : CommitContent :=
    { tree := "", parents, time, author := .empty, message := .empty }
  .ofList .missing
    [("a", commit [] 1), ("b", commit ["a"] 5), ("c", commit ["a"] 2),
      ("d", commit ["b", "c"] 6), ("e", commit ["a"] 9)]

/-- A repository with tags of the first commit, of the third one, by way of
    another tag and directly, of a tree, and of the commit beside the others. -/
def parted : Repository where
  history := partedHistory
  objects := [("t", .tag "t" (.tag "u" (.commit ⟨2, by decide⟩))), ("f", .tree "f")]
  entries := fun _ => []
  refs :=
    [("HEAD", .hash "d" none), ("refs/tags/files", .hash "f" none),
      ("refs/tags/v1", .hash "a" none), ("refs/tags/v2", .hash "t" none),
      ("refs/tags/v2-b", .hash "c" none), ("refs/tags/v3", .hash "e" none)]
  table := some []
  logs := []
  settings := []

theorem tags_parted : parted.tags = ["files", "v1", "v2", "v2-b", "v3"] := by
  rw [tags, namesIn_eq_of_sorted rfl (by decide)]
  rfl

theorem parted_range_behind_latest :
    ∃ start, parted.start "HEAD" = .ok start ∧ parted.Listable ∧
      ∃ range name i, parted.range "HEAD" none = .ok range ∧ range.sinceTag = some name ∧
        parted.IsLatest start name i := by
  have hstart : parted.start "HEAD" = .ok ⟨3, by decide⟩ := rfl
  have hwhole : parted.history.Whole := by decide
  have hlistable : parted.Listable := by
    unfold Listable
    rw [tags_parted]
    simp only [List.forall_mem_cons]
    exact ⟨⟨_, rfl⟩, ⟨_, rfl⟩, ⟨_, rfl⟩, ⟨_, rfl⟩, ⟨_, rfl⟩, by simp⟩
  obtain ⟨hread, hright⟩ := range_behind_latest parted "HEAD" hstart
  obtain ⟨range, hrange⟩ := hread (hwhole.wholeFrom _)
  obtain ⟨hnone, hsome, -⟩ := hright range hrange
  -- The third commit is marked, and the start leads to it.
  have hmarks : parted.Marks "v2-b" ⟨2, by decide⟩ := by
    refine ⟨?_, .commit ⟨2, by decide⟩, rfl, rfl⟩
    rw [tags_parted]
    decide
  have hne : range.sinceTag ≠ none := fun h =>
    (hnone hlistable).1 h "v2-b" _ hmarks (.single (by decide))
  obtain ⟨name, hname⟩ := Option.ne_none_iff_exists'.1 hne
  obtain ⟨i, hi⟩ := hsome name hname
  exact ⟨_, hstart, hlistable, range, name, i, hrange, hname, hi⟩

end Repository

end ReleaseNotes
