import ReleaseNotes.Proofs.History.Failure
import ReleaseNotes.Proofs.Storage.Making

/-!
# The History of a Survey

A survey that has been made piece by piece has the history that was put into it, and the
history stands where it was made to stand.

Commits that stand behind their parents are recorded one after the other, each with its
parents by their positions. A position is found by the hash, and since commits are only
ever added at the end it is the same at the end as at the time of recording. So the
records can be told from the list of commits alone (`History.Records`). Nothing is
missing from such a history, and every hash of a commit stands for the commit.

Where the history stands is a hash, or a branch that leads to one
(`Survey.StandsAt`). A branch that is changed takes the history along if it stands there.
The repository that is read tells the same, so notes can be made of it from there.

## Main definitions

* `History.hashes`: The hashes of the commits.
* `History.recordAmong`: A commit as it is recorded among others.
* `History.Records`: A history of these commits.
* `Survey.StandsAt`: The history stands at a hash.

## Theorems

* `History.exists_ofHash?`: A hash is found at its position.
* `History.Records.foldl_add`: Commits that stand behind their parents are recorded as
  they stand.
* `History.Records.whole`: A history of such commits has no gaps.
* `Repository.start_headRef`: The place where the history stands, as a start.
* `Survey.IsSound.records_reread`: The repository that is read has the commits of the
  survey.
* `Survey.tagged?_addTag`: What a tag leads to that has been added.
* `Survey.standsAt_detach`, `Survey.standsAt_addBranch`: Where the history is made to
  stand.
* `Survey.IsSound.range_isOk`: A range can be read from where the history stands.
-/

namespace ReleaseNotes

open Storage

namespace History

variable {history : History} {hash : String} {commit : String × CommitContent}
variable {commits : List (String × CommitContent)}

section positions

/-- The hashes of the commits, parents first. -/
def hashes (history : History) : List String :=
  history.records.toList.map (·.hash)

/-- A hash is found at its position. -/
theorem exists_ofHash? (h : hash ∈ history.hashes) :
    ∃ i, history.ofHash? hash = some i ∧ (history.record i).hash = hash ∧
      i.val = history.hashes.idxOf hash := by
  obtain ⟨record, hrecord, hhash⟩ := List.mem_map.1 h
  obtain ⟨n, hn, hget⟩ := List.mem_iff_getElem.1 hrecord
  have hsome : (history.ofHash? hash).isSome = true := by
    refine List.find?_isSome.2 ⟨⟨n, by simpa using hn⟩, List.mem_finRange _, ?_⟩
    rw [beq_iff_eq, ← hhash, ← hget]
    rfl
  obtain ⟨i, hi⟩ := Option.isSome_iff_exists.1 hsome
  have hfound : (history.record i).hash = hash := by
    have hbeq := List.find?_some hi
    exact eq_of_beq hbeq
  have hlt : i.val < history.hashes.length := by
    rw [hashes, List.length_map, Array.length_toList]
    exact i.isLt
  have hget : history.hashes[i.val] = hash := by
    rw [← hfound]
    exact List.getElem_map _
  -- No hash is there twice, so its only place is the first one.
  refine ⟨i, hi, hfound, ?_⟩
  rw [← hget]
  exact (history.distinct.idxOf_getElem i.val hlt).symm

end positions

section records

/-- A commit as it is recorded among commits with these hashes, which are those of its
    parents and others. -/
def recordAmong (hashes : List String) (commit : String × CommitContent) : CommitRecord where
  hash := commit.1
  tree := commit.2.tree
  parents := commit.2.parents.map fun parent => .at (hashes.idxOf parent)
  time := commit.2.time
  author := commit.2.author
  message := commit.2.message

/-- A commit is recorded as one among those that are there. -/
theorem recordOf_eq (reason : String → ReadFault)
    (h : ∀ parent ∈ commit.2.parents, parent ∈ history.hashes) :
    history.recordOf reason commit.1 commit.2 = recordAmong history.hashes commit := by
  have hparents : (history.recordOf reason commit.1 commit.2).parents =
      commit.2.parents.map fun parent => .at (history.hashes.idxOf parent) := by
    refine List.map_congr_left fun parent hparent => ?_
    obtain ⟨i, hi, -, hval⟩ := exists_ofHash? (h parent hparent)
    rw [hi, ← hval]
  rw [recordAmong, ← hparents]
  rfl

/-- More commits behind those of the parents make no difference. -/
theorem recordAmong_append {others more : List String}
    (h : ∀ parent ∈ commit.2.parents, parent ∈ others) :
    recordAmong (others ++ more) commit = recordAmong others commit := by
  have hparents : (commit.2.parents.map fun parent => Parent.at ((others ++ more).idxOf parent)) =
      commit.2.parents.map fun parent => .at (others.idxOf parent) :=
    List.map_congr_left fun parent hparent => by
      rw [List.idxOf_append_of_mem (h parent hparent)]
  rw [recordAmong, hparents, recordAmong]

/-- The history has these commits as they stand, each recorded among all of them. -/
def Records (history : History) (commits : List (String × CommitContent)) : Prop :=
  history.records.toList = commits.map (recordAmong (commits.map (·.1)))

theorem Records.hashes_eq (h : history.Records commits) :
    history.hashes = commits.map (·.1) := by
  rw [hashes, h, List.map_map]
  rfl

/-- One more commit is recorded behind those of its parents. -/
theorem Records.add (h : history.Records commits)
    (hclosed : ∀ other ∈ commits, ∀ parent ∈ other.2.parents, parent ∈ commits.map (·.1))
    (hnew : commit.1 ∉ commits.map (·.1))
    (hparents : ∀ parent ∈ commit.2.parents, parent ∈ commits.map (·.1))
    (reason : String → ReadFault) :
    (history.add reason commit.1 commit.2).Records (commits ++ [commit]) := by
  have hhashes := h.hashes_eq
  rw [← hhashes] at hnew hparents
  have hnot : commit.1 ∉ history.records.toList.map (·.hash) := hnew
  rw [Records, History.add, dif_neg hnot, Array.toList_push, recordOf_eq reason hparents, h,
    List.map_append, List.map_append, List.map_singleton, List.map_singleton, ← hhashes,
    recordAmong_append hparents]
  refine congrArg (· ++ _) (List.map_congr_left fun other hother => ?_)
  exact (recordAmong_append (hhashes ▸ hclosed other hother)).symm

/-- Commits that stand behind their parents are recorded as they stand. -/
theorem Records.foldl_add {later : List (String × CommitContent)} (h : history.Records commits)
    (hclosed : ∀ commit ∈ commits, ∀ parent ∈ commit.2.parents, parent ∈ commits.map (·.1))
    (hknown : ∀ commit ∈ later, ∀ parent ∈ commit.2.parents,
      parent ∈ (commits ++ later).map (·.1))
    (honce : ((commits ++ later).map (·.1)).Nodup) (hahead : Survey.ParentsAhead later)
    (reason : String → ReadFault) :
    (later.foldl (fun history commit => history.add reason commit.1 commit.2) history).Records
      (commits ++ later) := by
  induction later generalizing history commits with
  | nil => rwa [List.append_nil]
  | cons commit later ih =>
      -- The parents of the next commit are not behind it, so they have been recorded.
      have hparents : ∀ parent ∈ commit.2.parents, parent ∈ commits.map (·.1) := by
        intro parent hparent
        have hmem := hknown commit List.mem_cons_self parent hparent
        rw [List.map_append, List.mem_append] at hmem
        refine hmem.resolve_right fun hbehind => ?_
        obtain ⟨other, hother, rfl⟩ := List.mem_map.1 hbehind
        exact hahead.1 other hother hparent
      have hnew : commit.1 ∉ commits.map (·.1) := fun hmem => by
        rw [List.map_append] at honce
        exact (List.nodup_append.1 honce).2.2 _ hmem _ List.mem_cons_self rfl
      have hassoc : commits ++ commit :: later = commits ++ [commit] ++ later := by
        rw [List.append_assoc]
        rfl
      rw [hassoc] at hknown honce ⊢
      refine ih (h.add hclosed hnew hparents reason) ?_
        (fun other hother => hknown other (List.mem_cons_of_mem _ hother)) honce hahead.2
      intro other hother parent hparent
      rw [List.map_append]
      rcases List.mem_append.1 hother with hother | hother
      · exact List.mem_append_left _ (hclosed other hother parent hparent)
      · rw [List.mem_singleton.1 hother] at hparent
        exact List.mem_append_left _ (hparents parent hparent)

/-- A history is made of commits that stand behind their parents as they stand. -/
theorem records_ofList (hknown : ∀ commit ∈ commits, ∀ parent ∈ commit.2.parents,
      parent ∈ commits.map (·.1)) (honce : (commits.map (·.1)).Nodup)
    (hahead : Survey.ParentsAhead commits) (reason : String → ReadFault) :
    (ofList reason commits).Records commits :=
  have hempty : empty.Records [] := rfl
  hempty.foldl_add nofun hknown honce hahead reason

/-- A history of such commits has no gaps. -/
theorem Records.whole (h : history.Records commits) : history.Whole := by
  intro i
  rw [gap?, List.findSome?_eq_none_iff]
  intro link hlink
  obtain ⟨parent, hparent, hsome⟩ := List.mem_filterMap.1 hlink
  have hrecord : history.record i ∈ commits.map (recordAmong (commits.map (·.1))) := by
    rw [← h]
    exact Array.mem_toList_iff.2 (Array.getElem_mem i.isLt)
  obtain ⟨commit, -, hcommit⟩ := List.mem_map.1 hrecord
  rw [← hcommit] at hparent
  obtain ⟨hash, -, rfl⟩ := List.mem_map.1 hparent
  obtain ⟨position, -, rfl⟩ := Option.map_eq_some_iff.1 hsome
  rfl

/-- A commit that is recorded says what it said. -/
theorem Records.exists_ofHash? (h : history.Records commits) (hmem : commit ∈ commits)
    (honce : (commits.map (·.1)).Nodup) :
    ∃ i, history.ofHash? commit.1 = some i ∧
      history.record i = recordAmong (commits.map (·.1)) commit := by
  have hhash : commit.1 ∈ history.hashes := by
    rw [h.hashes_eq]
    exact List.mem_map_of_mem hmem
  obtain ⟨i, hi, hfound, -⟩ := History.exists_ofHash? hhash
  refine ⟨i, hi, ?_⟩
  have hrecord : history.record i ∈ commits.map (recordAmong (commits.map (·.1))) := by
    rw [← h]
    exact Array.mem_toList_iff.2 (Array.getElem_mem i.isLt)
  obtain ⟨other, hother, hsame⟩ := List.mem_map.1 hrecord
  -- What is found has the same hash, so it is the same commit.
  have hkey : other.1 = commit.1 := by
    rw [← hfound, ← hsame]
    rfl
  rw [← hsame, List.inj_on_of_nodup_map honce hother hmem hkey]

end records

end History

namespace Repository

variable {repository : Repository} {commits : List (String × CommitContent)}
variable {commit : String × CommitContent}

/-- The hash of a commit that is recorded stands for it. -/
theorem object_of_records (h : repository.history.Records commits) (hmem : commit ∈ commits)
    (honce : (commits.map (·.1)).Nodup) (hzero : commit.1 ≠ zeroHash) :
    ∃ i, repository.object commit.1 = .ok (.commit i) ∧
      repository.history.record i = History.recordAmong (commits.map (·.1)) commit := by
  obtain ⟨i, hi, hrecord⟩ := h.exists_ofHash? hmem honce
  refine ⟨i, ?_, hrecord⟩
  rw [object, if_neg (mt eq_of_beq hzero), hi]

/-- The name of the place where the history stands means the commit that it stands at. -/
theorem start_headRef {lead : Lead} (hresolve : repository.resolve headRef = .ok lead)
    {i : repository.history.Position} (hobject : repository.object lead.hash = .ok (.commit i)) :
    repository.start headRef = .ok i := by
  have hplaces : firstRef repository (places headRef) = .ok (some lead) := by
    have hvalid : RefName.isValid headRef = true := by decide
    rw [show places headRef = headRef :: _ from rfl, firstRef, hvalid, hresolve]
    rfl
  have hfull : repository.fullHash? headRef = .ok none := rfl
  have hshort : repository.shorthand? headRef = .ok (some lead) := by
    rw [shorthand?, hplaces]
    rfl
  have hled : repository.ledTo lead = .ok (.commit i) := by
    rw [ledTo, hobject]
    rfl
  have hfind : repository.find headRef = .ok (.commit i) := by
    rw [find, hfull, hshort]
    show (do return (← repository.ledTo lead)) = _
    rw [hled]
  rw [start_eq_ok_iff]
  exact ⟨.commit i, hfind, rfl⟩

end Repository

namespace Storage.Survey

variable {survey : Survey} {name hash : String} {dates : String → Option Int}

/-- The history of a survey that can be laid out records the commits that can be read. -/
theorem IsSound.records_history (h : survey.IsSound) (index : Index) :
    (survey.history index).Records survey.readable := by
  have honce := h.nodup_readable
  rw [history_of_parentsAhead honce h.ahead]
  exact History.records_ofList h.known honce h.ahead index.reason

/-- So does that of the repository that is read. -/
theorem IsSound.records_reread (h : survey.IsSound) (dates : String → Option Int) :
    (survey.reread.repository dates).history.Records survey.readable := by
  rw [repository_reread h.toIsOrderly]
  exact h.records_history survey.index

/-- A name under which a hash is kept leads to it. -/
theorem resolve_of_lookup (h : survey.table = some []) {text : String}
    (hname : Repository.lookedFor text = .ok name)
    (hlookup : survey.refs.lookup name = some (.hash hash none)) :
    (survey.repository dates).resolve text = .ok ⟨name, hash, none⟩ := by
  rw [Repository.resolve, hname, ok_bind, (ref_eq_ok_iff h).2 ⟨hlookup, by simp⟩, ok_bind,
    Repository.follow]

/-- A tag that has been added leads to the hash that it is about, or to the object that it is
    itself. -/
theorem tagged?_addTag (h : survey.table = some [])
    (hname : Repository.lookedFor (Repository.tagRef name) = .ok (Repository.tagRef name))
    (annotated : Bool) :
    (survey.addTag name annotated hash).tagged? name =
      some (if annotated then survey.freshHash else hash) := by
  have htagged {other : Survey} (htable : other.table = some []) {found : String} :
      (other.setRef (Repository.tagRef name) (.hash found none)).tagged? name = some found := by
    have hlookup := (lookup_refs_setRef other (Repository.tagRef name) (Repository.tagRef name)
      (.hash found none)).trans (if_pos rfl)
    have hset : (other.setRef (Repository.tagRef name) (.hash found none)).table = some [] := htable
    rw [tagged?, resolve_of_lookup hset hname hlookup]
    rfl
  cases annotated with
  | false => exact htagged h
  | true =>
      refine htagged ?_
      show (survey.addObject survey.freshHash .tag _).table = some []
      rw [addObject]
      split
      · exact h
      · exact h

/-- The history stands at a hash, by itself or at a branch that leads there. -/
inductive StandsAt (survey : Survey) (hash : String) : Prop
  | detached (h : survey.refs.lookup Repository.headRef = some (.hash hash none))
  | branch {name : String} (hhead : survey.refs.lookup Repository.headRef = some (.name name))
      (hname : survey.refs.lookup name = some (.hash hash none))

theorem standsAt_detach (survey : Survey) (hash : String) : (survey.detach hash).StandsAt hash :=
  .detached <| (lookup_refs_setRef ..).trans (if_pos rfl)

/-- The history goes along with the branch that it stands at. -/
theorem standsAt_addBranch
    (hhead : survey.refs.lookup Repository.headRef = some (.name (Repository.branchRef name)))
    (hash : String) : (survey.addBranch name hash).StandsAt hash := by
  -- The branch is kept in another place, so the history still stands at it.
  have hne : Repository.headRef ≠ Repository.branchRef name := fun heq => by
    have hnames := congrArg namesOf heq
    rw [namesOf_branchRef] at hnames
    have hfirst : (namesOf Repository.headRef).head? = some "refs" := congrArg List.head? hnames
    exact absurd hfirst (by decide)
  have hstill : (survey.addBranch name hash).refs.lookup Repository.headRef =
      some (.name (Repository.branchRef name)) :=
    (lookup_refs_setRef ..).trans ((if_neg hne).trans hhead)
  exact .branch hstill ((lookup_refs_setRef ..).trans (if_pos rfl))

theorem lookedFor_headRef : Repository.lookedFor Repository.headRef = .ok Repository.headRef := by
  decide

/-- Where the history stands is where its name leads. -/
theorem StandsAt.resolve (hstands : survey.StandsAt hash) (h : survey.table = some []) :
    ∃ lead, (survey.repository dates).resolve Repository.headRef = .ok lead ∧
      lead.hash = hash := by
  cases hstands with
  | detached hhead => exact ⟨_, resolve_of_lookup h lookedFor_headRef hhead, rfl⟩
  | branch hhead hname =>
      rename_i name
      have hhead : (survey.repository dates).ref Repository.headRef = .ok (.name name) :=
        (ref_eq_ok_iff h).2 ⟨hhead, by simp⟩
      have hname : (survey.repository dates).ref name = .ok (.hash hash none) :=
        (ref_eq_ok_iff h).2 ⟨hname, by simp⟩
      refine ⟨⟨name, hash, none⟩, ?_, rfl⟩
      rw [Repository.resolve, lookedFor_headRef, ok_bind, hhead, ok_bind, maxChain,
        Repository.follow, hname]
      show Repository.follow _ 4 name (.hash hash none) = _
      rw [Repository.follow]

/-- A history that stands at a commit can be read from there. -/
theorem IsSound.range_isOk (h : survey.IsSound) {commit : String × CommitContent}
    (hmem : commit ∈ survey.readable) (hzero : commit.1 ≠ Repository.zeroHash)
    (hstands : survey.StandsAt commit.1) (dates : String → Option Int) :
    ∃ range, (survey.reread.repository dates).range Repository.headRef none = .ok range ∧
      range.head = commit.1 := by
  have hrecords := h.records_reread dates
  obtain ⟨lead, hresolve, hhash⟩ := hstands.resolve h.table
  have hfree : ∀ name, Repository.lookedFor Repository.headRef = .ok name →
      isTaken name = false := by
    rw [lookedFor_headRef]
    rintro name ⟨⟩
    decide
  rw [← resolve_reread h.toIsOrderly h.leads hfree] at hresolve
  obtain ⟨i, hobject, hrecord⟩ := Repository.object_of_records hrecords hmem h.nodup_readable hzero
  rw [← hhash] at hobject
  have hstart := Repository.start_headRef hresolve hobject
  have hmeans := Repository.meansCommit_iff.2 ⟨i, hstart⟩
  obtain ⟨range, hrange⟩ : ∃ range,
      (survey.reread.repository dates).range Repository.headRef none = .ok range :=
    (Repository.range_isOk_iff hrecords.whole).2 ⟨hmeans, fun _ => nofun⟩
  refine ⟨range, hrange, ?_⟩
  obtain ⟨release, shown, -, -, rfl⟩ := (Repository.range_eq_ok_iff hstart).1 hrange
  exact congrArg CommitRecord.hash hrecord

end Storage.Survey

end ReleaseNotes
