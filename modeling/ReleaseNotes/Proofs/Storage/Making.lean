import ReleaseNotes.Proofs.Storage.Discovery
import ReleaseNotes.Proofs.Storage.Order

/-!
# Surveys That Are Made Piece by Piece

A survey that has been made piece by piece can be laid out, whatever it is made of.

Every way to add something keeps what is needed for that (`Survey.IsSound`): all that
is there can be read back, nothing is there twice, and commits stand behind their
parents. Each of these is a fact about one of the lists of a survey, and a step changes
one list and leaves the others, so there is one lemma for each of the three lists that
change (`IsSound.addObject`, `IsSound.setRef`, `IsSound.log`), and the steps are
composed of them.

The names of branches and tags are what they may be at all, since behind their places
they cannot collide with what is always there. A hash has to be one (`IsHash`). That of
an annotated tag is made up from the number of objects, which has few enough digits for
a hash as long as there are not more objects than there are hashes.

## Main definitions

* `Survey.IsSound`: Everything that making a survey keeps.
* `Survey.Made`: A survey made piece by piece.

## Theorems

* `Survey.IsSound.addObject`, `Survey.IsSound.setRef`, `Survey.IsSound.log`: What a step
  keeps.
* `Survey.Made.isSound`: What all steps keep.
* `Survey.lookup_refs_setRef`: What references lead to after a step.
* `Survey.isHash_freshHash`: The hash of an annotated tag is one.
-/

namespace ReleaseNotes

open Storage

namespace Storage.Survey

variable {survey : Survey} {name hash : String}

section names

theorem namesOf_branchRef (name : String) :
    namesOf (Repository.branchRef name) = "refs" :: "heads" :: namesOf name :=
  namesOf_of_place (by decide) (String.toList_append ..)

theorem namesOf_tagRef (name : String) :
    namesOf (Repository.tagRef name) = "refs" :: "tags" :: namesOf name :=
  namesOf_of_place (by decide) (String.toList_append ..)

/-- A name for a reference that is not the place of anything else. -/
structure IsFreeName (name : String) : Prop where
  refName : IsRefName name
  free : namesOf name ∉ directories

theorem isFreeName_of_place {place : String} {rest : List String} (hrest : rest ≠ [])
    (hname : namesOf name = "refs" :: place :: rest) : IsFreeName name := by
  refine ⟨.inr ⟨place, rest, hname⟩, fun hmem => ?_⟩
  rw [hname] at hmem
  simp [directories, hrest] at hmem

theorem isFreeName_branchRef (name : String) : IsFreeName (Repository.branchRef name) :=
  isFreeName_of_place (namesOf_ne_nil name) (namesOf_branchRef name)

theorem isFreeName_tagRef (name : String) : IsFreeName (Repository.tagRef name) :=
  isFreeName_of_place (namesOf_ne_nil name) (namesOf_tagRef name)

theorem isFreeName_headRef : IsFreeName Repository.headRef :=
  ⟨.inl (by decide), by decide⟩

end names

section hashes

theorem mem_hashDigits_of_mem_toDigits {number : Nat} {c : Char}
    (h : c ∈ Nat.toDigits 16 number) : c ∈ hashDigits := by
  have hdigit : ∀ digit < 16, Nat.digitChar digit ∈ hashDigits := by decide
  induction number using Nat.strongRecOn with
  | ind number ih =>
      rw [Nat.toDigits_eq_if (by decide)] at h
      split at h
      next hlt =>
        rw [List.mem_singleton.1 h]
        exact hdigit number hlt
      next hle =>
        rcases List.mem_append.1 h with h | h
        · exact ih (number / 16) (by omega) h
        · rw [List.mem_singleton.1 h]
          exact hdigit _ (Nat.mod_lt _ (by decide))

/-- The hash that is made up for a tag is one, as long as there are hashes left. -/
theorem isHash_freshHash (h : survey.objects.length < 16 ^ hashSize) : IsHash survey.freshHash := by
  have hlength : (Nat.toDigits 16 survey.objects.length).length ≤ hashSize :=
    (Nat.length_toDigits_le_iff (by decide) (by decide)).2 h
  refine ⟨?_, ?_⟩
  · rw [freshHash, String.toList_ofList, List.length_append, List.length_replicate]
    omega
  · rw [freshHash, String.toList_ofList, List.all_append, Bool.and_eq_true, List.all_eq_true,
      List.all_eq_true]
    refine ⟨fun c hc => ?_, fun c hc => ?_⟩
    · rw [List.eq_of_mem_replicate hc]
      decide
    · exact List.contains_iff_mem.2 (mem_hashDigits_of_mem_toDigits hc)

end hashes

/-- Everything that making a survey keeps. -/
structure IsSound (survey : Survey) : Prop extends IsKept survey where
  ahead : ParentsAhead survey.readable
  known : ∀ commit ∈ survey.readable, ∀ parent ∈ commit.2.parents,
    parent ∈ survey.readable.map (·.1)
  leads : ∀ ref ∈ survey.refs, ∀ found, ref.2 = .name found → isTaken found = false

section keys

variable {α : Type} {entries : List (String × α)} {key : String}

theorem notMem_keys_filter : key ∉ (entries.filter (·.1 != key)).map (·.1) := by
  intro hmem
  obtain ⟨entry, hentry, rfl⟩ := List.mem_map.1 hmem
  exact bne_iff_ne.1 (List.mem_filter.1 hentry).2 rfl

theorem nodup_keys_filter (h : (entries.map (·.1)).Nodup) :
    ((entries.filter (·.1 != key)).map (·.1)).Nodup :=
  (List.filter_sublist.map _).nodup h

theorem nodup_keys_concat {value : α} (h : (entries.map (·.1)).Nodup)
    (hkey : key ∉ entries.map (·.1)) : ((entries ++ [(key, value)]).map (·.1)).Nodup := by
  rw [List.map_append, List.nodup_append]
  refine ⟨h, List.nodup_singleton _, ?_⟩
  rintro other hother _ hsame rfl
  rw [List.map_singleton, List.mem_singleton] at hsame
  rw [hsame] at hother
  exact hkey hother

theorem lookup_eq_none_iff_notMem_keys :
    entries.lookup key = none ↔ key ∉ entries.map (·.1) := by
  rw [List.lookup_eq_none_iff, List.mem_map]
  constructor
  · rintro h ⟨entry, hentry, rfl⟩
    exact bne_iff_ne.1 (h entry hentry) rfl
  · intro h entry hentry
    exact bne_iff_ne.2 fun heq => h ⟨entry, hentry, heq.symm⟩

end keys

section refs

/-- What is said of all references is said of the new one and of those that were there. -/
theorem forall_refs_setRef {p : String × Target → Prop} {target : Target}
    (hold : ∀ ref ∈ survey.refs, p ref) (hnew : p (name, target)) :
    ∀ ref ∈ (survey.setRef name target).refs, p ref := by
  intro ref href
  rcases List.mem_append.1 href with href | href
  · exact hold ref (List.mem_filter.1 href).1
  · rwa [List.mem_singleton.1 href]

/-- What a name leads to after a reference has been set. -/
theorem lookup_refs_setRef (survey : Survey) (name other : String) (target : Target) :
    (survey.setRef name target).refs.lookup other =
      if other = name then some target else survey.refs.lookup other := by
  have hrefs : (survey.setRef name target).refs =
      survey.refs.filter (·.1 != name) ++ [(name, target)] := rfl
  rw [hrefs, List.lookup_append]
  by_cases heq : other = name
  · have hnone : (survey.refs.filter (·.1 != name)).lookup name = none :=
      lookup_eq_none_iff_notMem_keys.2 notMem_keys_filter
    rw [if_pos heq, heq, hnone, Option.none_or, List.lookup_cons_self]
  · -- Only references under the name that is set have been taken out.
    have hfilter : (survey.refs.filter (·.1 != name)).filter (·.1 == other) =
        survey.refs.filter (·.1 == other) := by
      rw [List.filter_filter]
      refine List.filter_congr fun ref _ => ?_
      cases hother : ref.1 == other with
      | false => rfl
      | true =>
          rw [Bool.true_and, eq_of_beq hother]
          exact bne_iff_ne.2 heq
    have hnone : [(name, target)].lookup other = none :=
      lookup_eq_none_iff_notMem_keys.2 (mt List.mem_singleton.1 heq)
    rw [if_neg heq, ← lookup_filter, hfilter, lookup_filter, hnone, Option.or_none]

/-- A reference can be set to what can be read back. -/
theorem IsSound.setRef (h : survey.IsSound) {target : Target} (hname : IsFreeName name)
    (htarget : target.IsLegible) (hleads : ∀ found, target = .name found → isTaken found = false) :
    (survey.setRef name target).IsSound := by
  have hhead : Repository.headRef ∈ (survey.setRef name target).refs.map (·.1) := by
    by_contra hnot
    rw [← lookup_eq_none_iff_notMem_keys, lookup_refs_setRef] at hnot
    split at hnot
    · cases hnot
    · exact lookup_eq_none_iff_notMem_keys.1 hnot h.head
  exact
    { h with
      refs := forall_refs_setRef h.refs ⟨hname.refName, htarget⟩
      head := hhead
      refs_once := nodup_keys_concat (nodup_keys_filter h.refs_once) notMem_keys_filter
      refs_free := forall_refs_setRef h.refs_free hname.free
      leads := forall_refs_setRef h.leads hleads }

theorem IsSound.setHash (h : survey.IsSound) (hname : IsFreeName name) (hhash : IsHash hash) :
    (survey.setRef name (.hash hash none)).IsSound :=
  have hlegible : (Target.hash hash none).IsLegible := ⟨hhash, rfl⟩
  h.setRef hname hlegible fun _ => nofun

end refs

section logs

/-- A change can be written down in any log. -/
theorem IsSound.log (h : survey.IsSound) (hhash : IsHash hash) (name : String) :
    (survey.log name hash).IsSound := by
  have hentry : (⟨hash, 0, ""⟩ : LogEntry).IsLegible :=
    { hash := hhash
      message := by rw [bytesOf_eq]; exact List.not_mem_nil
      low := by show -Signature.maxTime - 1 ≤ 0; decide
      high := by show 0 ≤ Signature.maxTime; decide }
  have holder : ∀ entry ∈ (survey.logs.lookup name).getD [], entry.IsLegible := by
    cases hlookup : survey.logs.lookup name with
    | none => exact nofun
    | some entries =>
        obtain ⟨front, back, hsplit, -⟩ := List.lookup_eq_some_iff.1 hlookup
        exact h.logs (name, entries) (hsplit ▸ List.mem_append_right _ List.mem_cons_self)
  exact
    { h with
      logs := List.forall_mem_cons.2 ⟨List.forall_mem_cons.2 ⟨hentry, holder⟩,
        fun log hlog => h.logs log (List.mem_filter.1 hlog).1⟩
      logs_once := List.nodup_cons.2 ⟨notMem_keys_filter, nodup_keys_filter h.logs_once⟩ }

end logs

section objects

variable {kind : ObjectKind} {content : List UInt8}

theorem addObject_of_mem (h : hash ∈ survey.objects.map (·.1)) :
    survey.addObject hash kind content = survey := by
  obtain ⟨object, hobject, rfl⟩ := List.mem_map.1 h
  refine if_pos (List.any_eq_true.2 ⟨object, hobject, ?_⟩)
  exact beq_self_eq_true object.1

theorem addObject_of_notMem (h : hash ∉ survey.objects.map (·.1)) :
    survey.addObject hash kind content =
      { survey with objects := survey.objects ++ [(hash, { kind, content })] } := by
  refine if_neg fun hany => h ?_
  obtain ⟨object, hobject, hsame⟩ := List.any_eq_true.1 hany
  exact List.mem_map.2 ⟨object, hobject, eq_of_beq hsame⟩

theorem readable_append (objects others : List (String × StoredObject)) :
    readable { survey with objects := objects ++ others } =
      readable { survey with objects } ++ readable { survey with objects := others } := by
  rw [readable, readable, readable, commits, commits, commits, List.filterMap_append,
    List.filterMap_append]

/-- A new commit that can be read back is the last one that can be read. -/
theorem readable_addCommit (hgrafts : survey.grafts = []) {commit : CommitText}
    (hcommit : commit.IsLegible) (hnew : hash ∉ survey.objects.map (·.1)) :
    (survey.addCommit hash commit).readable = survey.readable ++ [(hash, commit.content)] := by
  have hone : readable { survey with objects := [(hash, ⟨.commit, commit.write⟩)] } =
      [(hash, commit.content)] := by
    have hread : CommitText.read (Thunk.get (commit.write : List UInt8)) = .ok commit :=
      CommitText.read_write hcommit
    rw [readable, commits, List.filterMap_cons]
    simp only [if_true, hread, hgrafts]
    rfl
  rw [addCommit, addObject_of_notMem hnew, readable_append, hone]

/-- Nothing else is a commit. -/
theorem readable_addObject (hkind : kind ≠ .commit) :
    (survey.addObject hash kind content).readable = survey.readable := by
  by_cases hmem : hash ∈ survey.objects.map (·.1)
  · rw [addObject_of_mem hmem]
  · have hnone : readable { survey with objects := [(hash, ⟨kind, content⟩)] } = [] := by
      rw [readable, commits, List.filterMap_cons]
      simp only [hkind, if_false]
      rfl
    rw [addObject_of_notMem hmem, readable_append, hnone, List.append_nil]

/-- The commits that can be read are among the objects. -/
theorem keys_readable_sublist (survey : Survey) :
    (survey.readable.map (·.1)).Sublist (survey.objects.map (·.1)) := by
  have hkeys {α β : Type} {f : String × α → Option (String × β)}
      (hf : ∀ entry found, f entry = some found → found.1 = entry.1)
      (entries : List (String × α)) :
      ((entries.filterMap f).map (·.1)).Sublist (entries.map (·.1)) := by
    induction entries with
    | nil => exact List.Sublist.refl _
    | cons entry entries ih =>
        rw [List.filterMap_cons]
        cases hfound : f entry with
        | none => exact ih.cons _
        | some found =>
            rw [List.map_cons, List.map_cons, hf entry found hfound]
            exact ih.cons_cons _
  -- Commits are picked from the objects, and those that can be read from the commits.
  refine (hkeys (fun entry found hfound => ?_) survey.commits).trans
    (hkeys (fun entry found hfound => ?_) survey.objects)
  · obtain ⟨hash, found | commit⟩ := entry
    · cases hfound
    · obtain rfl := Option.some.inj hfound
      rfl
  · simp only [Option.ite_none_right_eq_some, Option.some.injEq] at hfound
    obtain ⟨-, rfl⟩ := hfound
    rfl

theorem IsKept.nodup_readable (h : survey.IsKept) : (survey.readable.map (·.1)).Nodup :=
  (keys_readable_sublist survey).nodup h.objects_once

/-- Commits stay behind their parents if one is added that none of them has as a parent. -/
theorem parentsAhead_concat {commits : List (String × CommitContent)}
    {last : String × CommitContent} (h : ParentsAhead commits)
    (hnot : ∀ commit ∈ commits, last.1 ∉ commit.2.parents) (hlast : last.1 ∉ last.2.parents) :
    ParentsAhead (commits ++ [last]) := by
  induction commits with
  | nil => exact ⟨List.forall_mem_singleton.2 hlast, trivial⟩
  | cons commit commits ih =>
      obtain ⟨hcommit, hcommits⟩ := List.forall_mem_cons.1 hnot
      refine ⟨fun other hother => ?_, ih h.2 hcommits⟩
      rcases List.mem_append.1 (show other ∈ (commit :: commits) ++ [last] from hother) with
        hother | hother
      · exact h.1 other hother
      · rwa [List.mem_singleton.1 hother]

/-- An object can be added as long as the commits stay behind their parents. -/
theorem IsSound.addObject (h : survey.IsSound) (hhash : IsHash hash)
    (hahead : ParentsAhead (survey.addObject hash kind content).readable)
    (hknown : ∀ commit ∈ (survey.addObject hash kind content).readable,
      ∀ parent ∈ commit.2.parents,
        parent ∈ (survey.addObject hash kind content).readable.map (·.1)) :
    (survey.addObject hash kind content).IsSound := by
  by_cases hmem : hash ∈ survey.objects.map (·.1)
  · rwa [addObject_of_mem hmem]
  · rw [addObject_of_notMem hmem] at hahead hknown ⊢
    exact
      { h with
        objects := fun object hobject => (List.mem_append.1 hobject).elim (h.objects object)
          fun hnew => by rwa [List.mem_singleton.1 hnew]
        objects_once := nodup_keys_concat h.objects_once hmem
        ahead := hahead
        known := hknown }

/-- A commit can be added when its parents have been. -/
theorem IsSound.addCommit (h : survey.IsSound) (hhash : IsHash hash) {commit : CommitText}
    (hcommit : commit.IsLegible)
    (hparents : ∀ parent ∈ commit.parents, parent ∈ survey.readable.map (·.1)) :
    (survey.addCommit hash commit).IsSound := by
  by_cases hmem : hash ∈ survey.objects.map (·.1)
  · rwa [Survey.addCommit, addObject_of_mem hmem]
  · have hreadable := readable_addCommit h.grafts hcommit hmem
    -- The new hash is that of no object, so it is the hash of no parent either.
    have hother {parent : String} (hparent : parent ∈ survey.readable.map (·.1)) :
        parent ≠ hash := by
      rintro rfl
      exact hmem ((keys_readable_sublist survey).subset hparent)
    refine h.addObject hhash ?_ ?_
    · show ParentsAhead (survey.addCommit hash commit).readable
      rw [hreadable]
      exact parentsAhead_concat h.ahead
        (fun found hfound hparent => hother (h.known found hfound hash hparent) rfl)
        (fun hparent => hother (hparents hash hparent) rfl)
    · show ∀ found ∈ (survey.addCommit hash commit).readable, ∀ parent ∈ found.2.parents,
        parent ∈ (survey.addCommit hash commit).readable.map (·.1)
      rw [hreadable, List.map_append]
      intro found hfound parent hparent
      rcases List.mem_append.1 hfound with hfound | hfound
      · exact List.mem_append_left _ (h.known found hfound parent hparent)
      · rw [List.mem_singleton.1 hfound] at hparent
        exact List.mem_append_left _ (hparents parent hparent)

end objects

section steps

/-- A survey with nothing but a place for the history to stand at. -/
theorem isSound_bare {branch : String}
    (h : (Target.name (Repository.branchRef branch)).IsLegible) : (bare branch).IsSound where
  refs := List.forall_mem_singleton.2 ⟨isFreeName_headRef.refName, h⟩
  logs := nofun
  objects := List.forall_mem_singleton.2 ⟨rfl, rfl⟩
  garbled := rfl
  table := rfl
  grafts := rfl
  head := List.mem_singleton_self _
  refs_once := List.nodup_singleton _
  logs_once := List.nodup_nil
  objects_once := List.nodup_singleton _
  refs_free := List.forall_mem_singleton.2 isFreeName_headRef.free
  ahead := trivial
  known := nofun
  leads := List.forall_mem_singleton.2 fun found hfound => by
    cases hfound
    rw [isTaken, namesOf_branchRef]
    rfl

theorem IsSound.addBranch (h : survey.IsSound) (hhash : IsHash hash) (name : String) :
    (survey.addBranch name hash).IsSound :=
  (h.setHash (isFreeName_branchRef name) hhash).log hhash _

theorem IsSound.detach (h : survey.IsSound) (hhash : IsHash hash) : (survey.detach hash).IsSound :=
  h.setHash isFreeName_headRef hhash

/-- The object of a tag can be added as long as there are hashes left. -/
theorem IsSound.addTag (h : survey.IsSound) (hhash : IsHash hash)
    (hroom : survey.objects.length < 16 ^ hashSize) (name : String) (annotated : Bool) :
    (survey.addTag name annotated hash).IsSound := by
  cases annotated with
  | false => exact h.setHash (isFreeName_tagRef name) hhash
  | true =>
      have hfresh := isHash_freshHash hroom
      have hobject (content : List UInt8) :
          (survey.addObject survey.freshHash .tag content).IsSound := by
        have hkind : ObjectKind.tag ≠ .commit := by decide
        refine h.addObject hfresh ?_ ?_ <;> rw [readable_addObject hkind]
        · exact h.ahead
        · exact h.known
      exact (hobject _).setHash (isFreeName_tagRef name) hfresh

end steps

/-- A survey made piece by piece, of pieces that can be read back. -/
inductive Made : Survey → Prop
  | bare {branch : String} (h : (Target.name (Repository.branchRef branch)).IsLegible) :
      Made (bare branch)
  /-- The parents of a commit are added before it. -/
  | addCommit {survey : Survey} {hash : String} {commit : CommitText} (h : Made survey)
      (hhash : IsHash hash) (hcommit : commit.IsLegible)
      (hparents : ∀ parent ∈ commit.parents, parent ∈ survey.readable.map (·.1)) :
      Made (survey.addCommit hash commit)
  | addBranch {survey : Survey} {hash : String} (h : Made survey) (hhash : IsHash hash)
      (name : String) : Made (survey.addBranch name hash)
  | addTag {survey : Survey} {hash : String} (h : Made survey) (hhash : IsHash hash)
      (hroom : survey.objects.length < 16 ^ hashSize) (name : String) (annotated : Bool) :
      Made (survey.addTag name annotated hash)
  | detach {survey : Survey} {hash : String} (h : Made survey) (hhash : IsHash hash) :
      Made (survey.detach hash)

/-- Whatever a survey is made of, it can be laid out. -/
theorem Made.isSound (h : survey.Made) : survey.IsSound := by
  induction h with
  | bare h => exact isSound_bare h
  | addCommit _ hhash hcommit hparents ih => exact ih.addCommit hhash hcommit hparents
  | addBranch _ hhash name ih => exact ih.addBranch hhash name
  | addTag _ hhash hroom name annotated ih => exact ih.addTag hhash hroom name annotated
  | detach _ hhash ih => exact ih.detach hhash

end Storage.Survey

end ReleaseNotes
