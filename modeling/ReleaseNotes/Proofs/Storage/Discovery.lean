import Mathlib.Data.List.Nodup
import ReleaseNotes.Proofs.Storage.Layout
import ReleaseNotes.Proofs.Writing

/-!
# A Repository Is Found Where It Was Laid Out

A disk that holds a repository shows it to a search that starts in the working
directory.

Laying a repository out puts one file after the other on a disk, each unless there is
something in its place. If nothing is in the way (`Disk.IsVacant`) and no two files have
one place (`Survey.IsKept`), all of them are there in the end, behind what was there
before, and so the listing of the disk is known as a whole. What is at a place of the
repository follows from it.

A search that comes to the working directory looks at a handful of places to make sure
that there is a repository (`Disk.Shows`). They are all as they have to be, so the search
ends there and does not go on upwards. Every file is then read in the order in which it
was laid out, and the survey is read back from that.

## Main definitions

* `Disk.kept`: The place of a file of a repository.
* `Place.IsApart`, `Disk.IsVacant`: Nothing is in the way of a repository.
* `Survey.IsKept`: A survey whose files all have places of their own.
* `Disk.Shows`: What a search has to see.

## Theorems

* `Survey.nodup_files`: No two files have one place.
* `Disk.entries_holding`: What is listed when a repository has been laid out.
* `Disk.stateAt_kept`: What is at the places of a repository.
* `Disk.stateAt_of_isApart`: What is at other places is what was there before.
* `Disk.shows_holding`: A search sees a repository.
* `Disk.filesIn_holding`: The files are found as they were laid out.
* `Disk.repository_holding`: The repository is found, and it is the one that was laid
  out.
-/

namespace ReleaseNotes

open Storage

namespace Disk

variable {disk : Disk} {place : Place} {state : FileState}

theorem listed_eq_none_iff :
    disk.listed place = none ↔ ∀ entry ∈ disk.entries, entry.1 ≠ place := by
  simp [listed, List.find?_eq_none]

theorem entries_putIfFree (h : disk.listed place = none) (state : FileState) :
    (disk.putIfFree place state).entries = disk.entries ++ [(place, state)] := by
  have hfilter : disk.entries.filter (·.1 != place) = disk.entries := by
    rw [List.filter_eq_self]
    exact fun entry hentry => bne_iff_ne.2 (listed_eq_none_iff.1 h entry hentry)
  rw [putIfFree, h, put, if_neg (by simp), hfilter]

/-- The place of a file in the directory of a repository. -/
def kept (names : List String) : Place := .below (directoryName :: names)

theorem kept_injective : Function.Injective kept := fun names others h => by
  injection h with _ hnames
  exact (List.cons.inj hnames).2

/-- Files whose places are free and all different are there when they have been put there
    one after the other. -/
theorem entries_foldl_putIfFree {files : List (List String × FileState)}
    (honce : (files.map (·.1)).Nodup)
    (hfree : ∀ file ∈ files, disk.listed (kept file.1) = none) :
    (files.foldl (fun disk file => disk.putIfFree (kept file.1) file.2) disk).entries =
      disk.entries ++ files.map fun file => (kept file.1, file.2) := by
  induction files generalizing disk with
  | nil => simp
  | cons file files ih =>
      rw [List.map_cons, List.nodup_cons] at honce
      have hentries := entries_putIfFree (hfree file List.mem_cons_self) file.2
      rw [List.foldl_cons, ih honce.2, hentries, List.append_assoc]
      · rfl
      · intro other hother
        rw [listed_eq_none_iff, hentries]
        intro entry hentry
        rcases List.mem_append.1 hentry with hentry | hentry
        · exact listed_eq_none_iff.1 (hfree other (List.mem_cons_of_mem file hother)) entry hentry
        · rw [List.mem_singleton.1 hentry]
          intro heq
          have hnames := kept_injective heq
          exact honce.1 (hnames ▸ List.mem_map_of_mem hother)

end Disk

/-- A place that is not that of a repository in the working directory, and not above or
    below that. -/
def Place.IsApart (place : Place) : Prop :=
  place.origin = .above 0 → ∃ first rest, place.names = first :: rest ∧ first ≠ directoryName

/-- Nothing is in the way of a repository. -/
def Disk.IsVacant (disk : Disk) : Prop :=
  ∀ entry ∈ disk.entries, entry.1.IsApart

namespace Storage.Survey

/-- A survey that can be laid out with every file in a place of its own. It says where the
    history stands, which is what a repository is told by. -/
structure IsKept (survey : Survey) : Prop extends IsOrderly survey where
  head : Repository.headRef ∈ survey.refs.map (·.1)
  refs_once : (survey.refs.map (·.1)).Nodup
  logs_once : (survey.logs.map (·.1)).Nodup
  objects_once : (survey.objects.map (·.1)).Nodup
  refs_free : ∀ ref ∈ survey.refs, namesOf ref.1 ∉ directories

variable {survey : Survey}

theorem namesOf_injective : Function.Injective namesOf := fun name other h => by
  rw [← intercalate_namesOf name, h, intercalate_namesOf]

theorem ofList_injective : Function.Injective String.ofList := fun chars others h => by
  rw [← String.toList_ofList (l := chars), h, String.toList_ofList]

theorem objectNames_injective : Function.Injective objectNames := fun hash other h => by
  obtain ⟨-, hnames⟩ := List.cons.inj h
  obtain ⟨hstart, hrest⟩ := List.cons.inj hnames
  rw [← String.toList_inj, ← List.take_append_drop 2 hash.toList, ofList_injective hstart,
    ofList_injective (List.cons.inj hrest).1, List.take_append_drop]

theorem nodup_map_key {α : Type} {entries : List (String × α)} {f : String → List String}
    (h : (entries.map (·.1)).Nodup) (hf : Function.Injective f) :
    (entries.map fun entry => f entry.1).Nodup := by
  have hmap := h.map hf
  rwa [List.map_map] at hmap

/-- The names of what is always there. -/
def commonNames : List (List String) := directories ++ commonFiles.map (·.1)

/-- What a survey is laid out in: some directories, and its files. -/
theorem files_eq (survey : Survey) :
    survey.files = directories.map (·, .directory) ++
      survey.namedFiles.map fun file => (file.1, .file file.2) := by
  rw [files, ← map_fileBytes, List.map_map]
  rfl

theorem mem_files {file : List String × FileState} (hfile : file ∈ survey.files) :
    file.1 ∈ directories ∧ file.2 = .directory ∨
      ∃ bytes, (file.1, bytes) ∈ survey.namedFiles ∧ file.2 = .file bytes := by
  rw [files_eq, List.mem_append] at hfile
  rcases hfile with hfile | hfile
  · obtain ⟨names, hnames, rfl⟩ := List.mem_map.1 hfile
    exact .inl ⟨hnames, rfl⟩
  · obtain ⟨named, hnamed, rfl⟩ := List.mem_map.1 hfile
    exact .inr ⟨named.2, hnamed, rfl⟩

/-- The names of everything that a survey is laid out in. -/
theorem map_files (survey : Survey) :
    survey.files.map (·.1) = commonNames ++ survey.refs.map (fun ref => namesOf ref.1) ++
      survey.logs.map (fun log => "logs" :: namesOf log.1) ++
      survey.objects.map fun object => objectNames object.1 := by
  have hfiles : survey.files.map (·.1) = directories ++ survey.namedFiles.map (·.1) := by
    rw [files_eq, List.map_append, List.map_map, List.map_map]
    rfl
  rw [hfiles, namedFiles, List.map_append, List.map_append, List.map_append, List.map_map,
    List.map_map, List.map_map, commonNames]
  simp only [List.append_assoc]
  rfl

theorem head?_namesOf {name : String} (h : IsRefName name) :
    (namesOf name).head? = some "HEAD" ∨ (namesOf name).head? = some "refs" := by
  rcases h with hnames | ⟨place, rest, hnames⟩
  · exact .inl (congrArg List.head? hnames)
  · exact .inr (congrArg List.head? hnames)

/-- No name of a reference is that of a log or of an object. -/
theorem IsKept.head?_ne_of_mem_refs (h : survey.IsKept) {names : List String}
    (hmem : names ∈ survey.refs.map (namesOf ·.1)) :
    names.head? ≠ some "logs" ∧ names.head? ≠ some "objects" := by
  obtain ⟨ref, href, rfl⟩ := List.mem_map.1 hmem
  rcases head?_namesOf (h.refs ref href).1 with hname | hname
  · rw [hname]
    exact ⟨by decide, by decide⟩
  · rw [hname]
    exact ⟨by decide, by decide⟩

/-- Everything that a survey is laid out in has a place of its own. -/
theorem nodup_files (h : survey.IsKept) : (survey.files.map (·.1)).Nodup := by
  have hcommon : ∀ names ∈ commonNames, names.length < 3 ∧ names.head? ≠ some "logs" := by
    have hall : commonNames.all (fun names => names.length < 3 && names.head? != some "logs") =
        true := by decide
    simpa using hall
  -- The kinds are told apart by their first names, but for objects and the directories
  -- beside them, which differ in length.
  have hlogs : Function.Injective fun name => "logs" :: namesOf name :=
    fun name other heq => namesOf_injective (List.cons.inj heq).2
  rw [map_files, List.nodup_append, List.nodup_append, List.nodup_append]
  refine ⟨⟨⟨by decide, nodup_map_key h.refs_once namesOf_injective, ?_⟩,
    nodup_map_key h.logs_once hlogs, ?_⟩, nodup_map_key h.objects_once objectNames_injective, ?_⟩
  · intro names hnames others hothers heq
    obtain ⟨ref, href, rfl⟩ := List.mem_map.1 hothers
    rcases List.mem_append.1 hnames with hnames | hnames
    · exact h.refs_free ref href (heq ▸ hnames)
    · obtain ⟨file, hfile, rfl⟩ := List.mem_map.1 hnames
      have hhead := head?_namesOf (h.refs ref href).1
      rw [← heq] at hhead
      simp only [commonFiles, List.mem_cons, List.not_mem_nil, or_false] at hfile
      rcases hfile with rfl | rfl | rfl <;> exact absurd hhead (by decide)
  · intro names hnames others hothers heq
    obtain ⟨log, -, rfl⟩ := List.mem_map.1 hothers
    have hhead : names.head? = some "logs" := congrArg List.head? heq
    rcases List.mem_append.1 hnames with hnames | hnames
    · exact (hcommon names hnames).2 hhead
    · exact (h.head?_ne_of_mem_refs hnames).1 hhead
  · intro names hnames others hothers heq
    obtain ⟨object, -, rfl⟩ := List.mem_map.1 hothers
    have hhead : names.head? = some "objects" := congrArg List.head? heq
    have hlength : names.length = 3 := congrArg List.length heq
    rcases List.mem_append.1 hnames with hnames | hnames
    · rcases List.mem_append.1 hnames with hnames | hnames
      · exact absurd hlength (hcommon names hnames).1.ne
      · exact (h.head?_ne_of_mem_refs hnames).2 hhead
    · obtain ⟨log, -, rfl⟩ := List.mem_map.1 hnames
      exact absurd hhead (by simp)

end Storage.Survey

namespace Disk

variable {disk : Disk} {survey : Survey}

theorem listed_kept_of_isVacant (h : disk.IsVacant) (names : List String) :
    disk.listed (kept names) = none := by
  rw [listed_eq_none_iff]
  intro entry hentry heq
  obtain ⟨first, rest, hnames, hne⟩ := h entry hentry (congrArg Place.origin heq)
  rw [heq] at hnames
  exact hne (List.cons.inj hnames).1.symm

/-- What a disk lists when a repository has been laid out in it. -/
theorem entries_holding (h : survey.IsKept) (hdisk : disk.IsVacant) :
    (disk.holding (some survey)).entries =
      disk.entries ++ survey.files.map fun file => (kept file.1, file.2) :=
  entries_foldl_putIfFree (Survey.nodup_files h) fun file _ => listed_kept_of_isVacant hdisk file.1

theorem listed_holding (h : survey.IsKept) (hdisk : disk.IsVacant) (names : List String) :
    (disk.holding (some survey)).listed (kept names) =
      (survey.files.find? (·.1 == names)).map (·.2) := by
  have hnone := listed_kept_of_isVacant hdisk names
  rw [listed, Option.map_eq_none_iff] at hnone
  have hsame : ((fun entry : Place × FileState => entry.1 == kept names) ∘
      fun file : List String × FileState => (kept file.1, file.2)) =
        fun file => file.1 == names := by
    funext file
    rw [Function.comp_apply, Bool.eq_iff_iff, beq_iff_eq, beq_iff_eq, kept_injective.eq_iff]
  rw [listed, entries_holding h hdisk, List.find?_append, hnone, Option.none_or, List.find?_map,
    Option.map_map, hsame]
  rfl

theorem find?_files_eq_none (h : survey.IsKept) {names : List String}
    (hdirectory : names ∉ Survey.directories) (hnames : ¬ Survey.FileNames names) :
    survey.files.find? (·.1 == names) = none := by
  rw [List.find?_eq_none]
  intro file hfile heq
  obtain rfl := eq_of_beq heq
  rcases Survey.mem_files hfile with ⟨hmem, -⟩ | ⟨bytes, hmem, -⟩
  · exact hdirectory hmem
  · exact hnames (Survey.fileNames_of_mem h.toIsOrderly hmem)

theorem holdsBelow_kept (h : survey.IsKept) (hdisk : disk.IsVacant) (names : List String) :
    (disk.holding (some survey)).holdsBelow (kept names) =
      survey.files.any fun file => names.isPrefixOf file.1 := by
  have hnone : (disk.entries.any fun entry => entry.1.origin == (kept names).origin &&
      (kept names).names.isPrefixOf entry.1.names) = false := by
    rw [List.any_eq_false]
    intro entry hentry heq
    rw [Bool.and_eq_true] at heq
    obtain ⟨first, rest, hnames, hne⟩ := hdisk entry hentry (eq_of_beq heq.1)
    rw [hnames] at heq
    exact hne (eq_of_beq (Bool.and_eq_true _ _ ▸ heq.2).1).symm
  rw [holdsBelow, entries_holding h hdisk, List.any_append, hnone, Bool.false_or, List.any_map]
  refine congrArg survey.files.any (funext fun file => ?_)
  show (Origin.above 0 == Origin.above 0 &&
    (directoryName == directoryName && names.isPrefixOf file.1)) = _
  rw [beq_self_eq_true, beq_self_eq_true, Bool.true_and, Bool.true_and]

/-- What is at a place in the directory of a repository. -/
theorem stateAt_kept (h : survey.IsKept) (hdisk : disk.IsVacant) (names : List String) :
    (disk.holding (some survey)).stateAt (kept names) =
      match survey.files.find? (·.1 == names) with
      | some file => file.2
      | none =>
        if survey.files.any fun file => names.isPrefixOf file.1 then .directory
        else .absent .notFound := by
  have hstanding : (kept names).standing? = none := by
    simp [Place.standing?, kept, Place.below]
  rw [stateAt, listed_holding h hdisk, hstanding, holdsBelow_kept h hdisk]
  cases survey.files.find? (·.1 == names) <;> rfl

/-- What is at places apart from the repository is what was there before. -/
theorem stateAt_of_isApart (h : survey.IsKept) (hdisk : disk.IsVacant) {place : Place}
    (hplace : place.IsApart) : (disk.holding (some survey)).stateAt place = disk.stateAt place := by
  have hkept (names : List String) : (kept names).isBelow place = false := by
    rw [Bool.eq_false_iff, ne_eq, Place.isBelow, Bool.and_eq_true]
    rintro ⟨horigin, hbelow⟩
    obtain ⟨first, rest, hnames, hne⟩ := hplace (eq_of_beq horigin).symm
    rw [hnames] at hbelow
    exact hne (eq_of_beq (Bool.and_eq_true _ _ ▸ hbelow).1)
  have hlisted : (disk.holding (some survey)).listed place = disk.listed place := by
    have hnone : (survey.files.map fun file => (kept file.1, file.2)).find? (·.1 == place) =
        none := by
      rw [List.find?_eq_none, List.forall_mem_map]
      intro file _ heq
      obtain rfl : kept file.1 = place := eq_of_beq heq
      have hself : (kept file.1).isBelow (kept file.1) = true := by
        rw [Place.isBelow, Bool.and_eq_true]
        exact ⟨beq_self_eq_true _, List.isPrefixOf_iff_prefix.2 (List.prefix_refl _)⟩
      exact Bool.false_ne_true ((hkept file.1).symm.trans hself)
    rw [listed, listed, entries_holding h hdisk, List.find?_append, hnone, Option.or_none]
  have hbelow : (disk.holding (some survey)).holdsBelow place = disk.holdsBelow place := by
    have hnone : (survey.files.map fun file => (kept file.1, file.2)).any
        (fun entry => entry.1.isBelow place) = false := by
      rw [List.any_eq_false, List.forall_mem_map]
      exact fun file _ => Bool.eq_false_iff.1 (hkept file.1)
    show (disk.holding (some survey)).entries.any (fun entry => entry.1.isBelow place) =
      disk.entries.any fun entry => entry.1.isBelow place
    rw [entries_holding h hdisk, List.any_append, hnone, Bool.or_false]
  rw [stateAt, stateAt, hlisted, hbelow]

/-- The working directory is still one. -/
theorem stateAt_here (h : survey.IsKept) (hdisk : disk.IsVacant) :
    (disk.holding (some survey)).stateAt (.below []) = .directory := by
  have hnone : (disk.holding (some survey)).listed (.below []) = none := by
    rw [listed_eq_none_iff, entries_holding h hdisk]
    intro entry hentry heq
    rcases List.mem_append.1 hentry with hentry | hentry
    · obtain ⟨first, rest, hnames, -⟩ := hdisk entry hentry (congrArg Place.origin heq)
      rw [heq] at hnames
      exact nomatch hnames
    · obtain ⟨file, -, rfl⟩ := List.mem_map.1 hentry
      exact nomatch congrArg Place.names heq
  rw [stateAt, hnone]
  rfl

section locate

variable {place next : Place} {name : String}

theorem foldlM_step_cons (hstate : disk.stateAt place = .directory)
    (hstep : place.step name = .ok next) (names : List String) :
    (name :: names).foldlM disk.step place = names.foldlM disk.step next := by
  rw [List.foldlM_cons, step_eq_ok_iff.2 ⟨hstate, hstep⟩]
  rfl

theorem locate_kept (hhere : disk.stateAt (.below []) = .directory) :
    disk.locate "./.git" = .ok (kept []) := by
  show [".", ".git"].foldlM disk.step (.below []) = _
  rw [foldlM_step_cons hhere rfl, foldlM_step_cons hhere rfl]
  rfl

/-- A name behind the path of a repository leads into it. -/
theorem locate_kept_append (hhere : disk.stateAt (.below []) = .directory)
    (hgit : disk.stateAt (kept []) = .directory)
    (hsteps : pathSteps ("./.git/" ++ name) = .ok [".", ".git", name])
    (hstep : (kept []).step name = .ok (kept [name])) :
    disk.locate ("./.git/" ++ name) = .ok (kept [name]) := by
  have hstart : pathStart ("./.git/" ++ name) = .below [] := by
    rw [pathStart, String.toList_append]
    rfl
  rw [locate, hsteps, hstart]
  show [".", ".git", name].foldlM disk.step (.below []) = _
  rw [foldlM_step_cons hhere rfl, foldlM_step_cons hhere rfl]
  exact (foldlM_step_cons hgit hstep []).trans rfl

end locate

/-- What a search for a repository has to see at the places where it looks. -/
structure Shows (disk : Disk) : Prop where
  here : disk.stateAt (.below []) = .directory
  own : disk.stateAt (kept []) = .directory
  unshared : disk.stateAt (kept ["commondir"]) = .absent .notFound
  head : ∃ bytes, disk.stateAt (kept ["HEAD"]) = .file bytes
  objects : disk.stateAt (kept ["objects"]) = .directory
  refs : disk.stateAt (kept ["refs"]) = .directory

/-- Names with nothing in front of them are those of a directory, if something is always
    there below it. -/
theorem stateAt_directory (h : survey.IsKept) (hdisk : disk.IsVacant) {names : List String}
    (hnot : names ∉ Survey.directories) (hnames : ¬ Survey.FileNames names)
    (hany : Survey.directories.any names.isPrefixOf = true) :
    (disk.holding (some survey)).stateAt (kept names) = .directory := by
  have hbelow : (survey.files.any fun file => names.isPrefixOf file.1) = true := by
    rw [Survey.files_eq, List.any_append, List.any_map]
    exact Bool.or_eq_true_iff.2 (.inl hany)
  rw [stateAt_kept h hdisk, find?_files_eq_none h hnot hnames]
  simp only [hbelow, if_true]

/-- The repository says nothing about one that it would share its things with. -/
theorem stateAt_commondir (h : survey.IsKept) (hdisk : disk.IsVacant) :
    (disk.holding (some survey)).stateAt (kept ["commondir"]) = .absent .notFound := by
  have hnone : (survey.files.any fun file => ["commondir"].isPrefixOf file.1) = false := by
    rw [List.any_eq_false]
    intro file hfile hbelow
    rcases Survey.mem_files hfile with ⟨hmem, -⟩ | ⟨bytes, hmem, -⟩
    · have hall : Survey.directories.all fun names => (["commondir"].isPrefixOf names).not := by
        decide
      have hnot := List.all_eq_true.1 hall file.1 hmem
      rw [hbelow] at hnot
      exact absurd hnot Bool.false_ne_true
    · have hshape : Survey.FileNames file.1 := Survey.fileNames_of_mem h.toIsOrderly hmem
      rcases hshape with h | h | h | h | h | h | ⟨_, h⟩ <;> simp [h] at hbelow
  have hnames : ¬ Survey.FileNames ["commondir"] := by
    rintro (h | h | h | h | h | h | ⟨_, h⟩) <;> simp at h
  rw [stateAt_kept h hdisk, find?_files_eq_none h (by decide) hnames]
  simp only [hnone, Bool.false_eq_true, if_false]

/-- There is a file that says where the history stands. -/
theorem stateAt_head (h : survey.IsKept) (hdisk : disk.IsVacant) :
    ∃ bytes, (disk.holding (some survey)).stateAt (kept ["HEAD"]) = .file bytes := by
  obtain ⟨ref, href, hname⟩ := List.mem_map.1 h.head
  have hmem : (["HEAD"], .file (Survey.refFile ref).2) ∈ survey.files := by
    have hnames : Survey.namesOf ref.1 = ["HEAD"] := congrArg Survey.namesOf hname
    have hnamed : Survey.refFile ref ∈ survey.namedFiles := by
      rw [Survey.namedFiles, List.mem_append, List.mem_append, List.mem_append]
      exact .inl (.inl (.inr (List.mem_map_of_mem href)))
    rw [Survey.files_eq, List.mem_append, ← hnames]
    exact .inr (List.mem_map_of_mem hnamed)
  have hsome : (survey.files.find? (·.1 == ["HEAD"])).isSome = true :=
    List.find?_isSome.2 ⟨_, hmem, rfl⟩
  obtain ⟨file, hfound⟩ := Option.isSome_iff_exists.1 hsome
  have hbeq : (file.1 == ["HEAD"]) = true := by
    have hsome := List.find?_some hfound
    exact hsome
  rcases Survey.mem_files (List.mem_of_find?_eq_some hfound) with ⟨hmem, -⟩ | ⟨bytes, -, hstate⟩
  · rw [eq_of_beq hbeq] at hmem
    exact absurd hmem (by decide)
  · refine ⟨bytes, ?_⟩
    rw [stateAt_kept h hdisk, hfound]
    exact hstate

/-- A search sees the repository that a disk holds. -/
theorem shows_holding (h : survey.IsKept) (hdisk : disk.IsVacant) :
    (disk.holding (some survey)).Shows := by
  have hshort {names : List String} (hshort : names = [] ∨ names = ["objects"] ∨ names = ["refs"]) :
      ¬ Survey.FileNames names := by
    rintro (h | h | h | h | h | h | ⟨_, h⟩) <;> simp [h] at hshort
  exact
    { here := stateAt_here h hdisk
      own := stateAt_directory h hdisk (by decide) (hshort (.inl rfl)) rfl
      unshared := stateAt_commondir h hdisk
      head := stateAt_head h hdisk
      objects := stateAt_directory h hdisk (by decide) (hshort (.inr (.inl rfl))) rfl
      refs := stateAt_directory h hdisk (by decide) (hshort (.inr (.inr rfl))) rfl }

namespace Shows

theorem look_kept (h : disk.Shows) {name : String}
    (hsteps : pathSteps ("./.git/" ++ name) = .ok [".", ".git", name])
    (hstep : (kept []).step name = .ok (kept [name])) :
    (disk.access.look ("./.git/" ++ name)).run = disk.stateAt (kept [name]) := by
  show disk.find ("./.git/" ++ name) = _
  rw [find, locate_kept_append h.here h.own hsteps hstep]

theorem look_own (h : disk.Shows) : (disk.access.look "./.git").run = .directory := by
  show disk.find "./.git" = _
  rw [find, locate_kept h.here]
  exact h.own

/-- The directory that is seen holds a repository. -/
theorem holds (h : disk.Shows) :
    (disk.access.holds "./.git").run = some ⟨"./.git", "./.git"⟩ := by
  have hcommon : (disk.access.look (pathIn "./.git" "commondir")).run = .absent .notFound :=
    (h.look_kept rfl rfl).trans h.unshared
  have hshared : (disk.access.shared "./.git").run = "./.git" := by
    rw [Access.shared, Id.run_bind, hcommon]
    rfl
  obtain ⟨bytes, hbytes⟩ := h.head
  have hhead : (disk.access.look (pathIn "./.git" "HEAD")).run = .file bytes :=
    (h.look_kept rfl rfl).trans hbytes
  have hobjects : (disk.access.look (pathIn "./.git" "objects")).run = .directory :=
    (h.look_kept rfl rfl).trans h.objects
  have hrefs : (disk.access.look (pathIn "./.git" "refs")).run = .directory :=
    (h.look_kept rfl rfl).trans h.refs
  rw [Access.holds, Id.run_bind, Id.run_bind, Id.run_bind, Id.run_bind, hshared, hhead, hobjects,
    hrefs]
  rfl

/-- The search ends where it starts. -/
theorem discover (h : disk.Shows) (others : List String) :
    (disk.access.discover ("." :: others)).run = .ok ⟨"./.git", "./.git"⟩ := by
  have hplace : pathIn "." directoryName = "./.git" := rfl
  have haround : (disk.access.around ".").run = .ok (some ⟨"./.git", "./.git"⟩) := by
    rw [Access.around, hplace, Id.run_bind, h.look_own, Id.run_bind, h.holds]
    rfl
  rw [Access.discover, Id.run_bind, haround]
  rfl

end Shows

/-- An entry as a file below a place. -/
def fileBelow? (place : Place) : Place × FileState → Option NamedFile
  | (there, .file bytes) =>
    if there.origin == place.origin && place.names.isPrefixOf there.names then
      some (there.names.drop place.names.length, bytes)
    else none
  | (_, .absent _) | (_, .directory) | (_, .sink) => none

theorem filesIn_eq {path : String} {place : Place} (h : disk.locate path = .ok place) :
    disk.filesIn path = disk.entries.filterMap (fileBelow? place) := by
  rw [filesIn, h]
  refine congrArg disk.entries.filterMap (funext fun entry => ?_)
  obtain ⟨there, state⟩ := entry
  cases state <;> rfl

/-- What was there before is no file of the repository. -/
theorem fileBelow?_of_isVacant (hdisk : disk.IsVacant) :
    ∀ entry ∈ disk.entries, fileBelow? (kept []) entry = none := by
  rintro ⟨there, state⟩ hentry
  cases state with
  | absent | directory | sink => rfl
  | file bytes =>
      refine if_neg fun heq => ?_
      rw [Bool.and_eq_true] at heq
      obtain ⟨first, rest, hnames, hne⟩ := hdisk _ hentry (eq_of_beq heq.1)
      have hthere : there.names = first :: rest := hnames
      have hbelow := heq.2
      rw [hthere] at hbelow
      exact hne (eq_of_beq (Bool.and_eq_true _ _ ▸ hbelow).1).symm

/-- The files of a repository are found as they were laid out. -/
theorem filesIn_holding (h : survey.IsKept) (hdisk : disk.IsVacant) :
    (disk.holding (some survey)).filesIn "./.git" = survey.namedFiles := by
  have hfiles : survey.files.filterMap (fun file => fileBelow? (kept []) (kept file.1, file.2)) =
      survey.namedFiles := by
    rw [Survey.files_eq, List.filterMap_append, List.filterMap_map, List.filterMap_map]
    exact (congrArg₂ _ rfl List.filterMap_some).trans (List.nil_append _)
  rw [filesIn_eq (locate_kept (stateAt_here h hdisk)), entries_holding h hdisk,
    List.filterMap_append, List.filterMap_eq_nil_iff.2 (fileBelow?_of_isVacant hdisk),
    List.nil_append, List.filterMap_map]
  exact hfiles

theorem Shows.openIn (h : disk.Shows) (dates : String → Option Int) (others : List String) :
    (disk.access.openIn dates ("." :: others)).run =
      (Survey.ofFiles (disk.filesIn "./.git") (disk.filesIn "./.git")).map
        fun survey => survey.repository dates := by
  rw [Access.openIn, Id.run_bind, h.discover]
  rfl

/-- Where a repository has been laid out, it is found, and read as it was. -/
theorem repository_holding (h : survey.IsKept) (hdisk : disk.IsVacant)
    (dates : String → Option Int) :
    (disk.holding (some survey)).repository dates = .ok (survey.reread.repository dates) := by
  have hupwards (count : Nat) : ∃ others, upwards (count + 1) = "." :: others := by
    rw [upwards, List.range_succ_eq_map, List.map_cons]
    exact ⟨_, rfl⟩
  obtain ⟨others, hothers⟩ := hupwards (disk.holding (some survey)).height
  rw [repository, hothers, (shows_holding h hdisk).openIn, filesIn_holding h hdisk,
    Survey.ofFiles_namedFiles h.toIsOrderly]
  rfl

end Disk

end ReleaseNotes
