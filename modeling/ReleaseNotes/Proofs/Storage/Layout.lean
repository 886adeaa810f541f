import Mathlib.Data.List.Basic
import Std.Data.String.ToInt
import ReleaseNotes.Proofs.Attempts
import ReleaseNotes.Proofs.Storage.Objects
import ReleaseNotes.Proofs.Storage.References

/-!
# A Repository Is Read as It Was Laid Out

The files of a survey are read back as that survey, or nearly so.

Objects and logs come back as they were, since what is read of the one kind is told from
everything else by the names on the way to it. With references it is otherwise. Any file
is taken for a reference if it is asked for by its name, so those that say something
else are read as references too, most of them as garbled ones, and references that
every repository keeps for itself come first. But no reference is asked for by one of
those names: they are taken by other things (`isTaken`). What is asked for by any other
name is there as it was, and a list of references in a place has the same ones in the
same order.

The settings that are read are those that every repository is laid out with, and each
log is read twice, from the directory of the repository and from the one it shares,
which are the same.

## Main definitions

* `Survey.IsOrderly`: A survey that can be laid out.
* `Survey.namedFiles`: The files that a survey is laid out in.
* `Survey.FileNames`: The names of such files.
* `Survey.reread`: What is read from them.
* `Survey.isTaken`: A name that is not that of a reference.

## Theorems

* `Survey.objectFiles_namedFiles`, `Survey.logFiles_namedFiles`: Objects and logs are
  found among the files.
* `Survey.ofFiles_namedFiles`: The files are read without a fault.
* `Survey.filter_refs_reread`: The same references are there in the same order.
* `Survey.repository_reread`: All else in the repository is the same.
* `Survey.ref_reread`, `Survey.resolve_reread`, `Survey.tags_reread`: What is asked of
  references has the same answers.
-/

namespace ReleaseNotes

namespace Repository

variable {repository other : Repository} {apart : String → Prop}

/-- Two repositories that agree on some references agree on what these lead to, if none of
    them leads to any other reference. -/
theorem follow_congr (href : ∀ name, apart name → other.ref name = repository.ref name)
    (hnext : ∀ name found, apart name → repository.ref name = .ok (.name found) → apart found)
    (count : Nat) (name : String) {target : Target}
    (htarget : ∀ found, target = .name found → apart found) :
    other.follow count name target = repository.follow count name target := by
  induction count generalizing name target with
  | zero =>
      cases target with
      | hash | garbled | name => rw [follow, follow]
  | succ count ih =>
      cases target with
      | hash | garbled => rw [follow, follow]
      | name found =>
          have hfound := htarget found rfl
          rw [follow, follow, href found hfound]
          cases hread : repository.ref found with
          | error fault => rfl
          | ok next =>
              refine ih found fun last hlast => hnext found last hfound ?_
              rw [hread, hlast]

theorem resolve_congr (href : ∀ name, apart name → other.ref name = repository.ref name)
    (hnext : ∀ name found, apart name → repository.ref name = .ok (.name found) → apart found)
    {text : String} (htext : ∀ name, lookedFor text = .ok name → apart name) :
    other.resolve text = repository.resolve text := by
  rw [resolve, resolve]
  cases hname : lookedFor text with
  | error fault => rfl
  | ok name =>
      have hapart := htext name hname
      rw [ok_bind, ok_bind, href name hapart]
      cases hread : repository.ref name with
      | error fault => rfl
      | ok target =>
          rw [ok_bind, ok_bind]
          exact follow_congr href hnext maxChain name fun found hfound =>
            hnext name found hapart (hfound ▸ hread)

end Repository

namespace Storage

namespace Survey

section names

/-- The names on the way to a file, with slashes between them, are the name of the
    reference. -/
theorem intercalate_namesOf (name : String) : "/".intercalate (namesOf name) = name := by
  have hslash : "/".toList = ['/'] := rfl
  have hid : String.toList ∘ String.ofList = id := funext fun chars => String.toList_ofList
  rw [← String.toList_inj, String.toList_intercalate, namesOf, List.map_map, hslash, hid,
    List.map_id, List.intercalate_splitOn]

/-- Names without slashes can be told apart when they stand with slashes between them. -/
theorem namesOf_intercalate {names : List String} (hne : names ≠ [])
    (h : ∀ name ∈ names, '/' ∉ name.toList) : namesOf ("/".intercalate names) = names := by
  have hslash : "/".toList = ['/'] := rfl
  have hid : String.ofList ∘ String.toList = id := funext fun text => String.ofList_toList
  rw [namesOf, String.toList_intercalate, hslash, List.splitOn_intercalate, List.map_map, hid,
    List.map_id]
  · intro chars hchars
    obtain ⟨name, hname, rfl⟩ := List.mem_map.1 hchars
    exact h name hname
  · exact mt List.map_eq_nil_iff.1 hne

/-- A name under which a reference can be kept. -/
def IsRefName (name : String) : Prop :=
  namesOf name = ["HEAD"] ∨ ∃ place rest, namesOf name = "refs" :: place :: rest

end names

/-- A survey of which everything but the settings can be laid out in files, so that each
    file can be read and has a name that tells what it is. -/
structure IsOrderly (survey : Survey) : Prop where
  refs : ∀ ref ∈ survey.refs, IsRefName ref.1 ∧ ref.2.IsLegible
  logs : ∀ log ∈ survey.logs, ∀ entry ∈ log.2, entry.IsLegible
  objects : ∀ object ∈ survey.objects, IsHash object.1
  garbled : survey.garbled = []
  table : survey.table = some []
  grafts : survey.grafts = []

section files

/-- The files that every repository has. -/
def commonFiles : List NamedFile :=
  [(["config"], (bytesOf formText).toByteArray),
    (["description"], (bytesOf description).toByteArray),
    (["info", "exclude"], (bytesOf exclusions).toByteArray)]

/-- The file of a reference. -/
def refFile (ref : String × Target) : NamedFile :=
  (namesOf ref.1, (bytesOf ref.2.write).toByteArray)

/-- The file of a log. -/
def logFile (log : String × List LogEntry) : NamedFile :=
  ("logs" :: namesOf log.1, (logText log.2).toByteArray)

/-- The file of an object. -/
def objectFile (object : String × StoredObject) : NamedFile :=
  (objectNames object.1, object.2.toFile.toByteArray)

/-- The files of a repository, by their names in its directory. -/
def namedFiles (survey : Survey) : List NamedFile :=
  commonFiles ++ survey.refs.map refFile ++ survey.logs.map logFile ++
    survey.objects.map objectFile

variable {survey : Survey}

/-- The files are those that the survey is laid out in. -/
theorem map_fileBytes (survey : Survey) :
    survey.fileBytes.map (fun file => (file.1, file.2.toByteArray)) = survey.namedFiles := by
  rw [fileBytes, List.map_append, List.map_append, List.map_append, List.map_map, List.map_map,
    List.map_map]
  rfl

theorem length_start {hash : String} (h : IsHash hash) :
    (String.ofList (hash.toList.take 2)).length = 2 := by
  rw [String.length_ofList, List.length_take, h.length_eq]
  rfl

/-- The names of the files that there can be, by what is in them. -/
inductive FileNames (names : List String) : Prop
  | config (h : names = ["config"])
  | description (h : names = ["description"])
  | exclusions (h : names = ["info", "exclude"])
  | head (h : names = ["HEAD"])
  | ref {place : String} {rest : List String} (h : names = "refs" :: place :: rest)
  | log {rest : List String} (h : names = "logs" :: rest)
  | object {start rest : String} (hstart : start.length = 2) (h : names = ["objects", start, rest])

/-- Each file has the names of its kind. -/
theorem fileNames_of_mem (h : survey.IsOrderly) {file : NamedFile}
    (hfile : file ∈ survey.namedFiles) : FileNames file.1 := by
  rw [namedFiles, List.mem_append, List.mem_append, List.mem_append] at hfile
  rcases hfile with ((hfile | hfile) | hfile) | hfile
  · simp only [commonFiles, List.mem_cons, List.not_mem_nil, or_false] at hfile
    rcases hfile with rfl | rfl | rfl
    · exact .config rfl
    · exact .description rfl
    · exact .exclusions rfl
  · obtain ⟨ref, href, rfl⟩ := List.mem_map.1 hfile
    rcases (h.refs ref href).1 with hhead | ⟨place, rest, hrefs⟩
    · exact .head hhead
    · exact .ref hrefs
  · obtain ⟨log, hlog, rfl⟩ := List.mem_map.1 hfile
    exact .log rfl
  · obtain ⟨object, hobject, rfl⟩ := List.mem_map.1 hfile
    exact .object (length_start (h.objects object hobject)) rfl

theorem fileAt?_eq_none (h : survey.IsOrderly) {names : List String}
    (hnames : ¬ FileNames names) : fileAt? survey.namedFiles names = none := by
  rw [fileAt?, Option.map_eq_none_iff, List.find?_eq_none]
  intro file hfile heq
  exact hnames (eq_of_beq heq ▸ fileNames_of_mem h hfile)

/-- There is no table of references, and nothing that says anything of parents. -/
theorem not_fileNames : ¬ FileNames ["info", "grafts"] ∧ ¬ FileNames ["shallow"] ∧
    ¬ FileNames ["packed-refs"] := by
  refine ⟨fun h => ?_, fun h => ?_, fun h => ?_⟩ <;>
    rcases h with h | h | h | h | h | h | ⟨_, h⟩ <;> simp at h

/-- The settings of a repository that has been laid out. -/
def formSettings : List (String × String) :=
  [("core.logallrefupdates", "true"), ("core.filemode", "true"),
    ("core.repositoryformatversion", "0"), ("core.bare", "false")]

theorem readSettings_formText : readSettings (bytesOf formText) = formSettings := by
  rw [readSettings, textOf_bytesOf]
  decide +kernel

theorem settingsFault?_formSettings : settingsFault? formSettings = none := by
  have hlookup : formSettings.lookup formKey = some "0" := by decide
  -- Reading a number does not compute, but it is known to undo writing one.
  have hversion : "0".toInt? = some 0 := Nat.toInt?_repr 0
  rw [settingsFault?, hlookup, Option.bind_eq_bind, Option.bind_some, hversion]
  rfl

/-- The files of objects are taken for objects, and no others are. -/
theorem objectFiles_namedFiles (h : survey.IsOrderly) :
    objectFiles survey.namedFiles =
      survey.objects.map fun object => (object.1, object.2.toFile.toByteArray) := by
  have hrefs : objectFiles (survey.refs.map refFile) = [] := by
    rw [objectFiles, List.filterMap_eq_nil_iff]
    intro file hfile
    obtain ⟨ref, href, rfl⟩ := List.mem_map.1 hfile
    rcases (h.refs ref href).1 with hnames | ⟨place, rest, hnames⟩ <;> simp [refFile, hnames]
  have hlogs : objectFiles (survey.logs.map logFile) = [] := by
    rw [objectFiles, List.filterMap_eq_nil_iff]
    intro file hfile
    obtain ⟨log, hlog, rfl⟩ := List.mem_map.1 hfile
    rfl
  have hobjects : objectFiles (survey.objects.map objectFile) =
      survey.objects.map fun object => (object.1, object.2.toFile.toByteArray) := by
    rw [objectFiles, List.filterMap_map, ← List.filterMap_eq_map]
    refine List.filterMap_congr fun object hobject => ?_
    have hhash := h.objects object hobject
    have hjoin : String.ofList (object.1.toList.take 2) ++ String.ofList (object.1.toList.drop 2) =
        object.1 := by
      rw [← String.ofList_append, List.take_append_drop, String.ofList_toList]
    have hlength : object.1.length = hashSize := String.length_toList.symm.trans hhash.length_eq
    simp only [Function.comp_apply, objectFile, objectNames, hjoin, length_start hhash, hlength,
      hhash.all_isHexByte, decide_true, Bool.and_self, if_true]
  have happend (files others : List NamedFile) :
      objectFiles (files ++ others) = objectFiles files ++ objectFiles others :=
    List.filterMap_append
  rw [namedFiles, happend, happend, happend, hrefs, hlogs, hobjects]
  rfl

/-- No file is taken for the index of a pack. -/
theorem packedObjects_namedFiles (h : survey.IsOrderly) :
    packedObjects survey.namedFiles = [] := by
  rw [packedObjects, List.flatMap_eq_nil_iff]
  intro file hfile
  cases fileNames_of_mem h hfile with
  | config hnames | description hnames | exclusions hnames | head hnames | ref hnames
  | log hnames => simp [hnames]
  | object hstart hnames =>
      -- The directory of an object has two characters, and that of the packs has four.
      rw [hnames]
      split
      next heq =>
        rw [List.cons.injEq, List.cons.injEq] at heq
        rw [heq.2.1] at hstart
        exact absurd hstart (by decide)
      next => rfl

/-- The files of logs are taken for logs, and no others are. -/
theorem logFiles_namedFiles (h : survey.IsOrderly) :
    logFiles survey.namedFiles = survey.logs := by
  have hrefs : logFiles (survey.refs.map refFile) = [] := by
    rw [logFiles, List.filterMap_eq_nil_iff]
    intro file hfile
    obtain ⟨ref, href, rfl⟩ := List.mem_map.1 hfile
    rcases (h.refs ref href).1 with hnames | ⟨place, rest, hnames⟩ <;> simp [refFile, hnames]
  have hlogs : logFiles (survey.logs.map logFile) = survey.logs := by
    rw [logFiles, List.filterMap_map]
    refine (List.filterMap_congr fun log hlog => ?_).trans List.filterMap_some
    simp only [Function.comp_apply, logFile, toList_toByteArray, intercalate_namesOf,
      readLog_logText (h.logs log hlog)]
  have hobjects : logFiles (survey.objects.map objectFile) = [] := by
    rw [logFiles, List.filterMap_eq_nil_iff]
    intro file hfile
    obtain ⟨object, hobject, rfl⟩ := List.mem_map.1 hfile
    rfl
  have happend (files others : List NamedFile) :
      logFiles (files ++ others) = logFiles files ++ logFiles others :=
    List.filterMap_append
  rw [namedFiles, happend, happend, happend, hrefs, hlogs, hobjects, List.append_nil]
  rfl

/-- What is read of a survey that has been laid out. -/
def reread (survey : Survey) : Survey where
  objects := survey.objects
  refs := refFiles survey.namedFiles survey.namedFiles
  logs := survey.logs ++ survey.logs
  settings := formSettings

/-- The files of a survey are read without a fault, and nearly as it was. -/
theorem ofFiles_namedFiles (h : survey.IsOrderly) :
    ofFiles survey.namedFiles survey.namedFiles = .ok survey.reread := by
  have hconfig : fileAt? survey.namedFiles ["config"] = some (bytesOf formText) := by
    rw [← toList_toByteArray (bytesOf formText)]
    rfl
  have hgrafts : readGrafts [] = .ok [] := rfl
  obtain ⟨hinfo, hshallow, hpacked⟩ := not_fileNames
  rw [ofFiles, hconfig, fileAt?_eq_none h hinfo, fileAt?_eq_none h hshallow,
    fileAt?_eq_none h hpacked]
  simp only [Option.map_some, Option.getD_some, readSettings_formText,
    settingsFault?_formSettings, Option.getD_none, hgrafts]
  rw [ok_bind, ok_bind, objectFiles_namedFiles h, packedObjects_namedFiles h, logFiles_namedFiles h,
    List.append_nil]
  simp only [List.filterMap_map, Function.comp_def, StoredObject.ofFile?_toFile, Option.map_some,
    Option.isNone_some, Bool.false_eq_true, if_false, Prod.mk.eta, List.filterMap_some,
    List.filterMap_none]
  rfl

end files

section refs

variable {survey : Survey}

/-- The names in the directory of a repository that are taken by other things than
    references. -/
def taken : List String := ["config", "description", "info", "logs", "objects"]

/-- A name is that of something else than a reference. -/
def isTaken (name : String) : Bool :=
  (namesOf name).head?.any taken.contains

/-- What a file says if it is taken for a reference. -/
def asRef (file : NamedFile) : String × Target :=
  ("/".intercalate file.1, .read file.2.toList)

/-- The name in front of a slash is the first one. -/
theorem namesOf_append {first : String} (h : '/' ∉ first.toList) (rest : String) :
    namesOf (first ++ "/" ++ rest) = first :: namesOf rest := by
  have hslash : "/".toList = ['/'] := rfl
  rw [namesOf, String.toList_append, String.toList_append, hslash, List.append_assoc,
    List.singleton_append, List.splitOn_append_cons_self_of_not_mem h, List.map_cons,
    String.ofList_toList]
  rfl

/-- A reference in a place is found under its own name in the directory of the place. -/
theorem namesOf_of_place {ref place name : String} (hplace : '/' ∉ place.toList)
    (href : ref.toList = "refs".toList ++ '/' :: (place.toList ++ '/' :: name.toList)) :
    namesOf ref = "refs" :: place :: namesOf name := by
  have hname : ref = "refs" ++ "/" ++ (place ++ "/" ++ name) := by
    simp only [← String.toList_inj, href, String.toList_append, List.append_assoc]
    rfl
  rw [hname, namesOf_append (by decide), namesOf_append hplace]

theorem namesOf_ne_nil (name : String) : namesOf name ≠ [] :=
  mt List.map_eq_nil_iff.1 (List.splitOn_ne_nil _ _)

/-- The file of a reference is read as the reference. -/
theorem asRef_refFile {ref : String × Target} (h : ref.2.IsLegible) :
    asRef (refFile ref) = ref := by
  rw [asRef, refFile, intercalate_namesOf, toList_toByteArray, Target.read_write h]

theorem isTaken_asRef_cons {first : String} (h : '/' ∉ first.toList)
    (htaken : taken.contains first = true) {rest : List String} (hrest : rest ≠ [])
    (bytes : ByteArray) : isTaken (asRef (first :: rest, bytes)).1 = true := by
  rw [asRef, String.intercalate_cons_of_ne_nil hrest, isTaken, namesOf_append h]
  exact htaken

/-- A list taken apart and put together has the same elements of a kind in the same order, if all of
    these are in one of the parts. -/
theorem filter_partition {α : Type} {list : List α} {p q : α → Bool} {side : Bool}
    (h : ∀ a ∈ list, p a = true → q a = side) :
    (list.filter q ++ list.filter fun a => !q a).filter p = list.filter p := by
  have hsame {r : α → Bool} (hr : ∀ a ∈ list, p a = true → r a = true) :
      (list.filter r).filter p = list.filter p := by
    rw [List.filter_filter]
    refine List.filter_congr fun a ha => ?_
    cases hpa : p a with
    | false => rfl
    | true => rw [hr a ha hpa]; rfl
  have hnone {r : α → Bool} (hr : ∀ a ∈ list, p a = true → r a = false) :
      (list.filter r).filter p = [] := by
    rw [List.filter_eq_nil_iff]
    intro a ha hpa
    rw [List.mem_filter] at ha
    exact absurd ((hr a ha.1 hpa).symm.trans ha.2) nofun
  rw [List.filter_append]
  cases side with
  | true => rw [hsame h, hnone fun a ha hpa => by rw [h a ha hpa]; rfl, List.append_nil]
  | false => rw [hnone h, hsame fun a ha hpa => by rw [h a ha hpa]; rfl, List.nil_append]

theorem isTaken_commonFiles : ∀ file ∈ commonFiles, isTaken (asRef file).1 = true := by
  intro file hfile
  simp only [commonFiles, List.mem_cons, List.not_mem_nil, or_false] at hfile
  rcases hfile with rfl | rfl | rfl
  · show isTaken ("/".intercalate ["config"]) = true
    decide
  · show isTaken ("/".intercalate ["description"]) = true
    decide
  · exact isTaken_asRef_cons (by decide) (by decide) (List.cons_ne_nil _ _) _

theorem isTaken_logFile (log : String × List LogEntry) : isTaken (asRef (logFile log)).1 = true :=
  isTaken_asRef_cons (by decide) (by decide) (namesOf_ne_nil _) _

theorem isTaken_objectFile (object : String × StoredObject) :
    isTaken (asRef (objectFile object)).1 = true :=
  isTaken_asRef_cons (by decide) (by decide) (List.cons_ne_nil _ _) _

/-- Of references that are asked for by names that are not taken, the same are there in
    the same order when a survey has been laid out. They are all in one of the two parts
    of which the list is put together. -/
theorem filter_refs_reread (h : survey.IsOrderly) {p : String × Target → Bool} (own : Bool)
    (hp : ∀ ref, p ref = true → isTaken ref.1 = false ∧ isOwn (namesOf ref.1) = own) :
    survey.reread.refs.filter p = survey.refs.filter p := by
  have htaken {ref : String × Target} (htrue : isTaken ref.1 = true) : ¬ p ref = true :=
    fun hpref => absurd (htrue.symm.trans (hp ref hpref).1) nofun
  have hnone {files : List NamedFile} (hfiles : ∀ file ∈ files, isTaken (asRef file).1 = true) :
      (files.map asRef).filter p = [] := by
    rw [List.filter_eq_nil_iff, List.forall_mem_map]
    exact fun file hfile => htaken (hfiles file hfile)
  have hrefs : (survey.refs.map refFile).map asRef = survey.refs := by
    rw [List.map_map]
    exact (List.map_congr_left fun ref href => asRef_refFile (h.refs ref href).2).trans
      (List.map_id _)
  have hall : (survey.namedFiles.map asRef).filter p = survey.refs.filter p := by
    rw [namedFiles, List.map_append, List.map_append, List.map_append, List.filter_append,
      List.filter_append, List.filter_append, hrefs, hnone isTaken_commonFiles,
      hnone (List.forall_mem_map.2 fun log _ => isTaken_logFile log),
      hnone (List.forall_mem_map.2 fun object _ => isTaken_objectFile object), List.nil_append,
      List.append_nil, List.append_nil]
  -- The part that a file is in is told by the name of its reference.
  have hown : ∀ file ∈ survey.namedFiles, (p ∘ asRef) file = true → isOwn file.1 = own := by
    intro file hfile hpfile
    rw [namedFiles, List.mem_append, List.mem_append, List.mem_append] at hfile
    rcases hfile with ((hfile | hfile) | hfile) | hfile
    · exact absurd hpfile (htaken (isTaken_commonFiles file hfile))
    · obtain ⟨ref, href, rfl⟩ := List.mem_map.1 hfile
      rw [Function.comp_apply, asRef_refFile (h.refs ref href).2] at hpfile
      exact (hp ref hpfile).2
    · obtain ⟨log, -, rfl⟩ := List.mem_map.1 hfile
      exact absurd hpfile (htaken (isTaken_logFile log))
    · obtain ⟨object, -, rfl⟩ := List.mem_map.1 hfile
      exact absurd hpfile (htaken (isTaken_objectFile object))
  show ((survey.namedFiles.filter (isOwn ·.1) ++
    survey.namedFiles.filter fun file => !isOwn file.1).map asRef).filter p = _
  rw [List.filter_map, filter_partition hown, ← List.filter_map, hall]

/-- Looking something up asks only the entries of this name. -/
theorem lookup_filter (refs : List (String × Target)) (name : String) :
    (refs.filter (·.1 == name)).lookup name = refs.lookup name := by
  induction refs with
  | nil => rfl
  | cons ref refs ih =>
      rw [List.filter_cons]
      cases hname : ref.1 == name with
      | true =>
          have hsame : (name == ref.1) = true := BEq.comm.trans hname
          rw [if_pos rfl, List.lookup_cons, List.lookup_cons, hsame]
      | false =>
          have hother : (name == ref.1) = false := BEq.comm.trans hname
          rw [if_neg Bool.false_ne_true, ih, List.lookup_cons, hother]

/-- A name that is not taken leads to what it led to before. -/
theorem lookup_refs_reread (h : survey.IsOrderly) {name : String} (hname : isTaken name = false) :
    survey.reread.refs.lookup name = survey.refs.lookup name := by
  have hfilter : survey.reread.refs.filter (·.1 == name) = survey.refs.filter (·.1 == name) :=
    filter_refs_reread h (isOwn (namesOf name)) fun ref href => by
      rw [eq_of_beq href]
      exact ⟨hname, rfl⟩
  rw [← lookup_filter, hfilter, lookup_filter]

end refs

section repository

variable {survey : Survey} {dates : String → Option Int}

/-- All but references, logs and settings is the same in the repository that is read. -/
theorem repository_reread (h : survey.IsOrderly) (dates : String → Option Int) :
    survey.reread.repository dates =
      { survey.repository dates with
        refs := survey.reread.refs
        logs := survey.logs ++ survey.logs
        settings := formSettings } := by
  obtain ⟨objects, garbled, refs, table, logs, grafts, settings⟩ := survey
  obtain ⟨-, -, -, rfl, rfl, rfl⟩ := h
  rfl

/-- A reference is the same in the repository that is read. -/
theorem ref_reread (h : survey.IsOrderly) {name : String} (hname : isTaken name = false) :
    (survey.reread.repository dates).ref name = (survey.repository dates).ref name := by
  have hrefs : (survey.repository dates).refs = survey.refs := rfl
  rw [repository_reread h, Repository.ref, Repository.ref, hrefs]
  simp only [lookup_refs_reread h hname]

/-- Without a table, what is kept under the name of a reference is all that there is. -/
theorem ref_eq_ok_iff (h : survey.table = some []) {name : String} {target : Target} :
    (survey.repository dates).ref name = .ok target ↔
      survey.refs.lookup name = some target ∧ ∀ likeName, target ≠ .garbled likeName := by
  have hrefs : (survey.repository dates).refs = survey.refs := rfl
  have htable : (survey.repository dates).table = some [] := h
  rw [Repository.ref, hrefs, htable]
  cases survey.refs.lookup name with
  | none => simp
  | some found => cases found <;> simp +contextual [eq_comm]

theorem namesOf_of_isPrefixOf {name : String}
    (h : (Repository.tagRef "").toList.isPrefixOf name.toList = true) :
    ∃ rest, namesOf name = "refs" :: "tags" :: rest := by
  obtain ⟨rest, hrest⟩ := List.isPrefixOf_iff_prefix.1 h
  have htail : (String.ofList rest).toList = rest := String.toList_ofList
  refine ⟨namesOf (String.ofList rest), namesOf_of_place (by decide) ?_⟩
  rw [← hrest, htail]
  rfl

/-- What a name leads to is the same, if it is not taken and references lead to no name
    that is. -/
theorem resolve_reread (h : survey.IsOrderly)
    (hrefs : ∀ ref ∈ survey.refs, ∀ name, ref.2 = .name name → isTaken name = false)
    {text : String}
    (htext : ∀ name, Repository.lookedFor text = .ok name → isTaken name = false) :
    (survey.reread.repository dates).resolve text = (survey.repository dates).resolve text := by
  refine Repository.resolve_congr (fun name hname => ref_reread h hname) ?_ htext
  intro name found hname hfound
  obtain ⟨front, back, hsplit, -⟩ :=
    List.lookup_eq_some_iff.1 ((ref_eq_ok_iff h.table).1 hfound).1
  have hmem : (name, .name found) ∈ survey.refs :=
    hsplit ▸ List.mem_append_right _ List.mem_cons_self
  exact hrefs _ hmem found rfl

/-- The tags are the same, and in the same order. -/
theorem tags_reread (h : survey.IsOrderly) :
    (survey.reread.repository dates).tags = (survey.repository dates).tags := by
  have hrefs : (survey.repository dates).refs = survey.refs := rfl
  have hfilter {p : String × Target → Bool}
      (hp : ∀ ref, p ref = true →
        (Repository.tagRef "").toList.isPrefixOf ref.1.toList = true) :
      survey.reread.refs.filter p = survey.refs.filter p := by
    refine filter_refs_reread h false fun ref href => ?_
    obtain ⟨rest, hrest⟩ := namesOf_of_isPrefixOf (hp ref href)
    rw [isTaken, hrest]
    exact ⟨rfl, rfl⟩
  rw [repository_reread h, Repository.tags, Repository.tags, Repository.namesIn,
    Repository.namesIn, hrefs]
  simp only []
  rw [hfilter]
  intro ref href
  exact (Bool.and_eq_true _ _ ▸ href).1

end repository

end Survey

end Storage

end ReleaseNotes
