import ReleaseNotes.CommandLine.Run
import ReleaseNotes.Proofs.Storage.Standing
import ReleaseNotes.Proofs.Storage.Upwards

/-!
# Worlds with a Repository

What a run sees in a directory that holds a repository besides other files.

The repository is the one that was laid out there (`World.repository_ofParts`). The other
files are what they would be without it: a name that leads down from the working directory
leads to what is there, and the repository is only behind its own name. A file that is not
there can be written.

## Theorems

* `Disk.pathSteps_of_isPlain`: A name is a path of one step.
* `Disk.find_of_isPlain`: What a name leads to.
* `Disk.write_of_isPlain`: A file of a new name can be written.
* `Disk.find_holding`: A repository makes no difference to what names lead to.
* `World.repository_ofParts`: The repository that a run opens.
-/

namespace ReleaseNotes

open Storage

namespace Disk

variable {disk : Disk} {survey : Survey} {name : String}

/-- A name that leads down is a path of one step, if it is not too long. -/
theorem pathSteps_of_isPlain (hname : IsPlain name) (hsize : name.utf8ByteSize ≤ Place.maxName) :
    pathSteps name = .ok [name] := by
  have hnames : (name.toList.splitOn '/').map String.ofList = [name] := by
    rw [List.splitOn_eq_singleton hname.noSlash, List.map_singleton, String.ofList_toList]
  have hshort : ¬ maxPath < name.utf8ByteSize :=
    Nat.not_lt.2 (Nat.le_trans hsize (by decide))
  rw [pathSteps, if_neg (mt String.isEmpty_iff.1 hname.notEmpty), if_neg hshort, hnames]

theorem pathStart_of_isPlain (hname : IsPlain name) : pathStart name = .below [] :=
  if_neg fun hslash => hname.noSlash (List.mem_of_mem_head? (eq_of_beq hslash))

theorem step_of_isPlain (hname : IsPlain name) (hsize : name.utf8ByteSize ≤ Place.maxName) :
    (Place.below []).step name = .ok (.below [name]) := by
  rw [Place.step, if_neg (by simp [hname.notEmpty, hname.notHere]),
    if_neg (by simpa using hname.notUp), if_neg (Nat.not_lt.2 hsize)]
  rfl

/-- A name that leads down leads to what is there in the working directory. -/
theorem find_of_isPlain (hhere : disk.stateAt (.below []) = .directory) (hname : IsPlain name)
    (hsize : name.utf8ByteSize ≤ Place.maxName) :
    disk.find name = disk.stateAt (.below [name]) := by
  have hlocate : disk.locate name = .ok (.below [name]) := by
    rw [locate, pathSteps_of_isPlain hname hsize, ok_bind, pathStart_of_isPlain hname]
    exact (foldlM_step_cons hhere (step_of_isPlain hname hsize) []).trans rfl
  rw [find, hlocate]

/-- A file of a new name can be written in the working directory. -/
theorem write_of_isPlain (hhere : disk.stateAt (.below []) = .directory) (hname : IsPlain name)
    (hsize : name.utf8ByteSize ≤ Place.maxName) {fault : PathFault}
    (habsent : disk.stateAt (.below [name]) = .absent fault) (text : String) :
    disk.write name text = .ok (disk.put (.below [name]) (.file text.toUTF8)) := by
  -- A file is looked for by the directory that it is in and the last step, which is the name.
  have hlocate : disk.locateFile name = .ok (.below [name]) := by
    have hsteps : (([name].reverse.dropWhile (·.isEmpty)).reverse) = [name] := by
      have hnot : ¬ name.isEmpty = true := mt String.isEmpty_iff.1 hname.notEmpty
      rw [List.reverse_singleton, List.dropWhile_cons_of_neg hnot, List.reverse_singleton]
    have hstay : disk.step (.below []) "." = .ok (.below []) := step_eq_ok_iff.2 ⟨hhere, rfl⟩
    have hlast : (Place.below []).step name = .ok (.below [name]) := step_of_isPlain hname hsize
    have hdown : (some name == some "" || name == "." || name == "..") = false := by
      simp [hname.notEmpty, hname.notHere, hname.notUp]
    rw [locateFile, pathSteps_of_isPlain hname hsize, pathStart_of_isPlain hname]
    simp only [Except.mapError, ok_bind, hsteps, List.dropLast_singleton, List.foldlM_nil,
      List.getLast?_singleton, List.getLast_singleton, pure, Except.pure, hstay, hdown, hlast,
      Bool.false_eq_true, if_false]
    rfl
  rw [write, hlocate, ok_bind]
  simp only [habsent]
  rfl

/-- The working directory is one, if nothing is in the way of a repository. -/
theorem stateAt_here_of_isVacant (hdisk : disk.IsVacant) :
    disk.stateAt (.below []) = .directory := by
  have hnone : disk.listed (.below []) = none := by
    rw [listed_eq_none_iff]
    intro entry hentry heq
    obtain ⟨first, rest, hnames, -⟩ := hdisk entry hentry (congrArg Place.origin heq)
    rw [heq] at hnames
    exact nomatch hnames
  rw [stateAt, hnone]
  rfl

/-- A repository makes no difference to what names lead to, but for its own. -/
theorem find_holding (h : survey.IsKept) (hdisk : disk.IsVacant) (hname : IsPlain name)
    (hsize : name.utf8ByteSize ≤ Place.maxName) (hother : name ≠ directoryName) :
    (disk.holding (some survey)).find name = disk.find name := by
  have hapart : (Place.below [name]).IsApart := fun _ => ⟨name, [], rfl, hother⟩
  rw [find_of_isPlain (stateAt_here h hdisk) hname hsize,
    find_of_isPlain (stateAt_here_of_isVacant hdisk) hname hsize,
    stateAt_of_isApart h hdisk hapart]

end Disk

namespace CommandLine

@[simp]
theorem World.working_ofParts (files home : Disk) (repository : Option Survey) (input : String) :
    (World.ofParts files home repository input).working = files.holding repository := rfl

@[simp]
theorem World.dates_ofParts (files home : Disk) (repository : Option Survey) (input : String) :
    (World.ofParts files home repository input).dates = fun _ => none := rfl

/-- The repository that a run opens is the one that was laid out. -/
theorem World.repository_ofParts {files : Disk} {survey : Survey} (h : survey.IsKept)
    (hfiles : files.IsVacant) (home : Disk) (input : String) :
    (World.ofParts files home (some survey) input).repository =
      .ok (survey.reread.repository fun _ => none) := by
  rw [World.repository, World.working_ofParts, World.dates_ofParts,
    Disk.repository_holding h hfiles]

end CommandLine

end ReleaseNotes
