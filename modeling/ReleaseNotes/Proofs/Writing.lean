import ReleaseNotes.Disk
import ReleaseNotes.Proofs.Attempts

/-!
# What a Write Changes

A write puts a file into one place and leaves all others as they were.

What is in a place is not always listed there. A directory may only be known from
what is below it, so putting a file somewhere could turn the places above it into
directories. It does not, because a file is only put into something that is a
directory already, and what is above a directory either is listed, or stands on
every machine, or has that directory below it (`stateAt_put_of_ne`).

So every directory stays one, and a path that led somewhere still leads there. The
path that was written to leads to the place of the new file, before the write as
after it.

## Main definitions

* `Disk.Gains`: One file has come onto a disk, and nothing else has changed.

## Theorems

* `Disk.holdsBelow_put`: What is below a place after something was put onto a disk.
* `Disk.stateAt_put_of_ne`: Putting something into a directory changes nothing
  else.
* `Disk.locate_of_directories`: A path still leads somewhere where every directory
  stays one.
* `Disk.locateFile_eq_ok`: The place that a path names for a file.
* `Disk.gains_of_write`: What a write that succeeds changes.
-/

namespace ReleaseNotes

namespace Place

/-- A place is another one or somewhere below it. -/
def isBelow (place other : Place) : Bool :=
  place.origin == other.origin && other.names.isPrefixOf place.names

/-- The place of something in a directory. -/
def child (directory : Place) (name : String) : Place :=
  { directory with names := directory.names ++ [name] }

/-- What is above something in a directory is the directory or above it. -/
theorem isBelow_of_child {directory other : Place} {name : String}
    (h : (directory.child name).isBelow other = true) (hne : other ≠ directory.child name) :
    directory.isBelow other = true := by
  rw [isBelow, Bool.and_eq_true, beq_iff_eq, List.isPrefixOf_iff_prefix] at h ⊢
  refine ⟨h.1, (List.prefix_concat_iff.1 h.2).resolve_left fun hnames => hne ?_⟩
  cases other
  exact congr (congrArg mk h.1.symm) hnames

theorem isBelow_trans {a b c : Place} (h : a.isBelow b = true) (h' : b.isBelow c = true) :
    a.isBelow c = true := by
  rw [isBelow, Bool.and_eq_true, beq_iff_eq, List.isPrefixOf_iff_prefix] at h h' ⊢
  exact ⟨h.1.trans h'.1, h'.2.trans h.2⟩

/-- The directories that stand on every machine are the origins and some of what is
    directly below the root. -/
theorem standing?_eq_directory_iff (place : Place) :
    place.standing? = some .directory ↔
      place.names = [] ∨
        place.origin = .root ∧ ∃ name ∈ standardDirectories, place.names = [name] := by
  obtain ⟨origin, names⟩ := place
  unfold standing?
  split <;> grind

/-- What is above a directory of every machine is such a directory as well. -/
theorem standing?_of_isBelow {place other : Place} (h : place.isBelow other = true)
    (hplace : place.standing? = some .directory) : other.standing? = some .directory := by
  rw [isBelow, Bool.and_eq_true, beq_iff_eq, List.isPrefixOf_iff_prefix] at h
  rw [standing?_eq_directory_iff] at hplace ⊢
  obtain ⟨horigin, hnames⟩ := h
  rcases hplace with hnil | ⟨hroot, name, hname, hone⟩
  · rw [hnil, List.prefix_nil] at hnames
    exact .inl hnames
  · rw [hone, ← List.nil_append [name], List.prefix_concat_iff, List.prefix_nil] at hnames
    rcases hnames with hnames | hnil
    · exact .inr ⟨horigin.symm.trans hroot, name, hname, hnames⟩
    · exact .inl hnil

end Place

namespace Disk

variable {disk : Disk} {directory place other : Place} {state : FileState}

theorem stateAt_put_self (disk : Disk) (place : Place) (state : FileState) :
    (disk.put place state).stateAt place = state := by
  rw [stateAt, listed_put_self]

theorem holdsBelow_eq_true_iff :
    disk.holdsBelow other = true ↔ ∃ entry ∈ disk.entries, entry.1.isBelow other = true :=
  List.any_eq_true

/-- Something is listed below a place if it is there already or has just been put
    there. -/
theorem holdsBelow_put :
    (disk.put place state).holdsBelow other = true ↔
      disk.holdsBelow other = true ∨ place.isBelow other = true := by
  simp only [holdsBelow_eq_true_iff, put, List.mem_append, List.mem_filter, List.mem_singleton,
    bne_iff_ne]
  constructor
  · rintro ⟨entry, ⟨hentry, -⟩ | rfl, hbelow⟩
    · exact .inl ⟨entry, hentry, hbelow⟩
    · exact .inr hbelow
  · rintro (⟨entry, hentry, hbelow⟩ | hbelow)
    · by_cases hplace : entry.1 = place
      · exact ⟨(place, state), .inr rfl, hplace ▸ hbelow⟩
      · exact ⟨entry, .inl ⟨hentry, hplace⟩, hbelow⟩
    · exact ⟨(place, state), .inr rfl, hbelow⟩

/-- What is above a directory is known to be one without looking at what is to be
    put into it. -/
theorem holdsBelow_of_directory (hdirectory : disk.stateAt directory = .directory)
    (hbelow : directory.isBelow other = true) (hstanding : other.standing? = none) :
    disk.holdsBelow other = true := by
  rw [holdsBelow_eq_true_iff]
  -- A directory is listed, or stands on every machine, or has something below it.
  cases hlisted : disk.listed directory with
  | some state =>
      obtain ⟨entry, hentry, -⟩ := Option.map_eq_some_iff.1 hlisted
      have hplace : entry.1 = directory := by simpa using List.find?_some hentry
      exact ⟨entry, List.mem_of_find?_eq_some hentry, hplace ▸ hbelow⟩
  | none =>
      rw [stateAt, hlisted] at hdirectory
      cases hplace : directory.standing? with
      | some state =>
          rw [hplace] at hdirectory
          rw [Place.standing?_of_isBelow hbelow (hplace.trans (congrArg some hdirectory))]
            at hstanding
          cases hstanding
      | none =>
          rw [hplace] at hdirectory
          cases hholds : disk.holdsBelow directory with
          | true =>
              obtain ⟨entry, hentry, hentryBelow⟩ := holdsBelow_eq_true_iff.1 hholds
              exact ⟨entry, hentry, Place.isBelow_trans hentryBelow hbelow⟩
          | false =>
              rw [hholds] at hdirectory
              cases hdirectory

/-- Putting something into a directory changes what is in its place and nothing
    else. -/
theorem stateAt_put_of_ne {name : String} (hdirectory : disk.stateAt directory = .directory)
    (hne : other ≠ directory.child name) :
    (disk.put (directory.child name) state).stateAt other = disk.stateAt other := by
  rw [stateAt, stateAt, listed_put_of_ne disk state hne]
  cases disk.listed other with
  | some listed => rfl
  | none =>
      cases hstanding : other.standing? with
      | some standing => rfl
      | none =>
          -- Only a place above the new file could become a directory by it.
          have hiff : (disk.put (directory.child name) state).holdsBelow other = true ↔
              disk.holdsBelow other = true := by
            rw [holdsBelow_put, or_iff_left_iff_imp]
            intro hbelow
            exact holdsBelow_of_directory hdirectory (Place.isBelow_of_child hbelow hne) hstanding
          simp only [hiff]

/-- A step leads somewhere from directories only. -/
theorem step_eq_ok_iff {name : String} :
    disk.step directory name = .ok place ↔
      disk.stateAt directory = .directory ∧ directory.step name = .ok place := by
  unfold step
  cases disk.stateAt directory <;> simp

/-- Where every directory stays one, a path that led somewhere still leads
    there. -/
theorem foldlM_step_of_directories {disk' : Disk} {names : List String}
    (hdirectories : ∀ place, disk.stateAt place = .directory → disk'.stateAt place = .directory)
    (h : names.foldlM disk.step directory = .ok place) :
    names.foldlM disk'.step directory = .ok place := by
  induction names generalizing directory with
  | nil => exact h
  | cons name rest ih =>
      rw [List.foldlM_cons] at h ⊢
      cases hstep : disk.step directory name with
      | error fault =>
          rw [hstep] at h
          cases h
      | ok next =>
          rw [hstep] at h
          obtain ⟨hdirectory, hname⟩ := step_eq_ok_iff.1 hstep
          rw [step_eq_ok_iff.2 ⟨hdirectories directory hdirectory, hname⟩]
          exact ih h

/-- A path that leads to a directory leads on to what is in it. -/
theorem foldlM_step_concat {start : Place} {names : List String} {name : String}
    (hnames : names.foldlM disk.step start = .ok directory)
    (hdirectory : disk.stateAt directory = .directory) (hname : directory.step name = .ok place) :
    (names ++ [name]).foldlM disk.step start = .ok place := by
  rw [List.foldlM_append]
  exact bind_eq_ok_iff.2 ⟨directory, hnames,
    bind_eq_ok_iff.2 ⟨place, step_eq_ok_iff.2 ⟨hdirectory, hname⟩, rfl⟩⟩

theorem locate_eq_ok_iff {path : String} :
    disk.locate path = .ok place ↔
      ∃ steps, pathSteps path = .ok steps ∧
        steps.foldlM disk.step (pathStart path) = .ok place :=
  bind_eq_ok_iff

theorem locate_of_directories {disk' : Disk} {path : String}
    (hdirectories : ∀ place, disk.stateAt place = .directory → disk'.stateAt place = .directory)
    (h : disk.locate path = .ok place) : disk'.locate path = .ok place := by
  obtain ⟨steps, hsteps, hplace⟩ := locate_eq_ok_iff.1 h
  exact locate_eq_ok_iff.2 ⟨steps, hsteps, foldlM_step_of_directories hdirectories hplace⟩

/-- What is dropped from a path that names a file is nothing. -/
theorem reverse_dropWhile_isEmpty {steps : List String} (h : steps.getLast? ≠ some "") :
    (steps.reverse.dropWhile (·.isEmpty)).reverse = steps := by
  rw [List.getLast?_eq_head?_reverse] at h
  cases hreverse : steps.reverse with
  | nil => exact (List.reverse_eq_nil_iff.1 hreverse).symm
  | cons last before =>
      rw [hreverse, List.head?_cons] at h
      have hlast : last.isEmpty = false := by
        rw [Bool.eq_false_iff, ne_eq, String.isEmpty_iff]
        exact fun hempty => h (congrArg some hempty)
      rw [List.dropWhile_cons_of_neg (by rw [hlast]; exact Bool.false_ne_true), ← hreverse,
        List.reverse_reverse]

/-- A step that is no detour leads down. -/
theorem step_eq_child {name : String} (h : directory.step name = .ok place) (hempty : name ≠ "")
    (hpoint : name ≠ ".") (hpoints : name ≠ "..") : place = directory.child name := by
  unfold Place.step at h
  rw [if_neg (by simp [hempty, hpoint]), if_neg (by simpa using hpoints)] at h
  split at h
  · cases h
  · exact (Except.ok.inj h).symm

/-- The place that a path names for a file is in a directory, under the last name of
    the path. -/
theorem locateFile_eq_ok {path : String} (h : disk.locateFile path = .ok place) :
    ∃ directory name, disk.stateAt directory = .directory ∧ place = directory.child name ∧
      disk.locate path = .ok place := by
  obtain ⟨steps, hsteps, hnames⟩ := bind_eq_ok_iff.1 h
  rw [mapError_eq_ok_iff] at hsteps
  dsimp only at hnames
  split at hnames
  · cases hnames
  · rename_i first rest heq
    obtain ⟨directory, hdirectory, hstays⟩ := bind_eq_ok_iff.1 hnames
    obtain ⟨_, hstays, hlast⟩ := bind_eq_ok_iff.1 hstays
    split at hlast
    · cases hlast
    · rename_i hpoints
      rw [mapError_eq_ok_iff] at hdirectory hlast
      simp only [Bool.or_eq_true, beq_iff_eq, not_or] at hpoints
      obtain ⟨⟨hempty, hpoint⟩, hpoints⟩ := hpoints
      -- Nothing was dropped, so the path is what is left of it.
      obtain rfl : steps = first :: rest := by rw [← heq, reverse_dropWhile_isEmpty hempty]
      have hsplit := List.dropLast_concat_getLast (List.cons_ne_nil first rest)
      generalize (first :: rest).getLast (List.cons_ne_nil first rest) = last
        at hlast hpoint hpoints hsplit
      -- A step that stays where it is still needs a directory.
      have hstate : disk.stateAt directory = .directory := by
        cases hstep : disk.step directory "." with
        | error fault =>
            rw [hstep] at hstays
            cases hstays
        | ok same => exact (step_eq_ok_iff.1 hstep).1
      have hlocate : disk.locate path = .ok place :=
        locate_eq_ok_iff.2 ⟨first :: rest, hsteps,
          hsplit ▸ foldlM_step_concat hdirectory hstate hlast⟩
      have hne : last ≠ "" := by
        rintro rfl
        exact hempty (by rw [← hsplit, List.getLast?_concat])
      exact ⟨directory, last, hstate, step_eq_child hlast hne hpoint hpoints, hlocate⟩

/-- One file has come onto a disk, and nothing else has changed. -/
structure Gains (disk : Disk) (path text : String) (place : Place) (written : Disk) : Prop where
  leads : disk.locate path = .ok place
  stillLeads : written.locate path = .ok place
  holds : written.stateAt place = .file text.toUTF8
  others : ∀ other, other ≠ place → written.stateAt other = disk.stateAt other

/-- What the path leads to is the text, and nothing else. -/
theorem Gains.find {written : Disk} {path text : String}
    (h : disk.Gains path text place written) : written.find path = .file text.toUTF8 := by
  rw [Disk.find, h.stillLeads]
  exact h.holds

theorem gains_put {path text : String} (h : disk.locateFile path = .ok place)
    (hplace : disk.stateAt place ≠ .directory) :
    disk.Gains path text place (disk.put place (.file text.toUTF8)) := by
  obtain ⟨directory, name, hdirectory, rfl, hlocate⟩ := locateFile_eq_ok h
  -- No directory is written over, so all of them stay and the path leads on.
  refine ⟨hlocate, locate_of_directories (fun other hother => ?_) hlocate, stateAt_put_self .., ?_⟩
  · rw [stateAt_put_of_ne hdirectory (fun heq => hplace (heq ▸ hother)), hother]
  · exact fun other hne => stateAt_put_of_ne hdirectory hne

/-- A write that succeeds puts the text where the path leads and changes nothing
    else. What takes in everything stays as it is. -/
theorem gains_of_write {written : Disk} {path text : String}
    (h : disk.write path text = .ok written) :
    disk.find path = .sink ∧ written = disk ∨ ∃ place, disk.Gains path text place written := by
  obtain ⟨place, hplace, h⟩ := bind_eq_ok_iff.1 h
  split at h
  · cases h
  · rename_i hsink
    obtain ⟨-, -, -, -, hlocate⟩ := locateFile_eq_ok hplace
    refine .inl ⟨?_, (Except.ok.inj h).symm⟩
    rw [find, hlocate]
    exact hsink
  · rename_i hstate
    exact .inr ⟨place, Except.ok.inj h ▸ gains_put hplace (by rw [hstate]; exact nofun)⟩
  · rename_i hstate
    exact .inr ⟨place, Except.ok.inj h ▸ gains_put hplace (by rw [hstate]; exact nofun)⟩

end Disk

end ReleaseNotes
