import ReleaseNotes.Proofs.Attempts
import ReleaseNotes.Proofs.Storage.Discovery

/-!
# A Search Upwards

How far up a repository is looked for makes no difference, as long as it is far enough.

A machine is asked directory by directory up to its root. A disk only knows how many
steps above the working directory something is listed (`Disk.height`), and is searched
that far. Above that there is nothing to be found: a path that goes up leads to where it
says, if it leads anywhere, and a name behind it is then that of a place that no entry
is about. So each directory up there is passed over, and the search may as well go on
for as long as that of a machine does (`repository_eq_openIn`).

## Main definitions

* `Disk.IsPlain`: A name that leads down.

## Theorems

* `Disk.le_height`: Nothing is listed above the height.
* `Disk.place_eq_of_locate`: Where a path leads that goes up and then down by a name.
* `Disk.around_above`: No repository is around a directory above the height.
* `Disk.discover_append`: Directories without a repository make no difference at the end.
* `Disk.repository_eq_openIn`: Looking further up finds the same.
-/

namespace ReleaseNotes

open Storage

namespace Disk

variable {disk : Disk} {steps : Nat} {name : String}

/-- The greater of a height and that of an entry. -/
def higher (height : Nat) (entry : Place × FileState) : Nat :=
  match entry.1.origin with
  | .above steps => max height steps
  | .root => height

theorem le_higher (height : Nat) (entry : Place × FileState) : height ≤ higher height entry := by
  rw [higher]
  split
  · exact Nat.le_max_left ..
  · exact Nat.le_refl _

/-- Nothing is listed above the height of a disk. -/
theorem le_height {entry : Place × FileState} (hentry : entry ∈ disk.entries)
    (horigin : entry.1.origin = .above steps) : steps ≤ disk.height := by
  -- By induction on the entries, with any height to start from.
  have hfold (entries : List (Place × FileState)) (start : Nat) :
      start ≤ entries.foldl higher start ∧
        ∀ entry ∈ entries, entry.1.origin = .above steps → steps ≤ entries.foldl higher start := by
    induction entries generalizing start with
    | nil => exact ⟨Nat.le_refl _, nofun⟩
    | cons first entries ih =>
        obtain ⟨hstart, hentries⟩ := ih (higher start first)
        rw [List.foldl_cons]
        refine ⟨Nat.le_trans (le_higher start first) hstart,
          List.forall_mem_cons.2 ⟨fun hfirst => ?_, hentries⟩⟩
        refine Nat.le_trans ?_ hstart
        rw [higher, hfirst]
        exact Nat.le_max_right ..
  exact (hfold disk.entries 0).2 entry hentry horigin

theorem stateAt_above (h : disk.height < steps) (name : String) :
    disk.stateAt ⟨.above steps, [name]⟩ = .absent .notFound := by
  have hlisted : disk.listed ⟨.above steps, [name]⟩ = none := by
    rw [listed_eq_none_iff]
    intro entry hentry heq
    exact absurd (le_height hentry (congrArg Place.origin heq)) (Nat.not_le.2 h)
  have hbelow : disk.holdsBelow ⟨.above steps, [name]⟩ = false := by
    rw [Bool.eq_false_iff, ne_eq, holdsBelow_eq_true_iff]
    rintro ⟨entry, hentry, heq⟩
    rw [Place.isBelow, Bool.and_eq_true] at heq
    exact absurd (le_height hentry (eq_of_beq heq.1)) (Nat.not_le.2 h)
  have hstanding : (⟨.above steps, [name]⟩ : Place).standing? = none := by
    simp [Place.standing?]
  rw [stateAt, hlisted, hstanding, hbelow]
  rfl

/-- Steps upwards lead to where they say, if they lead anywhere. -/
theorem foldlM_up {start place : Place} {origin : Nat} (hstart : start = ⟨.above origin, []⟩)
    (count : Nat) (h : (List.replicate count "..").foldlM disk.step start = .ok place) :
    place = ⟨.above (origin + count), []⟩ := by
  induction count generalizing origin start with
  | zero => exact (Except.ok.inj h).symm.trans hstart
  | succ count ih =>
      rw [List.replicate_succ, List.foldlM_cons, bind_eq_ok_iff] at h
      obtain ⟨next, hnext, h⟩ := h
      have hparent : next = ⟨.above (origin + 1), []⟩ := by
        have hstep := (step_eq_ok_iff.1 hnext).2
        rw [hstart] at hstep
        exact (Except.ok.inj hstep).symm
      rw [ih hparent h, Nat.add_right_comm]
      rfl

/-- A name that leads down. -/
structure IsPlain (name : String) : Prop where
  noSlash : '/' ∉ name.toList
  notEmpty : name ≠ ""
  notHere : name ≠ "."
  notUp : name ≠ ".."

theorem steps_eq_of_ok {text : String} {names : List String} (h : pathSteps text = .ok names) :
    names = Survey.namesOf text := by
  rw [pathSteps] at h
  split at h
  · cases h
  · split at h
    · cases h
    · exact (Except.ok.inj h).symm

theorem namesOf_upPath (hname : IsPlain name) (steps : Nat) :
    Survey.namesOf (upPath steps ++ "/" ++ name) =
      "." :: (List.replicate steps ".." ++ [name]) := by
  rw [upPath, ← String.intercalate_singleton (t := name),
    ← String.intercalate_append_of_ne_nil (List.cons_ne_nil _ _) (List.cons_ne_nil _ _),
    List.cons_append]
  refine Survey.namesOf_intercalate (List.cons_ne_nil _ _)
    (List.forall_mem_cons.2 ⟨by decide, ?_⟩)
  intro other hother
  rcases List.mem_append.1 hother with hother | hother
  · rw [List.eq_of_mem_replicate hother]
    decide
  · rw [List.mem_singleton.1 hother]
    exact hname.noSlash

/-- A path that goes up and then down by a name leads to that name, if it leads
    anywhere. -/
theorem place_eq_of_locate (hname : IsPlain name) {place : Place}
    (h : disk.locate (upPath steps ++ "/" ++ name) = .ok place) :
    place = ⟨.above steps, [name]⟩ := by
  have hstart : pathStart (upPath steps ++ "/" ++ name) = .below [] := by
    cases steps with
    | zero =>
        rw [pathStart, String.toList_append]
        rfl
    | succ steps =>
        rw [upPath, List.replicate_succ, String.intercalate_cons_of_ne_nil (List.cons_ne_nil _ _),
          pathStart]
        simp only [String.toList_append]
        rfl
  -- A step that stays, the steps upwards, and the step down are gone one by one.
  obtain ⟨names, hnames, hfold⟩ := locate_eq_ok_iff.1 h
  rw [steps_eq_of_ok hnames, namesOf_upPath hname, hstart, List.foldlM_cons,
    bind_eq_ok_iff] at hfold
  obtain ⟨here, hhere, hfold⟩ := hfold
  have hbelow : here = ⟨.above 0, []⟩ := (Except.ok.inj (step_eq_ok_iff.1 hhere).2).symm
  rw [List.foldlM_append, bind_eq_ok_iff] at hfold
  obtain ⟨above, habove, hlast⟩ := hfold
  rw [foldlM_up hbelow steps habove, List.foldlM_cons, bind_eq_ok_iff] at hlast
  obtain ⟨last, hlast, hplace⟩ := hlast
  have hchild :=
    step_eq_child (step_eq_ok_iff.1 hlast).2 hname.notEmpty hname.notHere hname.notUp
  rw [← Except.ok.inj hplace, hchild, Nat.zero_add]
  rfl

/-- Nothing is found above the height of a disk. -/
theorem look_above (h : disk.height < steps) (hname : IsPlain name) :
    ∃ fault, (disk.access.look (pathIn (upPath steps) name)).run = .absent fault := by
  have hpath : pathIn (upPath steps) name = upPath steps ++ "/" ++ name := by
    refine if_neg fun hslash => hname.noSlash ?_
    exact List.mem_of_mem_head? (eq_of_beq hslash)
  show ∃ fault, disk.find (pathIn (upPath steps) name) = .absent fault
  rw [hpath]
  cases hlocate : disk.locate (upPath steps ++ "/" ++ name) with
  | error fault => exact ⟨fault, by rw [find, hlocate]⟩
  | ok place =>
      refine ⟨.notFound, ?_⟩
      rw [find, hlocate, place_eq_of_locate hname hlocate]
      exact stateAt_above h name

/-- No repository is around a directory above the height of a disk. -/
theorem around_above (h : disk.height < steps) :
    (disk.access.around (upPath steps)).run = .ok none := by
  have hdirectory : IsPlain directoryName := ⟨by decide, by decide, by decide, by decide⟩
  have hhead : IsPlain "HEAD" := ⟨by decide, by decide, by decide, by decide⟩
  obtain ⟨_, hown⟩ := look_above h hdirectory
  obtain ⟨_, hhead⟩ := look_above h hhead
  have hholds : (disk.access.holds (upPath steps)).run = none := by
    rw [Access.holds, Id.run_bind, Id.run_bind, hhead]
    rfl
  rw [Access.around, Id.run_bind, hown]
  exact congrArg Except.ok hholds

/-- Directories without a repository make no difference at the end of a search. -/
theorem discover_append {access : Access Id} {first others : List String}
    (h : ∀ directory ∈ others, (access.around directory).run = .ok none) :
    (access.discover (first ++ others)).run = (access.discover first).run := by
  have hothers : (access.discover others).run = .error .absent := by
    induction others with
    | nil => rfl
    | cons directory others ih =>
        obtain ⟨hdirectory, hothers⟩ := List.forall_mem_cons.1 h
        rw [Access.discover, Id.run_bind, hdirectory]
        exact ih hothers
  induction first with
  | nil => exact hothers
  | cons directory first ih =>
      rw [List.cons_append, Access.discover, Access.discover, Id.run_bind, Id.run_bind]
      cases (access.around directory).run with
      | error fault => rfl
      | ok found =>
          cases found with
          | some found => rfl
          | none => exact ih

/-- It makes no difference how far up a repository is looked for, as long as that is above
    everything that is listed. -/
theorem repository_eq_openIn {count : Nat} (h : disk.height < count)
    (dates : String → Option Int) :
    disk.repository dates = (disk.access.openIn dates (upwards count)).run := by
  obtain ⟨more, rfl⟩ := Nat.exists_eq_add_of_lt h
  have hupwards : upwards (disk.height + more + 1) =
      upwards (disk.height + 1) ++ (List.range more).map fun n => upPath (disk.height + 1 + n) := by
    rw [upwards, upwards, Nat.add_right_comm, List.range_add, List.map_append, List.map_map]
    rfl
  have hdiscover : (disk.access.discover (upwards (disk.height + more + 1))).run =
      (disk.access.discover (upwards (disk.height + 1))).run := by
    rw [hupwards]
    refine discover_append (List.forall_mem_map.2 fun n _ => around_above ?_)
    omega
  rw [repository, Access.openIn, Access.openIn, Id.run_bind, Id.run_bind, hdiscover]

end Disk

end ReleaseNotes
