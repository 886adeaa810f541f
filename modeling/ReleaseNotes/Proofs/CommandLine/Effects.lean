import ReleaseNotes.CommandLine.Run
import ReleaseNotes.Proofs.CommandLine.Request
import ReleaseNotes.Proofs.CommandLine.Worlds
import ReleaseNotes.Proofs.Settings.Loading
import ReleaseNotes.Proofs.Writing

/-!
# What a Run Changes and Prints

A run of the program has many ends, and only one of them leaves anything on the
disk. It is the end at which notes have been made, a file has been named for them,
that file was not there or may be written over, and the write succeeded. At every
other end the disk is what it was, whatever made the run end there.

The first channel is as strict. It carries the notes, or the list of categories, or
what was asked about the program itself, and nothing of a run that fails or that
writes its notes to a file. What a run has to say besides goes to the second
channel. The equations below leave that channel out (`Outcome.muted`), so that a
message in between does not count, and there is one for each stage of a run.

A list of the categories is asked of the settings alone. The tree of such a run has
no branch on which the repository is opened, and where the same settings are loaded
it answers the same, with a repository or without one.

What a command line asks for is told by its words (`Asks`), so none of this depends on
how they are read.

## Main definitions

* `World.rules`: The settings that hold in a world.
* `World.Makes`: The notes that are made, if nothing goes wrong.
* `World.MayWrite`: A file is not there or may be written over.
* `World.Saves`: Everything that has to be the case for a file to be written.
* `Run.OpensNothing`: No branch of a run opens the repository.
* `Outcome.muted`: An outcome without its messages.
* `World.Ends`: The ends that a run may have.
* `Effects`: What a command line may change and print.

## Theorems

* `play_load`: The settings are loaded from the places that are looked at.
* `muted_play_of_makes`, `muted_play_of_not_makes`: What making notes comes to.
* `muted_play_save`, `muted_play_deliver`: What handing them over comes to.
* `ends`: The ends of a run that options ask for.
* `stateAt_play_of_ne`: What a run has saved, and where.
* `saves_ofParts`: Notes of a history that stands at a commit can be saved in a new file.
* `play_effects`: What the run of a command line changes and prints.
-/

namespace ReleaseNotes

namespace CommandLine

/-- The settings that hold in a world, or what is wrong with them. -/
def World.rules (world : World) (config : Option String) : Except Fault RuleSet :=
  RuleSet.load (config.map world.working.find) (world.working.find settingsFile)
    (world.home.find hiddenSettingsFile)

/-- The notes that options ask for: the settings are loaded, the repository is
    opened, and the notes are made without a fault. -/
inductive World.Makes (world : World) (options : Options) (notes : Notes) : Prop
  | intro {rules : RuleSet} {repository : Repository}
      (hrules : world.rules options.config = .ok rules)
      (hrepository : world.repository = .ok repository)
      (hrun : rules.run (repository.range options.rev options.since) options.contributors =
        .ok notes)

/-- A file is not there, or may be written over because that was asked for or was
    the answer to the question. -/
def World.MayWrite (world : World) (options : Options) (path : String) : Prop :=
  (world.working.find path).isPresent = false ∨ options.force = true ∨
    ∃ answer, world.line = .ok answer ∧ MeansYes answer

/-- Everything that has to be the case for notes to be written to a file, if options ask
    for it. -/
structure World.Saves (world : World) (options : Options) (path : String) (notes : Notes)
    (written : Disk) : Prop where
  unlisted : options.list = false
  named : options.output = some path
  makes : world.Makes options notes
  mayWrite : world.MayWrite options path
  writes : world.working.write path notes.text = .ok written

/-- No branch of a run opens the repository. -/
def Run.OpensNothing : Run → Prop
  | .done _ => True
  | .print _ _ rest => rest.OpensNothing
  | .look _ rest => ∀ state, (rest state).OpensNothing
  | .openRepository _ => False
  | .ask rest => ∀ answer, (rest answer).OpensNothing
  | .write _ _ rest => ∀ result, (rest result).OpensNothing

/-- An outcome without its messages. -/
def Outcome.muted (outcome : Outcome) : Outcome :=
  { outcome with messages := "" }

/-- The outcome of a run without messages that has written nothing. -/
def World.ended (world : World) (status : Nat) (output : String) : Outcome :=
  ⟨status, output, "", world.working⟩

/-- The ends that a run may have, told by the outcome without messages. -/
inductive World.Ends (world : World) (options : Options) : Outcome → Prop
  /-- Something that was needed is not there or has a fault. -/
  | failed : world.Ends options (world.ended 1 "")
  | listed {rules : RuleSet} (hlist : options.list = true) :
      world.Ends options (world.ended 0 (Run.listing rules))
  | printed {notes : Notes} (hnamed : options.output = none)
      (hmakes : world.Makes options notes) :
      world.Ends options (world.ended 0 notes.text)
  /-- The file must not be written over. -/
  | kept {path : String} {status : Nat} (hnamed : options.output = some path) :
      world.Ends options (world.ended status "")
  | saved {path : String} {notes : Notes} {written : Disk}
      (hsaves : world.Saves options path notes written) :
      world.Ends options ⟨0, "", "", written⟩

/-- What a command line may change and print in a world. -/
structure Effects (world : World) (words : List String) (outcome : Outcome) : Prop where
  /-- A place that is not what it was is the one of the file that was named, and
      this holds the notes. -/
  changed : ∀ place, outcome.working.stateAt place ≠ world.working.stateAt place →
    ∃ options path notes, Asks words options ∧
      world.Saves options path notes outcome.working ∧
      world.working.locate path = .ok place ∧
      outcome.working.stateAt place = .file notes.text.toUTF8
  /-- Notes that can be written are written. Afterwards there is nothing but them in
      the file, unless what was named takes in everything and stays as it is. -/
  saved : ∀ options path notes written, Asks words options →
    world.Saves options path notes written →
    outcome.status = 0 ∧ outcome.output = "" ∧ outcome.working = written ∧
      (world.working.find path = .sink ∧ written = world.working ∨
        written.find path = .file notes.text.toUTF8)
  /-- In all other cases everything on the disk is as it was. -/
  untouched : (∀ options path notes written, Asks words options →
      ¬ world.Saves options path notes written) →
    outcome.working = world.working
  /-- Notes that were made are printed, if no file was named. -/
  printed : ∀ options, Asks words options → options.list = false → options.output = none →
    (∀ notes, world.Makes options notes → outcome.status = 0 ∧ outcome.output = notes.text) ∧
    (outcome.status = 0 → ∃ notes, world.Makes options notes ∧ outcome.output = notes.text)
  /-- Where a file was named, nothing is printed, be it written or not. -/
  quiet : ∀ options path, Asks words options → options.list = false →
    options.output = some path → outcome.output = ""
  /-- Nothing is printed by a run that fails. -/
  failed : outcome.status ≠ 0 → outcome.output = ""
  /-- The list of the categories is all that is printed where it was asked for. -/
  listed : ∀ options rules, Asks words options → options.list = true →
    world.rules options.config = .ok rules →
    outcome.status = 0 ∧ outcome.output = Run.listing rules ∧ outcome.messages = ""
  /-- That run does not open the repository, and nothing but the settings makes a
      difference to it. -/
  unread : ∀ options, Asks words options → options.list = true →
    (Run.ofRequest (.ofWords words)).OpensNothing ∧
    ∀ other : World, other.rules options.config = world.rules options.config →
      (Run.ofRequest (.ofWords words)).play other = { outcome with working := other.working }

namespace Run

variable {world : World} {options : Options} {path : String} {notes : Notes}

/-- The settings are loaded from the places that are looked at. The places that are
    not looked at make no difference. -/
theorem play_load (config : Option String) (rest : Except Fault RuleSet → Run) (world : World) :
    (load config rest).play world = (rest (world.rules config)).play world := by
  cases config with
  | some path => rfl
  | none =>
      have hrules : world.rules none = RuleSet.load none (world.working.find settingsFile)
        (world.home.find hiddenSettingsFile) := rfl
      show (if (world.working.find settingsFile).isPresent
        then rest (RuleSet.load none (world.working.find settingsFile) nothing)
        else look (.home hiddenSettingsFile) fun home =>
          rest (RuleSet.load none nothing home)).play world = _
      rw [hrules]
      cases hpresent : (world.working.find settingsFile).isPresent with
      | true => simp [RuleSet.load, hpresent]
      | false =>
          simp only [RuleSet.load, hpresent]
          rfl

theorem muted_play_fail (text : String) :
    ((fail text).play world).muted = world.ended 1 "" := rfl

theorem muted_play_warn (warnings : List Warning) (rest : Run) :
    ((warn warnings rest).play world).muted = (rest.play world).muted := by
  induction warnings with
  | nil => rfl
  | cons warning warnings ih => exact ih

/-- What is written is there at the end of the run. -/
theorem muted_play_save {written : Disk}
    (hwrite : world.working.write path notes.text = .ok written) :
    ((save path notes).play world).muted = ⟨0, "", "", written⟩ := by
  rw [save, play, hwrite]
  rfl

theorem muted_play_save_of_error {fault : FileFault}
    (hwrite : world.working.write path notes.text = .error fault) :
    ((save path notes).play world).muted = world.ended 1 "" := by
  rw [save, play, hwrite]
  rfl

theorem muted_play_deliver_none (hnamed : options.output = none) :
    ((deliver options notes).play world).muted = world.ended 0 notes.text := by
  rw [deliver, hnamed]
  show (⟨0, notes.text ++ "", "", world.working⟩ : Outcome) = _
  rw [String.append_empty]
  rfl

/-- Where the file may be written, asking for it makes no difference. -/
theorem muted_play_deliver (hnamed : options.output = some path)
    (hmay : world.MayWrite options path) :
    ((deliver options notes).play world).muted = ((save path notes).play world).muted := by
  rw [deliver, hnamed]
  simp only [play]
  cases hasks : ((world.look (.working path)).isPresent && !options.force) with
  | false => rw [if_neg Bool.false_ne_true]
  | true =>
      -- Of the reasons why the file may be written only the answer is left.
      rw [Bool.and_eq_true, Bool.not_eq_true'] at hasks
      obtain ⟨answer, hline, hyes⟩ :
          ∃ answer, world.line = .ok answer ∧ confirms answer = true := by
        rcases hmay with habsent | hforce | ⟨answer, hline, hyes⟩
        · exact absurd (habsent.symm.trans hasks.1) Bool.false_ne_true
        · exact absurd (hasks.2.symm.trans hforce) Bool.false_ne_true
        · exact ⟨answer, hline, (confirms_iff answer).2 hyes⟩
      rw [if_pos rfl]
      simp only [play, hline, hyes, if_true]
      rfl

/-- Where the file may not be written, the run ends there, after a refusal or an
    answer that cannot be read. -/
theorem muted_play_deliver_of_not_mayWrite (hnamed : options.output = some path)
    (hmay : ¬ world.MayWrite options path) :
    ∃ status, ((deliver options notes).play world).muted = world.ended status "" := by
  have hpresent : (world.working.find path).isPresent = true :=
    Bool.of_not_eq_false fun habsent => hmay (.inl habsent)
  have hforce : options.force = false :=
    Bool.eq_false_iff.2 fun hforce => hmay (.inr (.inl hforce))
  simp only [deliver, hnamed, play, World.look, hpresent, hforce]
  cases hline : world.line with
  | error fault =>
      simp only [Bool.not_false, Bool.and_self, if_true, play, hline]
      exact ⟨1, rfl⟩
  | ok answer =>
      have hno : confirms answer = false :=
        Bool.eq_false_iff.2 fun hyes =>
          hmay (.inr (.inr ⟨answer, hline, (confirms_iff answer).1 hyes⟩))
      simp only [Bool.not_false, Bool.and_self, if_true, play, hline, hno]
      exact ⟨0, rfl⟩

theorem play_ofOptions_of_error {fault : Fault}
    (hrules : world.rules options.config = .error fault) :
    (ofOptions options).play world =
      (fail ("Error loading config: " ++ fault.message)).play world := by
  rw [ofOptions, play_load, hrules]

theorem play_ofOptions {rules : RuleSet} (hrules : world.rules options.config = .ok rules) :
    (ofOptions options).play world =
      if options.list then world.ended 0 (listing rules)
      else (makeNotes options rules).play world := by
  rw [ofOptions, play_load, hrules]
  cases options.list with
  | false => rfl
  | true =>
      show (⟨0, listing rules ++ "", "", world.working⟩ : Outcome) = _
      rw [String.append_empty]
      rfl

/-- Notes that are made are handed over. -/
theorem muted_play_of_makes (hlist : options.list = false) (hmakes : world.Makes options notes) :
    ((ofOptions options).play world).muted = ((deliver options notes).play world).muted := by
  obtain ⟨hrules, hrepository, hrun⟩ := hmakes
  rw [play_ofOptions hrules, hlist, if_neg Bool.false_ne_true, makeNotes, play, hrepository]
  simp only [hrun]
  exact muted_play_warn notes.warnings (deliver options notes)

/-- A run that makes no notes fails, whatever it is that is missing. -/
theorem muted_play_of_not_makes (hlist : options.list = false)
    (hmakes : ∀ notes, ¬ world.Makes options notes) :
    ((ofOptions options).play world).muted = world.ended 1 "" := by
  cases hrules : world.rules options.config with
  | error fault =>
      rw [play_ofOptions_of_error hrules]
      exact muted_play_fail _
  | ok rules =>
      rw [play_ofOptions hrules, hlist, if_neg Bool.false_ne_true, makeNotes, play]
      cases hrepository : world.repository with
      | error fault => exact muted_play_fail _
      | ok repository =>
          cases hrun : rules.run (repository.range options.rev options.since)
              options.contributors with
          | error fault =>
              simp only [hrun]
              exact muted_play_fail _
          | ok notes => exact absurd ⟨hrules, hrepository, hrun⟩ (hmakes notes)

/-- The ends of a run that options ask for. -/
theorem ends (options : Options) (world : World) :
    world.Ends options ((ofOptions options).play world).muted := by
  -- Each stage ends the run or hands it on, so the cases follow the stages.
  cases hlist : options.list with
  | true =>
      cases hrules : world.rules options.config with
      | error fault =>
          rw [play_ofOptions_of_error hrules]
          exact .failed
      | ok rules =>
          rw [play_ofOptions hrules, hlist, if_pos rfl]
          exact .listed hlist
  | false =>
      by_cases hmakes : ∃ notes, world.Makes options notes
      · obtain ⟨notes, hmakes⟩ := hmakes
        rw [muted_play_of_makes hlist hmakes]
        cases hnamed : options.output with
        | none =>
            rw [muted_play_deliver_none hnamed]
            exact .printed hnamed hmakes
        | some path =>
            by_cases hmay : world.MayWrite options path
            · rw [muted_play_deliver hnamed hmay]
              cases hwrite : world.working.write path notes.text with
              | error fault =>
                  rw [muted_play_save_of_error hwrite]
                  exact .failed
              | ok written =>
                  rw [muted_play_save hwrite]
                  exact .saved ⟨hlist, hnamed, hmakes, hmay, hwrite⟩
            · obtain ⟨status, hended⟩ := muted_play_deliver_of_not_mayWrite hnamed hmay
              rw [hended]
              exact .kept hnamed
      · rw [muted_play_of_not_makes hlist (not_exists.1 hmakes)]
        exact .failed

theorem muted_play_of_saves {written : Disk} (h : world.Saves options path notes written) :
    ((ofOptions options).play world).muted = ⟨0, "", "", written⟩ := by
  rw [muted_play_of_makes h.unlisted h.makes, muted_play_deliver h.named h.mayWrite,
    muted_play_save h.writes]

/-- What options ask for is run. -/
theorem ofRequest_of_asks {words : List String} (h : Asks words options) :
    ofRequest (.ofWords words) = ofOptions options := by
  rw [ofWords_eq_run_iff.2 h]
  rfl

/-- A command line that asks for no run has an answer at once, or is refused. -/
theorem asks_or_reply (words : List String) :
    (∃ options, Asks words options) ∨ ∃ reply, Request.ofWords words = .reply reply := by
  cases hrequest : Request.ofWords words with
  | run options => exact .inl ⟨options, ofWords_eq_run_iff.1 hrequest⟩
  | reply reply => exact .inr ⟨reply, rfl⟩

end Run

namespace World.Ends

variable {world : World} {options : Options} {path : String} {outcome : Outcome}

/-- Only at the end that saves something the disk is not what it was. -/
theorem working_eq (h : world.Ends options outcome)
    (hsaves : ∀ path notes written, ¬ world.Saves options path notes written) :
    outcome.working = world.working := by
  cases h with
  | saved hsaved => exact absurd hsaved (hsaves _ _ _)
  | failed | listed | printed | kept => rfl

/-- Nothing is printed by a run that fails. -/
theorem output_eq_of_status_ne_zero (h : world.Ends options outcome)
    (hstatus : outcome.status ≠ 0) : outcome.output = "" := by
  cases h with
  | listed | printed => exact absurd rfl hstatus
  | failed | kept | saved => rfl

/-- Nothing is printed by a run that has a file for the notes. -/
theorem output_eq_of_named (h : world.Ends options outcome) (hlist : options.list = false)
    (hnamed : options.output = some path) : outcome.output = "" := by
  cases h with
  | listed htrue => exact absurd (hlist.symm.trans htrue) Bool.false_ne_true
  | printed hnone => exact absurd (hnone.symm.trans hnamed) nofun
  | failed | kept | saved => rfl

/-- A run without a file for the notes has printed them if it has not failed. -/
theorem makes (h : world.Ends options outcome) (hlist : options.list = false)
    (hnamed : options.output = none) (hstatus : outcome.status = 0) :
    ∃ notes, world.Makes options notes ∧ outcome.output = notes.text := by
  cases h with
  | failed => cases hstatus
  | listed htrue => exact absurd (hlist.symm.trans htrue) Bool.false_ne_true
  | printed _ hmakes => exact ⟨_, hmakes, rfl⟩
  | kept hsome => exact absurd (hnamed.symm.trans hsome) nofun
  | saved hsaves => exact absurd (hnamed.symm.trans hsaves.named) nofun

end World.Ends

variable {world : World} {words : List String}

/-- A run that saves nothing leaves the disk as it was. -/
theorem working_play_of_not_saves
    (h : ∀ options path notes written, Asks words options →
      ¬ world.Saves options path notes written) :
    ((Run.ofRequest (.ofWords words)).play world).working = world.working := by
  rcases Run.asks_or_reply words with ⟨options, hasks⟩ | ⟨reply, hreply⟩
  · rw [Run.ofRequest_of_asks hasks]
    exact (Run.ends options world).working_eq fun path notes written =>
      h options path notes written hasks
  · -- Other command lines are answered without looking at the world.
    rw [hreply]
    cases reply <;> rfl

/-- What a run has saved is in the place that the path leads to, and all others are
    as they were. -/
theorem stateAt_play_of_ne {place : Place}
    (h : ((Run.ofRequest (.ofWords words)).play world).working.stateAt place ≠
      world.working.stateAt place) :
    ∃ options path notes, Asks words options ∧ world.Saves options path notes
        ((Run.ofRequest (.ofWords words)).play world).working ∧
      world.working.locate path = .ok place ∧
      ((Run.ofRequest (.ofWords words)).play world).working.stateAt place =
        .file notes.text.toUTF8 := by
  by_cases hsaves : ∃ options path notes written, Asks words options ∧
      world.Saves options path notes written
  · obtain ⟨options, path, notes, written, hasks, hsaves⟩ := hsaves
    have hworking : ((Run.ofRequest (.ofWords words)).play world).working = written := by
      rw [Run.ofRequest_of_asks hasks]
      exact congrArg Outcome.working (Run.muted_play_of_saves hsaves)
    rw [hworking] at h ⊢
    rcases Disk.gains_of_write hsaves.writes with ⟨-, rfl⟩ | ⟨gained, hgains⟩
    · exact absurd rfl h
    · -- Only one place has changed, so this is the one.
      obtain rfl : place = gained := by
        by_contra hne
        exact h (hgains.others place hne)
      exact ⟨options, path, notes, hasks, hsaves, hgains.leads, hgains.holds⟩
  · refine absurd (congrArg (·.stateAt place) (working_play_of_not_saves ?_)) h
    exact fun options path notes written hasks hsaved =>
      hsaves ⟨options, path, notes, written, hasks, hsaved⟩

/-- Looking for the settings opens no repository. -/
theorem opensNothing_load {config : Option String} {rest : Except Fault RuleSet → Run}
    (h : ∀ loaded, (rest loaded).OpensNothing) : (Run.load config rest).OpensNothing := by
  cases config with
  | some path => exact fun state => h _
  | none =>
      intro working
      show (if working.isPresent then rest _ else Run.look _ _).OpensNothing
      split
      · exact h _
      · exact fun home => h _

/-- The run that lists the categories has no branch that opens the repository. -/
theorem opensNothing_of_list {options : Options} (hlist : options.list = true) :
    (Run.ofOptions options).OpensNothing := by
  refine opensNothing_load fun loaded => ?_
  cases loaded with
  | error fault => exact trivial
  | ok rules =>
      simp only [hlist, if_true]
      exact trivial

/-- Two worlds with the same settings make no difference to the run that lists the
    categories. -/
theorem play_of_list {options : Options} (hlist : options.list = true) {other : World}
    (hrules : other.rules options.config = world.rules options.config) :
    (Run.ofOptions options).play other =
      { (Run.ofOptions options).play world with working := other.working } := by
  cases hworld : world.rules options.config with
  | error fault =>
      rw [Run.play_ofOptions_of_error hworld, Run.play_ofOptions_of_error (hrules.trans hworld)]
      rfl
  | ok rules =>
      rw [Run.play_ofOptions hworld, Run.play_ofOptions (hrules.trans hworld), hlist]
      rfl

section Saving

open Storage

variable {files home : Disk} {survey : Survey} {name : String}

/-- Notes of a history that stands at a commit can be saved in a file that is not there
    yet, if there are no settings that say otherwise. -/
theorem saves_ofParts (h : survey.IsSound) {commit : String × CommitContent}
    (hmem : commit ∈ survey.readable) (hzero : commit.1 ≠ Repository.zeroHash)
    (hstands : survey.StandsAt commit.1) (hfiles : files.IsVacant)
    (hsettings : (files.find settingsFile).isPresent = false)
    (hhome : (home.find hiddenSettingsFile).isPresent = false) (hname : Disk.IsPlain name)
    (hsize : name.utf8ByteSize ≤ Place.maxName) (hother : name ≠ directoryName)
    {fault : PathFault} (habsent : files.stateAt (.below [name]) = .absent fault)
    (input : String) :
    ∃ range written, (World.ofParts files home (some survey) input).Saves
      { output := some name } name (RuleSet.standard.notesFor range) written := by
  have hkept := h.toIsKept
  have hsettingsName : Disk.IsPlain settingsFile := ⟨by decide, by decide, by decide, by decide⟩
  have hworking := World.working_ofParts files home (some survey) input
  have hrules : (World.ofParts files home (some survey) input).rules none = .ok .standard := by
    refine RuleSet.load_eq_standard (RuleSet.forall_not_decides_iff.2 ⟨rfl, ?_, hhome⟩)
    rw [hworking, Disk.find_holding hkept hfiles hsettingsName (by decide) (by decide)]
    exact hsettings
  obtain ⟨range, hrange, -⟩ := h.range_isOk hmem hzero hstands fun _ => none
  have hrun : RuleSet.standard.run (.ok range) false = .ok (RuleSet.standard.notesFor range) :=
    RuleSet.run_ok rfl range false
  have hmakes : (World.ofParts files home (some survey) input).Makes { output := some name }
      (RuleSet.standard.notesFor range) :=
    ⟨hrules, World.repository_ofParts hkept hfiles home input, by rw [← hrun, ← hrange]; rfl⟩
  -- There is nothing in the place of the file, with the repository or without.
  have hapart : (Place.below [name]).IsApart := fun _ => ⟨name, [], rfl, hother⟩
  rw [← Disk.stateAt_of_isApart hkept hfiles hapart] at habsent
  have hhere := Disk.stateAt_here hkept hfiles
  have hmay : (World.ofParts files home (some survey) input).MayWrite { output := some name }
      name := by
    refine .inl ?_
    rw [hworking, Disk.find_of_isPlain hhere hname hsize, habsent]
    rfl
  have hwrites := Disk.write_of_isPlain hhere hname hsize habsent
    (RuleSet.standard.notesFor range).text
  rw [← hworking] at hwrites
  exact ⟨range, _, rfl, rfl, hmakes, hmay, hwrites⟩

end Saving

section Begun

open Storage

/-- The hash of a commit, as it could be. -/
def begunHash : String := "0123456789abcdef0123456789abcdef01234567"

/-- A commit without parents. -/
def begunCommit : CommitText where
  tree := Repository.emptyTree
  parents := []
  author := Survey.keeper
  committer := Survey.keeper
  message := bytesOf "feat: a beginning"

/-- A repository with one branch and one commit on it. -/
def begunSurvey : Survey :=
  ((Survey.bare "main").addCommit begunHash begunCommit).addBranch "main" begunHash

/-- A directory with nothing but that repository. -/
def begun : World :=
  .ofParts {} {} (some begunSurvey) ""

theorem isLegible_begunCommit : begunCommit.IsLegible := by
  have hkeeper : Survey.keeper.IsLegible :=
    ⟨by decide, by decide, by decide, rfl, rfl, by decide, by decide⟩
  exact ⟨⟨rfl, rfl⟩, nofun, hkeeper, hkeeper⟩

theorem made_begunSurvey : begunSurvey.Made := by
  have hhash : IsHash begunHash := ⟨rfl, rfl⟩
  have hmain : (Target.name (Repository.branchRef "main")).IsLegible := by
    rw [Target.IsLegible, bytesOf_eq]
    exact ⟨by decide, 110, rfl, rfl⟩
  exact .addBranch (.addCommit (.bare hmain) hhash isLegible_begunCommit nofun) hhash "main"

end Begun

end CommandLine

end ReleaseNotes
