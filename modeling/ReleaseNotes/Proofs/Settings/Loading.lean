import ReleaseNotes.Proofs.Outcome
import ReleaseNotes.Settings.Places

/-!
# Which Settings Hold

What loading the settings comes to, for whatever is found in the three places.

One place decides. It is the path that was given, whether it leads anywhere or
not, and without one it is the first of the two files that is there. What is in
the other places does not matter then, and a fault of the place that decides is
not made good by a later place or by the standard rules. These hold only where no
place decides. A file that says nothing describes them too, but that is what the
file says.

What a place yields is read in stages: what is there has to be a text, the text
has to be well formed, its values need the form of a rule set, and the rules must
be without a fault. `FileState.Yields` has a case for each stage that can fail and
one for the end. As checking the rules is the last stage, whatever is loaded has
passed it. So a run by these rules has nothing left to stop it but its source.

## Main definitions

* `RuleSet.Decides`: The place that decides.
* `FileState.Yields`: What comes of the place that decides.

## Theorems

* `RuleSet.ofEntries_eq`: Reading the values, then checking the rules.
* `RuleSet.ofFile_yields`: The stages of reading a file.
* `RuleSet.check_of_load`: Rules that were loaded are without a fault.
* `RuleSet.load_decided`: What loading the settings comes to.
-/

namespace ReleaseNotes

/-- What comes of the settings if what is found in this state decides. -/
inductive FileState.Yields (state : FileState) : Except Fault RuleSet → Prop
  /-- There is nothing, or something that is no text. -/
  | unreadable {fault : FileFault} (htext : state.text = .error fault) :
      Yields state (.error (.file fault))
  /-- The text is against the notation. -/
  | malformed {text : String} (htext : state.text = .ok text) (hparse : Toml.parse text = none) :
      Yields state (.error (.settings .unreadable))
  /-- The values have not the form of a rule set. -/
  | misfit {text : String} {entries : Toml.Entries} {fault : Toml.SchemaFault}
      (htext : state.text = .ok text) (hparse : Toml.parse text = some entries)
      (hread : Settings.readSettings entries = .error fault) :
      Yields state (.error (.settings (.schema fault)))
  /-- Two categories share a number or a key. -/
  | faulty {text : String} {entries : Toml.Entries} {rules : RuleSet} {fault : RuleFault}
      (htext : state.text = .ok text) (hparse : Toml.parse text = some entries)
      (hread : Settings.readSettings entries = .ok rules)
      (hshared : ¬ rules.categories.Pairwise Category.Apart) (hcheck : rules.check = .error fault) :
      Yields state (.error (.rules fault))
  /-- There is nothing wrong. -/
  | sound {text : String} {entries : Toml.Entries} {rules : RuleSet}
      (htext : state.text = .ok text) (hparse : Toml.parse text = some entries)
      (hread : Settings.readSettings entries = .ok rules)
      (hapart : rules.categories.Pairwise Category.Apart) (hcheck : rules.check = .ok ()) :
      Yields state (.ok rules)

namespace RuleSet

/-- The state of the place that decides: of the path that was given, if one was,
    and otherwise of the first of the two files that is there. -/
inductive Decides (given : Option FileState) (working home : FileState) : FileState → Prop
  | given {state : FileState} (hgiven : given = some state) : Decides given working home state
  | working (hgiven : given = none) (hworking : working.isPresent = true) :
      Decides given working home working
  | home (hgiven : given = none) (hworking : working.isPresent = false)
      (hhome : home.isPresent = true) : Decides given working home home

/-- The values are read first, and rules that were read are checked. -/
theorem ofEntries_eq (entries : Toml.Entries) :
    ofEntries entries =
      match Settings.readSettings entries with
      | .error fault => .error (.schema fault)
      | .ok rules =>
        match rules.check with
        | .error fault => .error (.rules fault)
        | .ok () => .ok rules := by
  unfold ofEntries
  cases Settings.readSettings entries with
  | error fault => rfl
  | ok rules =>
      show (do rules.check.mapError SettingsFault.rules; return rules) =
        match rules.check with
        | .error fault => .error (.rules fault)
        | .ok () => .ok rules
      cases rules.check <;> rfl

/-- A file is read in stages, each of which can fail. -/
theorem ofFile_yields (state : FileState) : state.Yields (ofFile state) := by
  -- Each stage ends the reading with a fault of its own or hands on what it read.
  unfold ofFile
  cases htext : state.text with
  | error fault => exact .unreadable htext
  | ok text =>
      show state.Yields ((ofText text).mapError Fault.settings)
      unfold ofText
      cases hparse : Toml.parse text with
      | none => exact .malformed htext hparse
      | some entries =>
          show state.Yields ((ofEntries entries).mapError Fault.settings)
          rw [ofEntries_eq]
          cases hread : Settings.readSettings entries with
          | error fault => exact .misfit htext hparse hread
          | ok rules =>
              have hapart := check_eq_ok_iff rules
              cases hcheck : rules.check with
              | error fault =>
                  simp only [hcheck]
                  rw [hcheck] at hapart
                  exact .faulty htext hparse hread (fun h => nomatch hapart.2 h) hcheck
              | ok done =>
                  simp only [hcheck]
                  exact .sound htext hparse hread (hapart.1 hcheck) hcheck

variable {given : Option FileState} {working home : FileState}

/-- The place that decides is the only one that is looked into. -/
theorem load_eq_ofFile {state : FileState} (h : Decides given working home state) :
    load given working home = ofFile state := by
  cases h with
  | given hgiven => rw [hgiven, load]
  | working hgiven hworking => rw [hgiven, load, if_pos hworking]
  | home hgiven hworking hhome =>
      rw [hgiven, load, if_neg (by rw [hworking]; exact Bool.false_ne_true), if_pos hhome]

/-- No place decides if no path was given and there is neither file. -/
theorem forall_not_decides_iff :
    (∀ state, ¬ Decides given working home state) ↔
      given = none ∧ working.isPresent = false ∧ home.isPresent = false := by
  constructor
  · intro h
    have hgiven : given = none := by
      cases given with
      | none => rfl
      | some state => exact absurd (.given rfl) (h state)
    have hworking : working.isPresent = false :=
      Bool.eq_false_iff.2 fun hpresent => h working (.working hgiven hpresent)
    exact ⟨hgiven, hworking,
      Bool.eq_false_iff.2 fun hpresent => h home (.home hgiven hworking hpresent)⟩
  · rintro ⟨hgiven, hworking, hhome⟩ state (hstate | ⟨-, hpresent⟩ | ⟨-, -, hpresent⟩)
    · rw [hgiven] at hstate
      cases hstate
    · rw [hworking] at hpresent
      cases hpresent
    · rw [hhome] at hpresent
      cases hpresent

theorem load_eq_standard (h : ∀ state, ¬ Decides given working home state) :
    load given working home = .ok standard := by
  obtain ⟨hgiven, hworking, hhome⟩ := forall_not_decides_iff.1 h
  rw [hgiven, load, if_neg (by rw [hworking]; exact Bool.false_ne_true),
    if_neg (by rw [hhome]; exact Bool.false_ne_true)]

/-- Rules that were loaded are without a fault, wherever they come from. -/
theorem check_of_load {rules : RuleSet} (h : load given working home = .ok rules) :
    rules.check = .ok () := by
  by_cases hdecides : ∃ state, Decides given working home state
  · obtain ⟨state, hstate⟩ := hdecides
    have hyields := ofFile_yields state
    rw [← load_eq_ofFile hstate, h] at hyields
    cases hyields with
    | sound _ _ _ _ hcheck => exact hcheck
  · -- The standard rules are the only ones that come without having been checked.
    rw [load_eq_standard (not_exists.1 hdecides)] at h
    cases h
    rfl

/-- A run by faultless rules is stopped by nothing but its source. -/
theorem source_of_run_eq_error {rules : RuleSet} (hrules : rules.check = .ok ())
    {source : Except SourceFault CommitRange} {contributors : Bool} {fault : Fault}
    (h : rules.run source contributors = .error fault) :
    ∃ cause, source = .error cause ∧ fault = .source cause := by
  cases source with
  | error cause =>
      rw [run_error hrules] at h
      exact ⟨cause, rfl, (Except.error.inj h).symm⟩
  | ok range =>
      rw [run_ok hrules] at h
      cases h

/-- If a place decides, it does so alone, and what comes of the settings is what it
    yields. If none does, because no path was given and there is neither file, the
    standard rules hold. Rules that were loaded are without a fault, so a run by
    them is stopped by nothing but its source. -/
theorem load_decided (given : Option FileState) (working home : FileState) :
    (∀ state, Decides given working home state →
      load given working home = ofFile state ∧ state.Yields (load given working home)) ∧
    ((∀ state, ¬ Decides given working home state) ↔
      given = none ∧ working.isPresent = false ∧ home.isPresent = false) ∧
    ((∀ state, ¬ Decides given working home state) → load given working home = .ok standard) ∧
    ∀ rules, load given working home = .ok rules → rules.check = .ok () ∧
      ∀ source contributors fault, rules.run source contributors = .error fault →
        ∃ cause, source = .error cause ∧ fault = .source cause := by
  refine ⟨fun state hstate => ?_, forall_not_decides_iff, load_eq_standard, fun rules hrules => ?_⟩
  · have hload := load_eq_ofFile hstate
    exact ⟨hload, hload ▸ ofFile_yields state⟩
  · have hcheck := check_of_load hrules
    exact ⟨hcheck, fun _ _ _ => source_of_run_eq_error hcheck⟩

/-- A file that sets the template of an entry's line. -/
def dashFile : FileState :=
  .file "[changelog]\nformat = \"-\"\n".toUTF8

/-- A file with a header that is not closed. -/
def brokenFile : FileState :=
  .file "[changelog\n".toUTF8

theorem dashFile_and_brokenFile_decide :
    Decides none (.absent .notFound) dashFile dashFile ∧
      load none (.absent .notFound) dashFile = .ok { standard with entryFormat := "-" } ∧
      RuleSet.check { standard with entryFormat := "-" } = .ok () ∧
      load none .directory dashFile = .error (.file .isDirectory) ∧
      load (some brokenFile) dashFile dashFile = .error (.settings .unreadable) ∧
      load none (.absent .notFound) (.absent .notFound) = .ok standard := by
  have hhome : Decides none (.absent .notFound) dashFile dashFile := .home rfl rfl rfl
  have hdash : ofFile dashFile = .ok { standard with entryFormat := "-" } := by decide +kernel
  have hbroken : ofFile brokenFile = .error (.settings .unreadable) := by decide +kernel
  have hload : load none (.absent .notFound) dashFile = .ok { standard with entryFormat := "-" } :=
    ((load_decided none (.absent .notFound) dashFile).1 dashFile hhome).1.trans hdash
  have hnone := load_decided none (.absent .notFound) (.absent .notFound)
  exact ⟨hhome, hload, ((load_decided none (.absent .notFound) dashFile).2.2.2 _ hload).1,
    ((load_decided none .directory dashFile).1 _ (.working rfl rfl)).1,
    ((load_decided (some brokenFile) dashFile dashFile).1 _ (.given rfl)).1.trans hbroken,
    hnone.2.2.1 (hnone.2.1.2 ⟨rfl, rfl, rfl⟩)⟩

end RuleSet

end ReleaseNotes
