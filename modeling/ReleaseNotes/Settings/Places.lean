import ReleaseNotes.Fault

/-!
# Places of Settings

Where settings are looked for.

A path given by the user comes first, then the file of the working directory,
then the hidden file of the user's directory of settings. The first place that
there is decides alone. What is wrong with it is a fault, and no later place is
asked; only where no path is given and neither file is there do the standard
rules hold. A path that is given counts as being there also when it leads
nowhere.

## Main definitions

* `settingsFile`: The name of the file that is looked for.
* `RuleSet.ofFile`: The rules that a file describes.
* `RuleSet.load`: The rules that the three places describe.
-/

namespace ReleaseNotes

/-- The name of the file that is looked for in the working directory. -/
def settingsFile : String := "changelog.toml"

/-- The name of the file that is looked for in the user's directory. -/
def hiddenSettingsFile : String := "." ++ settingsFile

namespace RuleSet

/-- The faultless rules that a file describes. -/
def ofFile (state : FileState) : Except Fault RuleSet := do
  let text ← state.text.mapError Fault.file
  (ofText text).mapError Fault.settings

/-- The faultless rules that the three places describe: the path that was
    given, if one was, the file of the working directory, and the file of the
    user's directory. -/
def load (given : Option FileState) (working home : FileState) : Except Fault RuleSet :=
  match given with
  | some state => ofFile state
  | none =>
    if working.isPresent then ofFile working
    else if home.isPresent then ofFile home
    else .ok standard

end RuleSet

end ReleaseNotes
