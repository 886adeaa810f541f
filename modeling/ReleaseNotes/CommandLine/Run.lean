import ReleaseNotes.CommandLine.Answer
import ReleaseNotes.CommandLine.Options
import ReleaseNotes.Notes
import ReleaseNotes.Settings.Places
import ReleaseNotes.Storage.Layout

/-!
# Runs

What a command line does, one act after the other.

A run looks at files, opens the repository, prints, asks, and writes one file.
What it does next depends on what it has seen, so `Run` is a tree: each act
carries the rest of the run as a function of the answer. Nothing is done by
building the tree. Doing it is left to two readers. One of them, outside the
logic, performs the acts on a real machine; the other one, `Run.play`, plays
them against a `World`, a plain value that holds everything a run can see.
What a run may and may not do can be read off the second, because both follow
the same tree.

Settings are loaded first, so that a mistake in them is reported whatever else
was asked for. A listing of the categories needs nothing more. Otherwise the
repository is opened, the notes are made, and what there is to say about them
goes to the second channel, which leaves the first one to the notes.

A file that is there already is only written over when that was asked for, on
the command line or in answer to a question. The input is bytes, as a file is, and
an answer that is no text is a fault and not a refusal.

## Main definitions

* `Run`: The acts of a run, as a tree over what they answer.
* `Run.ofOptions`: The run that options ask for.
* `Run.ofRequest`: The run that a command line asks for.
* `World`, `Outcome`: What a run can see, and what is left of it.
* `World.ofParts`: The world of a run in a directory with a repository.
* `Run.play`: A run played against a world.
-/

namespace ReleaseNotes

namespace CommandLine

open Storage

/-- The two channels that a run prints on. -/
inductive Channel where
  | output
  | messages
deriving DecidableEq, Repr

/-- A path from the working directory, or from the user's directory of
    settings. -/
inductive Location where
  | working (path : String)
  | home (path : String)
deriving DecidableEq, Repr

/-- The acts of a run. Each carries the rest of the run, as a function of what
    the act answers. -/
inductive Run where
  /-- The run is over. -/
  | done (status : Nat)
  | print (channel : Channel) (text : String) (rest : Run)
  | look (location : Location) (rest : FileState → Run)
  /-- The repository around the working directory, or why there is none. -/
  | openRepository (rest : Except OpeningFault Repository → Run)
  /-- The next line of the input, or why it is no text. -/
  | ask (rest : Except FileFault String → Run)
  | write (path text : String) (rest : Except FileFault Unit → Run)

namespace Run

/-- A message on the second channel. -/
def say (text : String) (rest : Run) : Run :=
  .print .messages (text ++ "\n") rest

/-- The end of a run that failed, with a message. -/
def fail (text : String) : Run :=
  say ("ERROR: " ++ text) (.done 1)

/-- What is found at a place that is not looked at, because it does not
    matter. -/
def nothing : FileState := .absent .notFound

/-- The settings loaded, and the rest of the run with what came of it. -/
def load (config : Option String) (rest : Except Fault RuleSet → Run) : Run :=
  match config with
  | some path => .look (.working path) fun state => rest (RuleSet.load (some state) nothing nothing)
  | none =>
    .look (.working settingsFile) fun working =>
      if working.isPresent then rest (RuleSet.load none working nothing)
      else
        .look (.home hiddenSettingsFile) fun home => rest (RuleSet.load none nothing home)

/-- The text that lists the categories. -/
def listing (rules : RuleSet) : String :=
  closeLines ("Configured categories:" ::
    rules.sortedCategories.map fun category => "  " ++ category.line)

/-- The warnings of a run, each on a line. -/
def warn (warnings : List Warning) (rest : Run) : Run :=
  warnings.foldr (fun warning rest => say ("⚠ WARNING: " ++ warning.text) rest) rest

/-- The end of a run that made notes. -/
def sumUp (notes : Notes) : Run :=
  say ("→ " ++ notes.summary) (.done 0)

/-- The end of a run that could not read or write what it had to. -/
def breakOff (fault : FileFault) : Run :=
  say ("Error: " ++ fault.message) (.done 1)

/-- The notes written to a file. -/
def save (path : String) (notes : Notes) : Run :=
  .write path notes.text fun
    | .ok () => say ("✓ Wrote changelog to " ++ path) (sumUp notes)
    | .error fault => breakOff fault

/-- The question whether a file may be written over. -/
def question (path : String) : String :=
  "\nOverwrite " ++ path ++ "? (y/N): "

/-- The notes handed over: printed, or written to a file that was named. -/
def deliver (options : Options) (notes : Notes) : Run :=
  match options.output with
  | none => .print .output notes.text (sumUp notes)
  | some path =>
    .look (.working path) fun state =>
      if state.isPresent && !options.force then
        .print .messages (question path) <| .ask fun
          | .ok answer =>
            if confirms answer then save path notes
            else say "→ Changelog not written." (.done 0)
          | .error fault => breakOff fault
      else save path notes

/-- The run that makes notes by faultless rules. -/
def makeNotes (options : Options) (rules : RuleSet) : Run :=
  .openRepository fun
    | .error fault => fail ("Git repository error: " ++ (Fault.source (.opening fault)).message)
    | .ok repository =>
      match rules.run (repository.range options.rev options.since) options.contributors with
      | .error fault => fail fault.message
      | .ok notes => warn notes.warnings (deliver options notes)

/-- The run that options ask for. -/
def ofOptions (options : Options) : Run :=
  load options.config fun
    | .error fault => fail ("Error loading config: " ++ fault.message)
    | .ok rules =>
      if options.list then .print .output (listing rules) (.done 0)
      else makeNotes options rules

/-- The name of the program and the version it has. -/
def versionLine : String := "git-changelog 0.1.0\n"

/-- The text that explains the options. -/
def helpText : String :=
  closeLines
    ["Generate a categorized changelog from commits since the last release tag",
     "",
     "Usage: git-changelog [OPTIONS]",
     "",
     "Options:",
     "  -c, --config <CONFIG>  Custom configuration file path",
     "  -r, --rev <REV>        Revision to read commits from [default: HEAD]",
     "  -s, --since <SINCE>    Start after this tag instead of the latest reachable one",
     "  -o, --output <OUTPUT>  Write the changelog to this file instead of stdout",
     "      --contributors     Append the contributor section",
     "  -f, --force            Overwrite the output file without asking",
     "      --list             Show configured categories and exit",
     "  -h, --help             Print help",
     "  -V, --version          Print version"]

/-- The run that a command line asks for. -/
def ofRequest : Request → Run
  | .run options => ofOptions options
  | .reply .help => .print .output helpText (.done 0)
  | .reply .version => .print .output versionLine (.done 0)
  | .reply .refusal =>
    say "error: the arguments cannot be understood\n\nFor more information, try '--help'."
      (.done 2)

end Run

/-- What a run can see. The repository is the one around the working
    directory. -/
structure World where
  working : Disk
  home : Disk
  input : ByteArray
  /-- The time that a text means, as the clock shows it. -/
  dates : String → Option Int := fun _ => none

/-- The world of a run in a directory, which holds a repository besides the
    other files, if there is one. Among these there may be some of the
    repository's own, which then take the place of those that it has. -/
def World.ofParts (files home : Disk) (repository : Option Survey) (input : String) : World :=
  { working := files.holding repository, home, input := input.toUTF8 }

/-- What is left of a run: its status, what it printed, and the working
    directory. -/
structure Outcome where
  status : Nat
  output : String
  messages : String
  working : Disk

namespace World

/-- What is found at a location. -/
def look (world : World) : Location → FileState
  | .working path => world.working.find path
  | .home path => world.home.find path

/-- The repository around the working directory, or why there is none. -/
def repository (world : World) : Except OpeningFault Repository :=
  world.working.repository world.dates

/-- The first line of the input, or why it is no text. -/
def line (world : World) : Except FileFault String :=
  (FileState.file (world.input.toList.takeWhile (· != '\n'.toUInt8)).toByteArray).text

end World

/-- An outcome with a text printed before the rest. -/
def Outcome.print (outcome : Outcome) (channel : Channel) (text : String) : Outcome :=
  match channel with
  | .output => { outcome with output := text ++ outcome.output }
  | .messages => { outcome with messages := text ++ outcome.messages }

/-- A run played against a world. A file that is written is there for the rest
    of the run. -/
def Run.play : Run → World → Outcome
  | .done status, world => { status, output := "", messages := "", working := world.working }
  | .print channel text rest, world => (rest.play world).print channel text
  | .look location rest, world => (rest (world.look location)).play world
  | .openRepository rest, world => (rest world.repository).play world
  | .ask rest, world => (rest world.line).play world
  | .write path text rest, world =>
    match world.working.write path text with
    | .ok working => (rest (.ok ())).play { world with working }
    | .error fault => (rest (.error fault)).play world

end CommandLine

end ReleaseNotes
