import ReleaseNotes.History.Release

/-!
# Reports

What a repository says about a fault.

What a repository reports has a form of its own: after the report comes the
part of the repository that it is about, and then, unless it is a general
failure, the code of the failure. A fault that nothing is known about has no
part.

## Main definitions

* `Report`: What happened, in which part, and by which code.
* `Report.line`: The text of a report.
* `RevisionFault.report`, `TagFault.report`, `OpeningFault.report`: What is
  said about faults.
-/

namespace ReleaseNotes

/-- A report of a repository: what happened, in which part, and by which
    code. -/
structure Report where
  text : String
  part : Option (String × Nat)
  code : Option (String × Int) := none

namespace Report

/-- The text of a report with its part and its code. -/
def line (report : Report) : String :=
  report.text ++
    (match report.part with
      | some (name, number) => "; class=" ++ name ++ " (" ++ toString number ++ ")"
      | none => "") ++
    match report.code with
    | some (name, number) => "; code=" ++ name ++ " (" ++ toString number ++ ")"
    | none => ""

/-- The code of what is not there. -/
def notFound : String × Int := ("NotFound", -3)

/-- The code of what leaves a choice. -/
def ambiguous : String × Int := ("Ambiguous", -5)

/-- The code of what has no room. -/
def noRoom : String × Int := ("BufSize", -6)

/-- The code of what is against a notation. -/
def invalid : String × Int := ("InvalidSpec", -12)

/-- The code of what cannot be peeled. -/
def unpeelable : String × Int := ("Peel", -19)

/-- The part that deals with the system. -/
def system : Option (String × Nat) := some ("Os", 2)

/-- The part that deals with what was asked for. -/
def request : Option (String × Nat) := some ("Invalid", 3)

/-- The part that deals with references. -/
def reference : Option (String × Nat) := some ("Reference", 4)

/-- The part that deals with the repository as a whole. -/
def repository : Option (String × Nat) := some ("Repository", 6)

/-- The part that deals with settings. -/
def settings : Option (String × Nat) := some ("Config", 7)

/-- The part that keeps objects. -/
def store : Option (String × Nat) := some ("Odb", 9)

/-- The part that reads objects. -/
def object : Option (String × Nat) := some ("Object", 11)

/-- The part that reads trees. -/
def tree : Option (String × Nat) := some ("Tree", 14)

end Report

/-- The text about a character that no name has. -/
def zeroCharacterText : String :=
  "data contained a nul byte that could not be represented as a string"

/-- What is wrong with a line about a person and a time. -/
def SignatureFault.text : SignatureFault → String
  | .endless => "no newline given"
  | .otherWord => "expected prefix doesn't match actual"
  | .badAddress => "malformed e-mail"
  | .badTime => "invalid Unix timestamp"

/-- The report about an object that cannot be read. -/
def ReadFault.report : ReadFault → Report
  | .missing hash =>
    ⟨"object not found - no match for id (" ++ hash ++ ")", Report.store, some Report.notFound⟩
  | .zeroHash =>
    ⟨"odb: cannot read object: null OID cannot exist", Report.store, some Report.notFound⟩
  | .signature fault => ⟨"failed to parse signature - " ++ fault.text, Report.request, none⟩
  | .badText kind => ⟨"failed to parse bad " ++ kind ++ " object", Report.object, none⟩
  | .notCommit => ⟨"object is no commit object", Report.request, none⟩
  | .garbled => ⟨"failed to inflate loose object", Report.store, none⟩

/-- The number of a kind. -/
def ObjectKind.number : ObjectKind → Nat
  | .commit => 1
  | .tree => 2
  | .blob => 3
  | .tag => 4

/-- The code for why an object does not lead to what was asked for. -/
def PeelCause.code : PeelCause → Option (String × Int)
  | .senseless => some Report.invalid
  | .unpeelable => some Report.unpeelable
  | .unreadable fault => fault.report.code

/-- The report about an object that does not lead to what was asked for. -/
def PeelFault.report (fault : PeelFault) : Report :=
  ⟨"the git_object of id '" ++ fault.hash ++ "' can not be successfully peeled into a " ++
      fault.wanted.name ++ " (git_object_t=" ++ toString fault.wanted.number ++ ").",
    Report.object, fault.cause.code⟩

/-- The report about a reference that leads nowhere. -/
def RefFault.report : RefFault → Report
  | .dangling name =>
    ⟨"reference '" ++ name ++ "' not found", Report.reference, some Report.notFound⟩
  | .tooLong =>
    ⟨"cannot resolve reference (>" ++ toString maxChain ++ " levels deep)", Report.reference,
      none⟩
  | .garbled name likeName =>
    ⟨"corrupted loose reference file" ++ (if likeName then "" else ": " ++ name),
      Report.reference, none⟩
  | .garbledTable => ⟨"corrupted packed references file", Report.reference, none⟩
  | .badName name =>
    ⟨"the given reference name '" ++ name ++ "' is not valid", Report.reference,
      some Report.invalid⟩
  | .longName name =>
    ⟨"the provided buffer is too short to hold the normalization of '" ++ name ++ "'",
      Report.reference, some Report.noRoom⟩
  | .longSegment name =>
    ⟨"invalid path for filesystem '" ++ name ++ "'", Report.system, some Report.invalid⟩

namespace RevisionFault

/-- The report about a revision, which is quoted where its notation is
    wrong. -/
def report (text : String) : RevisionFault → Report
  | .notFound base =>
    ⟨"revspec '" ++ base ++ "' not found", Report.reference, some Report.notFound⟩
  | .noParent number =>
    ⟨"parent " ++ toString number ++ " does not exist", Report.request, some Report.notFound⟩
  | .badPattern =>
    ⟨"failed to parse revision specifier - Invalid pattern '" ++ text ++ "'", Report.request,
      some Report.invalid⟩
  | .tooShort =>
    ⟨"ambiguous lookup - OID prefix is too short", Report.object, some Report.ambiguous⟩
  | .ambiguous =>
    ⟨"ambiguous OID prefix - multiple matches in loose objects", Report.store,
      some Report.ambiguous⟩
  | .ref fault => fault.report
  | .noShorthand base =>
    ⟨"no reference found for shorthand '" ++ base ++ "'", Report.reference,
      some Report.notFound⟩
  | .read fault => fault.report
  | .peel fault => fault.report
  | .notCommittish cause => ⟨"object is not a committish", Report.request, cause.code⟩
  | .noMatch => ⟨"an unknown git error occurred", none, some Report.notFound⟩
  | .badPath => ⟨"invalid tree path given", Report.tree, some Report.notFound⟩
  | .noEntry name =>
    ⟨"the path '" ++ name ++ "' does not exist in the given tree", Report.tree,
      some Report.notFound⟩
  | .notTree name =>
    ⟨"the path '" ++ name ++ "' exists but is not a tree", Report.tree, some Report.notFound⟩
  | .unsupported => ⟨"unimplemented", Report.request, none⟩
  | .shortLog name size number =>
    ⟨"reflog for '" ++ name ++ "' has only " ++ toString size ++ " entries, asked for " ++
      toString number, Report.reference, some Report.notFound⟩
  | .noSetting key =>
    ⟨"config value '" ++ key ++ "' was not found", Report.settings, some Report.notFound⟩
  | .zeroCharacter => ⟨zeroCharacterText, none, none⟩

end RevisionFault

namespace TagFault

/-- The report about a tag whose reference cannot be peeled for some other
    fault. -/
def unpeeled (name cause : String) (fault : Report) : Report :=
  ⟨"the reference '" ++ Repository.tagRef name ++ "' cannot be peeled - " ++ cause,
    Report.request, fault.code⟩

/-- The report about a tag. -/
def report (name : String) : TagFault → Report
  | .zeroCharacter => ⟨zeroCharacterText, none, none⟩
  | .ref fault => fault.report
  | .chain fault => unpeeled name "Cannot resolve reference" fault.report
  | .lost fault => unpeeled name "Cannot retrieve reference target" fault.report
  | .notCommit fault => fault.report

end TagFault

/-- The report about a repository that cannot be opened. -/
def OpeningFault.report : OpeningFault → Report
  | .absent => ⟨"could not find repository at '.'", Report.repository, some Report.notFound⟩
  | .badLink path =>
    ⟨"the `.git` file at '" ++ path ++ "' is malformed", Report.repository, none⟩
  | .badPlace path =>
    ⟨"failed to resolve path '" ++ path ++ "': No such file or directory", Report.system,
      some Report.notFound⟩
  | .badGraft line => ⟨"invalid graft OID at line " ++ toString line, none, none⟩
  | .badGraftParent line => ⟨"invalid parent OID at line " ++ toString line, none, none⟩
  | .newForm version =>
    ⟨"unsupported repository version " ++ toString version ++
      "; only versions up to 1 are supported", Report.repository, none⟩
  | .newExtension key => ⟨"unsupported extension name " ++ key, Report.repository, none⟩

end ReleaseNotes
