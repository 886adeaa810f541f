import ReleaseNotes.Disk
import ReleaseNotes.History.Report
import ReleaseNotes.Settings.Decoding

/-!
# Faults

Everything that can go wrong, and the one line that says so.

A fault is a cause. Its kind says which part of a run it stopped, and its
detail says what happened there; the line that is shown is the lead of the
kind followed by the detail. Kinds that have to do with what the user wrote
down as settings are told apart from the others by `FaultKind.isSettings`.

## Main definitions

* `FaultKind`: The part of a run that a fault stopped.
* `FaultKind.line`: A line for a detail.
* `Fault`: A cause.
* `Fault.kind`, `Fault.detail`, `Fault.message`: Its kind, what happened, and
  the line for it.
-/

namespace ReleaseNotes

/-- The part of a run that a fault stopped. -/
inductive FaultKind where
  | settings
  | sharedOrder
  | format
  | source
  | repository
  | file
deriving DecidableEq, Repr

namespace FaultKind

/-- What stands in front of the detail. -/
def lead : FaultKind → String
  | .settings => "Configuration error"
  | .sharedOrder => "Configuration error"
  | .format => "Invalid TOML"
  | .source => "Commit source error"
  | .repository => "Git operation failed"
  | .file => "I/O error"

/-- The line for a detail. -/
def line (kind : FaultKind) (detail : String) : String :=
  kind.lead ++ ": " ++ detail

/-- The fault lies in the settings. -/
def isSettings : FaultKind → Bool
  | .settings | .sharedOrder | .format => true
  | .source | .repository | .file => false

end FaultKind

namespace SourceFault

/-- The part of a run that the fault stopped. What the user named and is not
    there is a fault of the source; the rest are failures of the
    repository. -/
def kind : SourceFault → FaultKind
  | .opening _ => .repository
  | .revision _ _ => .source
  | .startNotCommit _ => .repository
  | .tag _ (.ref (.dangling _)) => .source
  | .tag _ _ => .repository
  | .walk _ => .repository

/-- What happened. -/
def detail : SourceFault → String
  | .opening fault => fault.report.line
  | .revision text fault =>
    "Cannot resolve '" ++ text ++ "': " ++ (fault.report text).line
  | .startNotCommit fault => fault.report.line
  | .tag name (.ref (.dangling _)) => "Tag not found: " ++ name
  | .tag name fault => (fault.report name).line
  | .walk fault => fault.report.line

end SourceFault

namespace RuleFault

/-- The part of a run that the fault stopped. -/
def kind : RuleFault → FaultKind
  | .sharedOrder _ _ _ => .sharedOrder
  | .repeatedKey _ => .settings

/-- What happened. -/
def detail : RuleFault → String
  | .sharedOrder order first second =>
    "categories '" ++ first ++ "' and '" ++ second ++ "' share order " ++ toString order
  | .repeatedKey key => "category key '" ++ key ++ "' is declared more than once"

end RuleFault

namespace SettingsFault

/-- The part of a run that the fault stopped. -/
def kind : SettingsFault → FaultKind
  | .unreadable => .format
  | .schema _ => .format
  | .rules fault => fault.kind

/-- What happened. -/
def detail : SettingsFault → String
  | .unreadable => "the text is not well formed"
  | .schema fault => fault.message
  | .rules fault => fault.detail

end SettingsFault

/-- A cause for which a run stops. -/
inductive Fault where
  | settings (fault : SettingsFault)
  | source (fault : SourceFault)
  | file (fault : FileFault)
deriving DecidableEq, Repr

namespace Fault

/-- A fault of the rules. -/
def rules (fault : RuleFault) : Fault := .settings (.rules fault)

/-- The part of a run that the fault stopped. -/
def kind : Fault → FaultKind
  | .settings fault => fault.kind
  | .source fault => fault.kind
  | .file _ => .file

/-- What happened. -/
def detail : Fault → String
  | .settings fault => fault.detail
  | .source fault => fault.detail
  | .file fault => fault.message

/-- The line that is shown for a fault. -/
def message (fault : Fault) : String :=
  fault.kind.line fault.detail

end Fault

end ReleaseNotes
