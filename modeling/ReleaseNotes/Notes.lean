import ReleaseNotes.Fault
import ReleaseNotes.Generation
import ReleaseNotes.Warning

/-!
# Notes

A whole run: from rules and a source of commits to the text, with what there
is to say about it.

The rules are looked at first. Rules with a fault stop the run whatever the
source would have said, so the fault of a source is only seen with faultless
rules. The source is given as what it answers, a range or a fault; where the
range comes from plays no part.

The list of contributors can be asked for from outside, which switches it on
and never off.

## Main definitions

* `Notes`: The text of a run and what there is to say about it.
* `RuleSet.run`: The notes for what a source answers.
* `summary`: The sentence that sums a run up.
-/

namespace ReleaseNotes

/-- The text of a run, and what there is to say about it. -/
structure Notes where
  text : String
  sinceTag : Option String
  commitCount : Nat
  renderedCount : Nat
  warnings : List Warning
deriving DecidableEq, Repr

/-- The sentence that sums a run up. -/
def summary (commitCount renderedCount : Nat) (sinceTag : Option String) : String :=
  toString renderedCount ++ " of " ++ toString commitCount ++ " commits " ++
    (match sinceTag with
      | some tag => "since " ++ tag ++ " "
      | none => "") ++
    "included in the changelog"

/-- The sentence that sums these notes up. -/
def Notes.summary (notes : Notes) : String :=
  ReleaseNotes.summary notes.commitCount notes.renderedCount notes.sinceTag

/-- The notes that a range of commits gives by these rules. -/
def RuleSet.notesFor (rules : RuleSet) (range : CommitRange) : Notes :=
  let document := rules.document range.commits
  { text := document.render rules
    sinceTag := range.sinceTag
    commitCount := range.commits.length
    renderedCount := document.entryCount
    warnings := range.warnings document.entryCount }

/-- The notes for what a source answers. `contributors` asks for the list of
    contributors whatever the rules say about it. -/
def RuleSet.run (rules : RuleSet) (source : Except SourceFault CommitRange)
    (contributors : Bool) : Except Fault Notes := do
  let rules := if contributors then rules.listContributors true else rules
  rules.check.mapError Fault.rules
  let range ← source.mapError Fault.source
  return rules.notesFor range

end ReleaseNotes
