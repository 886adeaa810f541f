import ReleaseNotes.CommitRange

/-!
# Warnings

What a reader of the notes should know although nothing went wrong: that there
is nothing new, that no release was found to start from, or that no commit
found its way into the notes.

The first two are about the range and exclude each other, since the one needs a
tag and the other the lack of one. The third is about what became of the
commits, and is raised only when there were some.

## Main definitions

* `Warning`: Something a reader should know.
* `Warning.text`: The sentence that says so.
* `CommitRange.warnings`: The warnings about a range.
-/

namespace ReleaseNotes

/-- Something a reader of the notes should know. Hashes are full. -/
inductive Warning where
  /-- There is no commit since the tag. -/
  | noNewCommits (tag head : String)
  /-- No tag was found to start from. -/
  | noReleaseTag (head : String)
  /-- There were commits, and none of them has a category. -/
  | nothingCategorized (count : Nat)
deriving DecidableEq, Repr

/-- The sentence of a warning, with hashes as they are shown to readers. -/
def Warning.text : Warning → String
  | .noNewCommits tag head =>
    "No new commits since tag '" ++ tag ++ "' (current: " ++ shortHash head ++ ")"
  | .noReleaseTag head =>
    "No release tag reachable from " ++ shortHash head ++ ", using the full history"
  | .nothingCategorized count =>
    "None of the " ++ toString count ++ " commits matched a configured category"

namespace CommitRange

/-- The warnings about where a range starts and what it holds. -/
def startWarnings (range : CommitRange) : List Warning :=
  match range.sinceTag with
  | some tag => if range.commits.isEmpty then [.noNewCommits tag range.head] else []
  | none => [.noReleaseTag range.head]

/-- The warnings about a range of which so many commits have a category. -/
def warnings (range : CommitRange) (rendered : Nat) : List Warning :=
  range.startWarnings ++
    if !range.commits.isEmpty && rendered == 0 then
      [.nothingCategorized range.commits.length]
    else []

end CommitRange

end ReleaseNotes
