import ReleaseNotes.Text.Replace

/-!
# Title Rules

How a title is reworded before it is shown. A rule replaces every occurrence
of one text by another; the rules of a list are applied in turn, each to what
the rules before it have made.

So the order of the rules counts, and a text that one rule has put in can be
found by a later rule, though never by the same one. A rule that searches for
the empty text asks for nothing, and is passed over.

## Main definitions

* `TitleRule`: A text and what to write in its place.
* `reword`: A title after a list of rules.
-/

namespace ReleaseNotes

/-- Every `search` in a title is written as `replacement`. -/
structure TitleRule where
  search : String
  replacement : String
deriving DecidableEq, Repr

namespace TitleRule

/-- The characters of a title after one rule. -/
def reword (rule : TitleRule) (title : List Char) : List Char :=
  if rule.search.isEmpty then title
  else Text.replaceAll rule.search.toList rule.replacement.toList title

end TitleRule

/-- The title after each rule in turn. -/
def reword (rules : List TitleRule) (title : String) : String :=
  String.ofList (rules.foldl (fun text rule => rule.reword text) title.toList)

end ReleaseNotes
