import ReleaseNotes.RuleSet

/-!
# Rendering

A document written out as text.

The text is made of blocks. A section is a block: its heading, then a line
for each entry. When contributors are listed and there are any, their names
make a last block. Every line ends with a line feed, and a blank line
separates a block from the next, so the document without sections is the
empty text.

Blocks are built from lines, and lines are joined in one place, because what
has to be said about a rendered text is nearly always said about its lines.

## Main definitions

* `sectionLines`: The lines of a section.
* `contributorLines`: The lines of the list of contributors.
* `Document.blocks`: The lines of a document, block by block.
* `Document.render`: A document as text.
-/

namespace ReleaseNotes

/-- Lines as text, each closed by a line feed. -/
def closeLines (lines : List String) : String :=
  String.join (lines.map fun line => line ++ "\n")

/-- The heading of a section, then a line for each entry. -/
def sectionLines (rules : RuleSet) (part : Section) : List String :=
  headingLine rules.headingFormat part.category ::
    part.entries.map (entryLine rules.entryFormat)

/-- The title of the list of contributors, then all names on one line. -/
def contributorLines (rules : ContributorRules) (names : List String) : List String :=
  [rules.title, ", ".intercalate (names.map (contributorName rules.format))]

namespace Document

/-- The lines of the list of contributors, as no block or one. -/
def contributorBlocks (rules : ContributorRules) (document : Document) : List (List String) :=
  if rules.enabled && !document.contributors.isEmpty then
    [contributorLines rules document.contributors]
  else []

/-- The lines of a document, block by block. -/
def blocks (rules : RuleSet) (document : Document) : List (List String) :=
  document.sections.map (sectionLines rules) ++ document.contributorBlocks rules.contributors

/-- The document as text, with a blank line between blocks. -/
def render (rules : RuleSet) (document : Document) : String :=
  "\n".intercalate ((document.blocks rules).map closeLines)

end Document

end ReleaseNotes
