import ReleaseNotes.Document

/-!
# Templates

The shape of a line is given by a template, a text with slots. A slot is a
name between doubled braces, and filling the template writes a value in its
place.

The scan stops only where two braces open. Where a slot that has a value
stands there, the value is written and the slot is passed over; where none
does, the two braces are copied and passed over together. The second half of
that rule shows with three braces in a row: the first two are copied as a
pair, and the slot that would have started at the second one is never seen.
Values are not scanned, so a title that holds a slot is shown as it is.

Of several slots that fit at one place the one listed first is taken. The
slots of the three templates of this library all differ before their ends, so
there at most one fits.

As in `Text.replaceFrom`, characters that have been dealt with are counted
down, which leaves a recursion on the template itself.

## Main definitions

* `slot`: The text of a slot.
* `fill`: A template with its slots filled.
* `entryLine`: The line of an entry.
* `headingLine`: The heading of a category.
* `contributorName`: The way a contributor is named.
-/

namespace ReleaseNotes

/-- The text of the slot with this name. -/
def slot (name : String) : String :=
  "\x7b\x7b" ++ name ++ "\x7d\x7d"

namespace Template

/-- Two braces open here. -/
def opens : List Char → Bool
  | '\x7b' :: '\x7b' :: _ => true
  | _ => false

/-- The scan behind `fill`. The first `skip` characters have been dealt with
    already, and are passed over. -/
def fillFrom (values : List (List Char × List Char)) : Nat → List Char → List Char
  | _, [] => []
  | skip + 1, _ :: rest => fillFrom values skip rest
  | 0, c :: rest =>
    if opens (c :: rest) then
      match values.find? fun value => value.1.isPrefixOf (c :: rest) with
      | some (placeholder, value) =>
        value ++ fillFrom values (placeholder.length - 1) rest
      | none => '\x7b' :: '\x7b' :: fillFrom values 1 rest
    else
      c :: fillFrom values 0 rest

end Template

/-- The template with the value of each slot in its place. A slot without a
    value stays as it is. -/
def fill (template : String) (values : List (String × String)) : String :=
  String.ofList (Template.fillFrom
    (values.map fun value => (value.1.toList, value.2.toList)) 0 template.toList)

/-- The line of an entry. An entry without an author has an empty one. -/
def entryLine (template : String) (entry : Entry) : String :=
  fill template
    [(slot "commitShortHash", shortHash entry.commit.hash),
     (slot "commitHash", entry.commit.hash),
     (slot "commitTitle", entry.display),
     (slot "commitAuthor", entry.commit.author.getD "")]

/-- The heading of a category. -/
def headingLine (template : String) (category : Category) : String :=
  fill template [(slot "categoryTitle", category.title), (slot "categoryKey", category.key)]

/-- The way a contributor is named. -/
def contributorName (template : String) (name : String) : String :=
  fill template [(slot "contributorName", name)]

end ReleaseNotes
