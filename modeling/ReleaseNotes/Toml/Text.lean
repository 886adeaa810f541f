import ReleaseNotes.Toml.Expression

/-!
# Configuration Texts

A configuration text is read line by line. A line assigns a value, opens a
table, opens an element of an array of tables, or says nothing. Reading the
lines yields a list of statements, and building the tables is a fold over
that list.

Between two headers the assignments go into one table, the current one. When
the next header comes, or the text ends, that table is put where its header
said. Until then it is no part of the whole, so a header that names a table
inside the current one finds it only after it has been put there.

A header may open a table that so far was only named on the way to others. It
then takes that table out of its place, together with what is in it, and puts
it back behind its neighbours. Any other table that is there already cannot be
opened again.

## Main definitions

* `Statement`: What a line says.
* `Builder`: The tables that have been put in place, and the current one.
* `parse`: The table that a text describes.
-/

namespace ReleaseNotes

namespace Toml

/-- What a line says. -/
inductive Statement where
  | nothing
  | assign (path : List String) (content : Value)
  /-- The header of a table. -/
  | table (path : List String)
  /-- The header of an element of an array of tables. -/
  | element (path : List String)

/-- A path between brackets. -/
def header (opening closing : String) : Scan (List String) := do
  literal opening
  let path ← dottedKey
  literal closing
  return path

/-- What the line says that starts here, without its end. -/
def statement : Scan Statement := do
  match ← peek with
  | none | some '\n' | some '\r' | some '#' => return .nothing
  | some '[' =>
    if ['[', '['].isPrefixOf (← get) then return .element (← header "[[" "]]")
    else return .table (← header "[" "]")
  | _ =>
    let (path, content) ← assignment value
    return .assign path content

/-- All lines of a text. -/
def statements : Scan (List Statement) := chain do
  blanks
  let found ← statement
  lineEnd
  return (found, (← peek) == none)

/-- The tables that have been put in place, and the current one. The header of
    the current one is its path and whether it opened an element; the first
    table of a text has none. -/
structure Builder where
  placed : Growing := []
  current : Growing := []
  header : Option (List String × Bool) := none

namespace Builder

/-- The current table put where its header said. -/
def place (builder : Builder) : Option Growing :=
  match builder.header with
  | none => some builder.current
  | some (path, isElement) => do
    let last ← path.getLast?
    let put (_ : Origin) (found : Growing) : Option (Growing × Unit) :=
      match found.lookup last with
      | none => some (found ++ [(last, .table .header builder.current)], ())
      | some (.tables elements) =>
        if isElement then
          some (found.replace last (.tables (elements ++ [builder.current])), ())
        else none
      | some _ => none
    return (← within false put path.dropLast .header builder.placed).1

/-- A table opened by its header. What was already in it stays. -/
def openTable (builder : Builder) (path : List String) : Option Builder := do
  let placed ← builder.place
  let last ← path.getLast?
  let take (_ : Origin) (found : Growing) : Option (Growing × Growing) :=
    match found.lookup last with
    | none => some (found, [])
    | some (.table .parent inner) => some (found.remove last, inner)
    | some _ => none
  let (placed, current) ← within false take path.dropLast .header placed
  return { placed, current, header := some (path, false) }

/-- An element of an array of tables opened by its header. -/
def openElement (builder : Builder) (path : List String) : Option Builder := do
  let placed ← builder.place
  let last ← path.getLast?
  let take (_ : Origin) (found : Growing) : Option (Growing × Unit) :=
    match found.lookup last with
    | none => some (found ++ [(last, .tables [])], ())
    | some (.tables _) => some (found, ())
    | some _ => none
  let (placed, _) ← within false take path.dropLast .header placed
  return { placed, current := [], header := some (path, true) }

/-- The tables after one more statement. -/
def add (builder : Builder) : Statement → Option Builder
  | .nothing => some builder
  | .assign path content => do
    return { builder with current := ← assignTo builder.current path content }
  | .table path => builder.openTable path
  | .element path => builder.openElement path

end Builder

/-- The table that a list of statements describes. -/
def build (lines : List Statement) : Option Entries := do
  let builder ← lines.foldlM Builder.add {}
  return Node.toEntries (← builder.place)

/-- The table that a text describes. A byte order mark in front of the text is
    no part of it. Anything against the notation gives `none`. -/
def parse (text : String) : Option Entries := do
  let source := text.toList
  let source := if source.head? == some '\ufeff' then source.tail else source
  let (lines, _) ← statements source
  build lines

end Toml

end ReleaseNotes
