import ReleaseNotes.Toml.Value

/-!
# Growing Tables

The tables of a configuration text while it is being read.

A text does not give its tables in one piece. A header opens a table deep
inside others, dotted keys reach into tables below the current one, and
elements of an array of tables arrive one header at a time. Whether a table
may be reached, opened or extended depends on how it came to be, so each table
remembers its origin:

* `header`: it has had a header of its own, or is an element of an array of
  tables, and is complete once the next header comes;
* `parent`: it was only named on the way to a table with a header, so it may
  still get one;
* `dotted`: it was made by a dotted key, and only dotted keys extend it.

Values that were written in one piece are `value` leaves. They are complete,
and nothing reaches into them.

A table that gets its header late moves behind the other entries of the table
around it, because that is where it is then written down.

## Main definitions

* `Origin`: How a table came to be.
* `Node`: A value, a growing table, or a growing array of tables.
* `within`: An action on the table at the end of a path.
* `assign`: A value put under a dotted key.
* `Node.toValue`: A node once nothing is added any more.
-/

namespace ReleaseNotes

namespace Toml

/-- How a table came to be. -/
inductive Origin where
  | header
  | parent
  | dotted
deriving DecidableEq, Repr

/-- A part of a configuration that is being read. -/
inductive Node where
  | value (content : Value)
  | table (origin : Origin) (entries : List (String × Node))
  | tables (elements : List (List (String × Node)))

instance : Inhabited Node := ⟨.tables []⟩

/-- The entries of a growing table. -/
abbrev Growing := List (String × Node)

namespace Growing

/-- The entry of a key with another node in its place. -/
def replace (key : String) (node : Node) (entries : Growing) : Growing :=
  entries.map fun entry => if entry.1 == key then (key, node) else entry

/-- All entries but that of a key. -/
def remove (key : String) (entries : Growing) : Growing :=
  entries.filter fun entry => entry.1 != key

end Growing

/-- An action on the table at the end of a path, which yields the changed
    entries and a result. Tables that are missing on the way are made. A path
    that runs into a value, or by a dotted key into a table with a header,
    leads nowhere. The last element of an array of tables stands for it. -/
def within {α : Type} (dotted : Bool) (act : Origin → Growing → Option (Growing × α)) :
    List String → Origin → Growing → Option (Growing × α)
  | [], origin, entries => act origin entries
  | key :: path, _, entries => do
    match entries.lookup key with
    | none =>
      let origin := if dotted then .dotted else .parent
      let (inner, result) ← within dotted act path origin []
      return (entries ++ [(key, .table origin inner)], result)
    | some (.value _) => none
    | some (.tables elements) =>
      let last ← elements.getLast?
      let (inner, result) ← within dotted act path .header last
      return (entries.replace key (.tables (elements.dropLast ++ [inner])), result)
    | some (.table origin before) =>
      guard !(dotted && origin == .header)
      let (inner, result) ← within dotted act path origin before
      return (entries.replace key (.table origin inner), result)

/-- A value put under a dotted key, given as the path before the last key and
    the last key. The key must be new, and a table that was not made by dotted
    keys is not extended by them. -/
def assign (path : List String) (key : String) (content : Value) (entries : Growing) :
    Option Growing := do
  let put (origin : Origin) (found : Growing) : Option (Growing × Unit) := do
    guard ((origin == .dotted) != path.isEmpty)
    guard (found.lookup key).isNone
    return (found ++ [(key, .value content)], ())
  return (← within true put path .header entries).1

mutual

/-- A node once nothing is added any more. -/
def Node.toValue : Node → Value
  | .value content => content
  | .table _ entries => .table (Node.toEntries entries)
  | .tables elements => .array (Node.toItems elements)

/-- The entries of a table once nothing is added any more. -/
def Node.toEntries : List (String × Node) → List (String × Value)
  | [] => []
  | (key, node) :: rest => (key, node.toValue) :: Node.toEntries rest

/-- The elements of an array of tables once nothing is added any more. -/
def Node.toItems : List (List (String × Node)) → List Value
  | [] => []
  | entries :: rest => .table (Node.toEntries entries) :: Node.toItems rest

end

end Toml

end ReleaseNotes
