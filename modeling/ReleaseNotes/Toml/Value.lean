import ReleaseNotes.Decimal.Binary64

/-!
# Configuration Values

What a configuration text says once its notation is forgotten: texts, numbers,
truth values, moments, arrays and tables.

A table is the list of its entries in the order in which they were written.
The order carries no meaning, but it decides which of two mistakes is reported
first. No key stands in a table twice.

Dates and times are recognised and then only known to be one. Nothing here
asks for one, and a message about one calls it a table.

## Main definitions

* `Value`: A value of a configuration text.
* `Entries`: The entries of a table, in the order they were written.
-/

namespace ReleaseNotes

namespace Toml

/-- A value of a configuration text. -/
inductive Value where
  | string (text : String)
  | integer (value : Int)
  | float (value : Binary64)
  | boolean (value : Bool)
  /-- A date, a time, or both. -/
  | moment
  | array (items : List Value)
  | table (entries : List (String × Value))
deriving Repr

instance : Inhabited Value := ⟨.table []⟩

/-- The entries of a table, in the order they were written. -/
abbrev Entries := List (String × Value)

end Toml

end ReleaseNotes
