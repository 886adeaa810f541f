import ReleaseNotes.Decimal.Shortest
import ReleaseNotes.Text.Quoted
import ReleaseNotes.Toml.Value

/-!
# Records

Values with named fields, read out of configuration values.

A record may be written in two ways: as a table with one entry for each field,
or as an array with the fields in their declared order. In a table a field may
be left out if it need not be given, and no other entries are allowed. In an
array the same fields may be left off at the end, and whatever follows the
last field is not looked at.

Of several mistakes the first one is reported, and what counts as first is
part of the format. Entries are looked at in the order in which they were
written, each with everything inside it; that a field is missing is only
noticed when the end of the record is reached. So reading a record takes two
steps. `Record.read` looks at what was written, field by field, and yields a
way to look fields up; the fields are then taken out by `required` and
`optional` in their declared order. When the second step reaches a field that
is there, that field has been found sound already.

A date or time is written as a table by those who exchange such values, with
one entry of a name that no record has. That is how it is reported here.

## Main definitions

* `SchemaFault`: What can be wrong with a value.
* `Record`: The name of a record and the readers of its fields.
* `Record.read`: A record looked at, field by field.
* `Fields.required`, `Fields.optional`: A field taken out of a record.
-/

namespace ReleaseNotes

namespace Toml

/-- What can be wrong with a value that should have a certain form. -/
inductive SchemaFault where
  /-- A table has an entry that is none of the known fields. -/
  | unknownField (name : String) (known : List String)
  /-- A table has no entry for a field that must be given. -/
  | missingField (name : String)
  /-- A value is of another kind than the wanted one. -/
  | wrongKind (found wanted : String)
  /-- An array ends before a field that must be given. -/
  | tooShort (length : Nat) (record : String) (fields : Nat)
deriving DecidableEq, Repr

/-- A reader of values. -/
abbrev Reader (α : Type) := Value → Except SchemaFault α

/-- A name between backquotes. -/
def named (name : String) : String :=
  "`" ++ name ++ "`"

/-- What a value is, as messages say it. -/
def Value.describe : Value → String
  | .string text => "string " ++ Text.quoted text
  | .integer value => "integer " ++ named (toString value)
  | .float value => "floating point " ++ named value.text
  | .boolean value => "boolean " ++ named (if value then "true" else "false")
  | .moment => "map"
  | .array _ => "sequence"
  | .table _ => "map"

/-- The fields that were expected, as messages list them. -/
def expectedNames : List String → String
  | [] => "there are no fields"
  | [name] => "expected " ++ named name
  | [first, second] => "expected " ++ named first ++ " or " ++ named second
  | names => "expected one of " ++ ", ".intercalate (names.map named)

namespace SchemaFault

/-- The text of a fault. -/
def message : SchemaFault → String
  | .unknownField name known => "unknown field " ++ named name ++ ", " ++ expectedNames known
  | .missingField name => "missing field " ++ named name
  | .wrongKind found wanted => "invalid type: " ++ found ++ ", expected " ++ wanted
  | .tooShort length record fields =>
    "invalid length " ++ toString length ++ ", expected struct " ++ record ++ " with " ++
      toString fields ++ " elements"

end SchemaFault

/-- The fault of a value that is not of the wanted kind. -/
def Value.notA {α : Type} (value : Value) (wanted : String) : Except SchemaFault α :=
  .error (.wrongKind value.describe wanted)

/-- A text. -/
def readText : Reader String
  | .string text => .ok text
  | value => value.notA "a string"

/-- A truth value. -/
def readBoolean : Reader Bool
  | .boolean value => .ok value
  | value => value.notA "a boolean"

/-- A whole number. -/
def readInteger : Reader Int
  | .integer value => .ok value
  | value => value.notA "i64"

/-- A list, each of its items read in turn. -/
def readList {α : Type} (item : Reader α) : Reader (List α)
  | .array items => items.mapM item
  | value => value.notA "a sequence"

/-- The name of a record and the readers of its fields, in declared order. -/
structure Record where
  name : String
  fields : List (String × Reader Unit)

/-- The fields of a record that was written, and the fault of one that was
    not. -/
structure Fields where
  get : String → Option Value
  absent : String → SchemaFault

/-- The entry that stands for a date or time. -/
def momentEntry : String := "$__toml_private_datetime"

namespace Record

/-- The names of the fields, in declared order. -/
def names (record : Record) : List String :=
  record.fields.map (·.1)

/-- The position of a field. -/
def position (record : Record) (name : String) : Nat :=
  record.names.idxOf name

/-- An entry of a table looked at. -/
def checkEntry (record : Record) (entry : String × Value) : Except SchemaFault Unit :=
  match record.fields.lookup entry.1 with
  | some reader => reader entry.2
  | none => .error (.unknownField entry.1 record.names)

/-- A record looked at, field by field in the order they were written. -/
def read (record : Record) : Reader Fields
  | .table entries => do
    entries.forM record.checkEntry
    return { get := fun name => entries.lookup name, absent := .missingField }
  | .array items => do
    (record.fields.zip items).forM fun field => field.1.2 field.2
    return {
      get := fun name => items[record.position name]?
      absent := fun name => .tooShort (record.position name) record.name record.fields.length }
  | .moment => .error (.unknownField momentEntry record.names)
  | value => value.notA ("struct " ++ record.name)

end Record

namespace Fields

/-- A field that must be given. -/
def required {α : Type} (fields : Fields) (name : String) (reader : Reader α) :
    Except SchemaFault α :=
  match fields.get name with
  | some value => reader value
  | none => .error (fields.absent name)

/-- A field that need not be given. -/
def optional {α : Type} (fields : Fields) (name : String) (reader : Reader α) (standard : α) :
    Except SchemaFault α :=
  match fields.get name with
  | some value => reader value
  | none => .ok standard

end Fields

/-- The reader of a field, with its result thrown away. -/
def checking {α : Type} (reader : Reader α) : Reader Unit :=
  fun value => (reader value).map fun _ => ()

end Toml

end ReleaseNotes
