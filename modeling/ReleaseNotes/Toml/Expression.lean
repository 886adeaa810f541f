import ReleaseNotes.Toml.Moment
import ReleaseNotes.Toml.Number
import ReleaseNotes.Toml.Quotation
import ReleaseNotes.Toml.Tree

/-!
# Expressions

Keys and values, as they are written on one line or, inside the brackets of an
array, over several.

A key is a bare word of ASCII letters, digits, hyphens and underscores, or a
text in quotes. Dots join keys to a path. A value is told from the others by
its first character; numbers and moments share theirs, and are tried one after
the other.

Values nest. `nesting` bounds how deep, both for brackets within brackets and
for the keys of a path, and the reader of values recurs on what is left of
that bound. An array may be spread over lines, commented, and end in a comma;
a table in braces stays on its line and does not end in one.

## Main definitions

* `nesting`: How deep values may nest.
* `key`, `dottedKey`: A key, and a path of keys.
* `value`: A value of any kind.
* `assignment`: A path and the value given to it.
-/

namespace ReleaseNotes

namespace Toml

/-- How deep values may nest, and how many keys a path may have, with what is
    inside counted in. -/
def nesting : Nat := 80

/-- A character of a key without quotes. -/
def isBare (c : Char) : Bool :=
  c.isAlphanum || c == '-' || c == '_'

/-- One key. -/
def key : Scan String :=
  lineQuotation <|> String.ofList <$> run1 isBare

/-- A path of keys, joined by dots and with blanks around each of them. -/
def dottedKey : Scan (List String) := do
  let path ← chain do
    blanks
    let found ← key
    blanks
    let more ← succeeds (exactly '.')
    return (found, !more)
  guard (path.length < nesting)
  return path

/-- A path and the value given to it, with blanks around. -/
def assignment (value : Scan Value) : Scan (List String × Value) := do
  let path ← dottedKey
  exactly '='
  blanks
  let content ← value
  blanks
  return (path, content)

/-- The values between brackets. -/
def arrayItems (value : Scan Value) : Scan (List Value) := do
  exactly '['
  gaps
  (exactly ']' *> pure []) <|> chain do
    let item ← value
    gaps
    let more ← succeeds (exactly ',')
    gaps
    let closed ← succeeds (exactly ']')
    guard (more || closed)
    return (item, closed)

/-- The assignments between braces. -/
def tableItems (value : Scan Value) : Scan (List (List String × Value)) := do
  exactly '\x7b'
  blanks
  (exactly '\x7d' *> pure []) <|> chain do
    let item ← assignment value
    let more ← succeeds (exactly ',')
    if more then return (item, false)
    exactly '\x7d'
    return (item, true)

/-- The entries of a table after an assignment. -/
def assignTo (entries : Growing) (path : List String) (content : Value) : Option Growing :=
  match path.getLast? with
  | some last => assign path.dropLast last content entries
  | none => none

/-- The table that assignments in one piece make. -/
def tableOf (items : List (List String × Value)) : Option Value := do
  let entries ← items.foldlM (fun entries item => assignTo entries item.1 item.2) []
  return .table (Node.toEntries entries)

/-- A value of any kind, with at most this much nesting. -/
def valueWithin : Nat → Scan Value
  | 0 => failure
  | depth + 1 => do
    match ← peek with
    | some '"' | some '\'' => return .string (← quotation)
    | some '[' => return .array (← arrayItems (valueWithin depth))
    | some '\x7b' =>
      let items ← tableItems (valueWithin depth)
      match tableOf items with
      | some table => return table
      | none => failure
    | some 't' => literal "true" *> pure (.boolean true)
    | some 'f' => literal "false" *> pure (.boolean false)
    | _ => moment <|> float <|> integer

/-- A value of any kind. -/
def value : Scan Value := valueWithin nesting

end Toml

end ReleaseNotes
