import ReleaseNotes.History.Release
import ReleaseNotes.Storage.CommitText

/-!
# The Texts of References

How references and what belongs to them are written down.

A reference that is kept by itself is a hash in a file, or the name of another
reference behind a word. The table of references holds lines with a hash and a
name, and a line below one of them may say what is left when the tags are
taken off. The log of a reference has a line for each change, the last change
last. A commit can be given other parents than it has in a file with a line
for each such commit.

A mistake in the table makes all of it unreadable. A line of a log that cannot
be read is passed over. A mistake in the lines about parents is a fault of the
repository as a whole.

## Main definitions

* `Target.write`, `Target.read`: The text of a reference.
* `readTable?`: The references of a table.
* `LogEntry.write`, `readLog`: The text of a log.
* `readGrafts`: The parents that commits are given.
* `readSettings`: The settings of a repository.
-/

namespace ReleaseNotes

namespace Storage

/-- Bytes as text. What is no text has no characters. -/
def textOf (bytes : List UInt8) : String :=
  (String.fromUTF8? bytes.toByteArray).getD ""

/-- Bytes without the blanks at their end. -/
def trimEnd (bytes : List UInt8) : List UInt8 :=
  (bytes.reverse.dropWhile Signature.isBlank).reverse

/-- The word in front of the name of a reference that another one leads to. -/
def nameMark : String := "ref: "

end Storage

namespace Target

open Storage

/-- The text of a reference. One that is garbled has none. -/
def write : Target → String
  | .hash found _ => found ++ "\n"
  | .name other => nameMark ++ other ++ "\n"
  | .garbled _ => ""

/-- What the text of a reference says. -/
def read (text : List UInt8) : Target :=
  let mark := bytesOf nameMark
  if mark.isPrefixOf text then
    let text := trimEnd text
    if text.length ≤ mark.length then .garbled true
    else .name (textOf ((text.drop mark.length).takeWhile (· != 0)))
  else
    match readHash? text with
    | none => .garbled false
    | some (found, rest) =>
      if (rest.head?.map fun byte => byte == 0 || Signature.isBlank byte).getD true then
        .hash found none
      else .garbled false

end Target

namespace Storage

/-- The text behind lines that start with a mark for remarks, at most so many
    lines. Each of them has to end. -/
def skipRemarks? : Nat → List UInt8 → Option (List UInt8)
  | 0, text => some text
  | bound + 1, text =>
    if text.head? == some '#'.toUInt8 then do
      skipRemarks? bound (← splitLine? text).2
    else some text

/-- What is left of an object without its tags, if a line says so, and the
    text behind that line. -/
def readPeeled? (text : List UInt8) : Option (Option String × List UInt8) :=
  if text.head? == some '^'.toUInt8 then do
    let (hash, rest) ← readHash? (text.drop 1)
    if rest.isEmpty then return (some hash, [])
    return (some hash, (← splitLine? rest).2)
  else some (none, text)

/-- The references of at most so many lines. -/
def readEntries? : Nat → List UInt8 → Option (List (String × Target))
  | 0, _ => none
  | _, [] => some []
  | bound + 1, text => do
    let (hash, rest) ← readHash? text
    guard (rest.head? == some ' '.toUInt8)
    let (line, rest) ← splitLine? (rest.drop 1)
    let line := if line.getLast? == some '\r'.toUInt8 then line.dropLast else line
    let (peeled, rest) ← readPeeled? rest
    return (textOf line, .hash hash peeled) :: (← readEntries? bound rest)

/-- References of which the last one of a name counts. -/
def lastOfEach (refs : List (String × Target)) : List (String × Target) :=
  refs.foldr
    (fun ref found => if found.any (·.1 == ref.1) then found else ref :: found) []

/-- The references of a table, if it can be read. -/
def readTable? (text : List UInt8) : Option (List (String × Target)) := do
  let text ← skipRemarks? text.length text
  return lastOfEach (← readEntries? (text.length + 1) text)

end Storage

namespace LogEntry

open Storage

/-- A line about a change from one hash to another, made by someone at its
    time. -/
def write (entry : LogEntry) (before : String) (keeper : Signature) : List UInt8 :=
  let signature := { keeper with time := entry.time }
  let line := (signature.write (before ++ " " ++ entry.hash)).dropLast
  line ++ bytesOf ("\t" ++ entry.message ++ "\n")

/-- What a line says about a change, if it can be read. -/
def read? (line : List UInt8) : Option LogEntry := do
  let (_, rest) ← readHash? line
  let (hash, rest) ← readHash? (← behindWord? "" rest)
  let person := rest.takeWhile (· != '\t'.toUInt8)
  let signature ← (Signature.ofLine person).toOption
  return { hash, time := signature.time, message := textOf (rest.drop (person.length + 1)) }

end LogEntry

namespace Storage

/-- The lines of a text. -/
def linesOf (text : List UInt8) : List (List UInt8) := text.splitOn lineEnd

/-- The changes that a log holds, the last one first. -/
def readLog (text : List UInt8) : List LogEntry :=
  ((linesOf text).filterMap LogEntry.read?).reverse

/-- The hashes that stand in a line, each behind a blank, at most so many, if
    there is nothing else. -/
def readParents? : Nat → List UInt8 → Option (List String)
  | 0, _ => none
  | _, [] => some []
  | bound + 1, line => do
    let (hash, rest) ← readHash? (← behindWord? "" line)
    return hash :: (← readParents? bound rest)

/-- The parents that lines give to commits. Lines are counted from a number
    on. -/
def readGraftLines : Nat → List (List UInt8) → Except OpeningFault (List (String × List String))
  | _, [] => .ok []
  | number, line :: lines =>
    match readHash? line with
    | none => .error (.badGraft number)
    | some (hash, rest) =>
      match readParents? (rest.length + 1) rest with
      | none => .error (.badGraftParent number)
      | some parents => do return (hash, parents) :: (← readGraftLines (number + 1) lines)

/-- The parents that a text gives to commits. -/
def readGrafts (text : List UInt8) : Except OpeningFault (List (String × List String)) :=
  let lines := linesOf text
  readGraftLines 1 (if lines.getLast? == some [] then lines.dropLast else lines)

/-- Text without the blanks around it. -/
def trimText (text : List Char) : List Char :=
  ((text.dropWhile (·.isWhitespace)).reverse.dropWhile (·.isWhitespace)).reverse

/-- The first part of the key of a setting, as the heading of a section gives
    it. A second word of the heading stands between quotes. -/
def sectionKey (heading : List Char) : String :=
  let first := heading.takeWhile (· != ' ')
  let second := ((heading.dropWhile (· != '"')).drop 1).takeWhile (· != '"')
  String.ofList (first.map Char.toLower) ++
    if second.isEmpty then "" else "." ++ String.ofList second

/-- The settings of lines that belong to a section. -/
def readSettingLines (place : String) : List (List Char) → List (String × String)
  | [] => []
  | line :: lines =>
    match trimText line with
    | [] => readSettingLines place lines
    | '[' :: heading => readSettingLines (sectionKey (heading.takeWhile (· != ']'))) lines
    | c :: rest =>
      if c == '#' || c == ';' then readSettingLines place lines
      else
        let name := trimText ((c :: rest).takeWhile (· != '='))
        let value := trimText (((c :: rest).dropWhile (· != '=')).drop 1)
        (place ++ "." ++ String.ofList (name.map Char.toLower), String.ofList value) ::
          readSettingLines place lines

/-- The settings of a repository, by their keys. The last one of a key comes
    first. -/
def readSettings (text : List UInt8) : List (String × String) :=
  (readSettingLines "" ((textOf text).toList.splitOn '\n')).reverse

end Storage

end ReleaseNotes
