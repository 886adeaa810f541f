/-!
# Scanning

The small readers that all other readers of configuration texts are made of.

A reader takes characters off the front of the text that is left, and either
yields a value or fails. It fails without saying why: what is wrong with the
notation of a text is not reported beyond the fact. Failing leaves no trace,
so an alternative starts where the failed reader started.

Repetition has one form, `chain`. It runs a step until the step says it was
the last, and bounds the number of runs by the characters that are left. A
step that takes at least one character therefore never meets the bound.

## Main definitions

* `Scan`: A reader of characters.
* `chain`: A step repeated until it says that it was the last.
* `blanks`, `newline`, `lineEnd`, `gaps`: What separates things.
-/

namespace ReleaseNotes

namespace Toml

/-- A reader that takes characters off the front of a text. -/
abbrev Scan := StateT (List Char) Option

/-- The next character, which is left where it is. -/
def peek : Scan (Option Char) := do
  return (← get).head?

/-- The next character, taken. -/
def next : Scan Char := do
  match ← get with
  | [] => failure
  | c :: rest =>
    set rest
    return c

/-- This character, taken. -/
def exactly (c : Char) : Scan Unit := do
  guard ((← next) == c)

/-- These characters, taken. -/
def literal (text : String) : Scan Unit := do
  let rest ← get
  guard (text.toList.isPrefixOf rest)
  set (rest.drop text.length)

/-- The longest run of characters of a class, perhaps empty. -/
def run (belongs : Char → Bool) : Scan (List Char) := do
  let rest ← get
  set (rest.dropWhile belongs)
  return rest.takeWhile belongs

/-- The longest run of characters of a class, not empty. -/
def run1 (belongs : Char → Bool) : Scan (List Char) := do
  let found ← run belongs
  guard !found.isEmpty
  return found

/-- Whether this reader succeeds here. If it does not, nothing is taken. -/
def succeeds (reader : Scan Unit) : Scan Bool :=
  (reader *> pure true) <|> pure false

/-- A step repeated at most `bound` times, until it says that it was the
    last. -/
def chainUpTo {α : Type} (step : Scan (α × Bool)) : Nat → Scan (List α)
  | 0 => failure
  | bound + 1 => do
    let (value, last) ← step
    if last then return [value]
    return value :: (← chainUpTo step bound)

/-- A step repeated until it says that it was the last. Every run has to take
    a character, except perhaps the last one. -/
def chain {α : Type} (step : Scan (α × Bool)) : Scan (List α) := do
  chainUpTo step ((← get).length + 1)

/-- The two blanks that may stand between things on one line. -/
def isBlank (c : Char) : Bool :=
  c == ' ' || c == '\t'

/-- A character that may stand in a comment or between quotes: a tab, or any
    other than the controls of ASCII. -/
def isPlain (c : Char) : Bool :=
  c == '\t' || (0x20 ≤ c.toNat && c.toNat != 0x7F)

/-- Blanks, or nothing. -/
def blanks : Scan Unit := do
  discard (run isBlank)

/-- The end of a line: a line feed, perhaps with a carriage return before
    it. -/
def newline : Scan Unit :=
  exactly '\n' <|> literal "\r\n"

/-- A comment, without the end of its line. -/
def comment : Scan Unit := do
  exactly '#'
  discard (run isPlain)

/-- What may follow on a line after the last thing on it: blanks, a comment,
    and the end of the line or of the text. -/
def lineEnd : Scan Unit := do
  blanks
  comment <|> pure ()
  newline <|> guard ((← peek) == none)

/-- Blanks, comments and line ends, in any number. -/
def gaps : Scan Unit := do
  discard <| chain do
    let more ← succeeds (exactly ' ' <|> exactly '\t' <|> newline <|> (comment *> newline))
    return ((), !more)

/-- The values of the digits of a number in some base. -/
def digitValue (c : Char) : Nat :=
  if c.isDigit then c.toNat - '0'.toNat
  else if c.isLower then c.toNat - 'a'.toNat + 10
  else c.toNat - 'A'.toNat + 10

/-- The number that digits of a base spell. -/
def numberOf (base : Nat) (digits : List Char) : Nat :=
  digits.foldl (fun n c => n * base + digitValue c) 0

/-- A digit of base sixteen, in either case. -/
def isHexDigit (c : Char) : Bool :=
  c.isDigit || ('a' ≤ c && c ≤ 'f') || ('A' ≤ c && c ≤ 'F')

end Toml

end ReleaseNotes
