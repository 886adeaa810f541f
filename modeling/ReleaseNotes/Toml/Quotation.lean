import ReleaseNotes.Toml.Scan

/-!
# Quotations

Texts between quotes, of the four kinds there are. Double quotes allow
escapes and single quotes do not; one quote on each side keeps a text on one
line and three let it run over several.

In a text over several lines a line feed directly behind the opening quotes is
not part of it, and every other line end is a line feed, also where it was
written as two characters. Between double quotes, a backslash at the end of a
line takes that line end away together with all blanks and line ends that
follow.

One or two quotes may stand inside such a text. Where more of them follow each
other, the last three close the text and up to two before them are part of
it. So a run of up to two quotes goes on, a run of three, four or five closes,
and a longer one can be read in no way.

## Main definitions

* `quotation`: A text of any of the four kinds.
* `lineQuotation`: A text of one of the two kinds that stay on one line.
-/

namespace ReleaseNotes

namespace Toml

/-- The character with this code, written with this many hexadecimal
    digits. -/
def codePoint (count : Nat) : Scan Char := do
  let rest ← get
  let found := rest.take count
  guard (found.length == count && found.all isHexDigit)
  set (rest.drop count)
  let code := numberOf 16 found
  guard code.isValidChar
  return Char.ofNat code

/-- What stands behind a backslash, as the character it means. -/
def escaped : Scan Char := do
  match ← next with
  | 'b' => return '\x08'
  | 't' => return '\t'
  | 'n' => return '\n'
  | 'f' => return '\x0c'
  | 'r' => return '\r'
  | '"' => return '"'
  | '\\' => return '\\'
  | 'u' => codePoint 4
  | 'U' => codePoint 8
  | _ => failure

/-- One piece of a text between single characters, and whether it was the
    last. -/
def linePiece (quote : Char) : Scan (List Char × Bool) := do
  let c ← next
  if c == quote then return ([], true)
  else if c == '\\' && quote == '"' then return ([← escaped], false)
  else do
    guard (isPlain c)
    return ([c], false)

/-- A text that stays on one line, behind its opening quote. -/
def lineBody (quote : Char) : Scan String := do
  return String.ofList (← chain (linePiece quote)).flatten

/-- A line end behind a backslash, with everything that it takes away. -/
def joinedLines : Scan Unit := do
  blanks
  newline
  discard <| chain do
    let more ← succeeds (exactly ' ' <|> exactly '\t' <|> newline)
    return ((), !more)

/-- One piece of a text between triple quotes, and whether it was the last. -/
def blockPiece (quote : Char) : Scan (List Char × Bool) := do
  match ← peek with
  | none => failure
  | some c =>
    if c == quote then
      let count := (← run (· == quote)).length
      guard (count < 6)
      return (List.replicate (if count < 3 then count else count - 3) quote, 3 ≤ count)
    else if c == '\\' && quote == '"' then
      exactly '\\'
      (joinedLines *> pure ([], false)) <|> return ([← escaped], false)
    else
      (newline *> pure (['\n'], false)) <|> do
        exactly c
        guard (isPlain c)
        return ([c], false)

/-- A text that may run over several lines, behind its opening quotes. -/
def blockBody (quote : Char) : Scan String := do
  newline <|> pure ()
  return String.ofList (← chain (blockPiece quote)).flatten

/-- A text that stays on one line, with its quotes. -/
def lineQuotation : Scan String :=
  (exactly '"' *> lineBody '"') <|> (exactly '\'' *> lineBody '\'')

/-- A text with its quotes. -/
def quotation : Scan String := do
  let rest ← get
  if ['"', '"', '"'].isPrefixOf rest then literal "\"\"\"" *> blockBody '"'
  else if ['\'', '\'', '\''].isPrefixOf rest then literal "'''" *> blockBody '\''
  else lineQuotation

end Toml

end ReleaseNotes
