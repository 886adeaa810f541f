import ReleaseNotes.Text.Visible

/-!
# Quoted Text

How a text is shown inside a one-line message: between double quotes, with
everything escaped that would end the quotes early, break the line, or not be
seen.

The usual short escapes are used where there is one. A backslash and a double
quote are escaped by a backslash. Any other hidden character is written as
its code in lower-case hexadecimal digits between braces, without leading
zeros. Visible characters stand for themselves, whatever script they are of.

## Main definitions

* `hexDigits`: A number in lower-case hexadecimal digits.
* `quotedChar`: What one character becomes.
* `quoted`: The text between double quotes.
-/

namespace ReleaseNotes

namespace Text

/-- A number in lower-case hexadecimal digits, without leading zeros. -/
def hexDigits (n : Nat) : List Char :=
  Nat.toDigits 16 n

/-- What a character becomes between double quotes. -/
def quotedChar (c : Char) : List Char :=
  if c == '\x00' then ['\\', '0']
  else if c == '\t' then ['\\', 't']
  else if c == '\r' then ['\\', 'r']
  else if c == '\n' then ['\\', 'n']
  else if c == '\\' || c == '"' then ['\\', c]
  else if isHidden c then ['\\', 'u', '\x7b'] ++ hexDigits c.toNat ++ ['\x7d']
  else [c]

/-- The text between double quotes, on one line and with nothing hidden. -/
def quoted (text : String) : String :=
  String.ofList ('"' :: text.toList.flatMap quotedChar ++ ['"'])

end Text

end ReleaseNotes
