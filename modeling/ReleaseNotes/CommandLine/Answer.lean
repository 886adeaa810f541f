import ReleaseNotes.Text.Blank

/-!
# Answers

What a user means who is asked a question on the terminal.

Only `y` and `yes` mean yes, in capitals or not and with any blanks around
them. Everything else means no, so that silence and mistakes change nothing.
The two words are spelled with letters of ASCII, and no other letter becomes
one of these when it is put in lower case, so lower case is that of ASCII.

## Main definitions

* `confirms`: The answer means yes.
-/

namespace ReleaseNotes

/-- The answer means yes. -/
def confirms (answer : String) : Bool :=
  let word := (Text.trim answer.toList).map Char.toLower
  word == ['y'] || word == ['y', 'e', 's']

end ReleaseNotes
