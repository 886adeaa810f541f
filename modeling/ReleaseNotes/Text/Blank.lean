/-!
# Blank Characters

Which characters count as white space, and what is left of a text once the
white space around it is taken away.

Core's own test on characters knows the four blanks of ASCII that a
programmer types. A name or an answer can be made of others: an author whose
name is one ideographic space is as blank as one whose name is a tab. So the
class is the White_Space property of Unicode, all of it, written out as the
few ranges it has.

Two questions are asked of a text. `isBlank` asks whether it has any visible
character at all, and decides whether an author is recorded. `trim` cuts the
blanks off both ends, and decides what an answer on the terminal says.

## Main definitions

* `isWhite`: A character has the White_Space property.
* `isBlank`: A text has only white characters, or none.
* `trim`: A text without the white characters at its two ends.
-/

namespace ReleaseNotes

namespace Text

/-- The White_Space property of Unicode. -/
def isWhite (c : Char) : Bool :=
  (0x09 ≤ c.toNat && c.toNat ≤ 0x0D) || c.toNat == 0x20 || c.toNat == 0x85 ||
    c.toNat == 0xA0 || c.toNat == 0x1680 || (0x2000 ≤ c.toNat && c.toNat ≤ 0x200A) ||
    c.toNat == 0x2028 || c.toNat == 0x2029 || c.toNat == 0x202F || c.toNat == 0x205F ||
    c.toNat == 0x3000

/-- A text that shows nothing: every character is white, or there is none. -/
def isBlank (text : String) : Bool :=
  text.toList.all isWhite

/-- The text with the white characters at both ends cut off. -/
def trim (text : List Char) : List Char :=
  ((text.dropWhile isWhite).reverse.dropWhile isWhite).reverse

end Text

end ReleaseNotes
