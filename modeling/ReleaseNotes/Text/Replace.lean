/-!
# Replacing Text

Every occurrence of one text inside another, replaced from left to right.

Occurrences may overlap: the text `aaa` holds `aa` twice, yet only one of
the two can be replaced. The rule is that the leftmost occurrence wins and
the search goes on behind it, and that what was put in is not searched again.

The scan walks one character at a time. When an occurrence of the search text
starts at the current character, its replacement is written and the remaining
characters of the occurrence are passed over; `skip` counts those. Counting
them down, rather than cutting the text, leaves a recursion on the text
itself. A search text without characters would be found everywhere and never
get anywhere, so the callers pass none.

## Main definitions

* `replaceFrom`: The scan, with a number of characters to pass over first.
* `replaceAll`: The text with every occurrence replaced.

## Theorems

* `replaceFrom_eq_drop`: Passing over characters is dropping them.
-/

namespace ReleaseNotes

namespace Text

/-- The scan behind `replaceAll`. The first `skip` characters belong to an
    occurrence that has been replaced already, and are passed over. -/
def replaceFrom (search replacement : List Char) : Nat → List Char → List Char
  | _, [] => []
  | skip + 1, _ :: rest => replaceFrom search replacement skip rest
  | 0, c :: rest =>
    if search.isPrefixOf (c :: rest) then
      replacement ++ replaceFrom search replacement (search.length - 1) rest
    else
      c :: replaceFrom search replacement 0 rest

/-- The text with every occurrence of a non-empty search text replaced, from
    left to right and without searching what was put in. -/
def replaceAll (search replacement text : List Char) : List Char :=
  replaceFrom search replacement 0 text

theorem replaceFrom_eq_drop (search replacement : List Char) (skip : Nat) (text : List Char) :
    replaceFrom search replacement skip text =
      replaceFrom search replacement 0 (text.drop skip) := by
  induction skip generalizing text with
  | zero => rfl
  | succ n ih =>
      cases text with
      | nil => simp [replaceFrom]
      | cons c rest => rw [replaceFrom, ih, List.drop_succ_cons]

end Text

end ReleaseNotes
