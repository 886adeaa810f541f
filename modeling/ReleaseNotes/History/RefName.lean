/-!
# Reference Names

The names under which a repository keeps its references, and which texts are
such names.

A name is a path of segments with slashes between them. A segment is not
empty, has none of the characters that the notation of revisions needs for
itself, no control and no blank, does not start with a point or end in
`.lock`, and has no two points in a row. The whole name does not end with a
point. Names of one segment are reserved for the references that the
repository keeps for its own use, and are written in capitals and
underscores; in a longer name the first segment is not of that form.

Somebody who looks for a reference may write several slashes where there
should be one. `tidy` takes the extra ones out, but not one at the end, which
leaves a name that is none.

References are kept in files, so there are names that nothing can be kept
under: those that are too long as a whole, and those with a segment too long
to be the name of a file. A length is that of the text in bytes.

## Main definitions

* `RefName.isValid`: The text is a name of a reference.
* `RefName`: Such a text.
* `RefName.fits`, `RefName.isStorable`: The name is not too long, as a whole
  and segment by segment.
* `RefName.find?`: The name that a text means when a reference is looked for.
-/

namespace ReleaseNotes

namespace RefName

/-- A character that may stand in a segment. -/
def allows (c : Char) : Bool :=
  0x20 < c.toNat && !(['~', '^', ':', '\\', '?', '[', '*'].contains c)

/-- The two characters stand next to each other somewhere in the text. -/
def hasPair (first second : Char) : List Char → Bool
  | [] => false
  | [_] => false
  | a :: b :: rest => (a == first && b == second) || hasPair first second (b :: rest)

/-- The text is a segment of a name. -/
def isSegment (segment : List Char) : Bool :=
  !segment.isEmpty && segment.head? != some '.' && segment.all allows &&
    !hasPair '.' '.' segment && !hasPair '@' '\x7b' segment &&
    !(['.', 'l', 'o', 'c', 'k'].isSuffixOf segment)

/-- The segment has the form of the names that a repository keeps for its own
    use. -/
def isReserved (segment : List Char) : Bool :=
  segment.all (fun c => ('A' ≤ c && c ≤ 'Z') || c == '_') &&
    segment.head? != some '_' && segment.getLast? != some '_'

/-- The text is a name of a reference. -/
def isValid (text : String) : Bool :=
  let segments := text.toList.splitOn '/'
  segments.all isSegment && text.toList.getLast? != some '.' &&
    match segments with
    | [] => false
    | [only] => isReserved only
    | first :: _ => !isReserved first

/-- The number of bytes that a name may have. -/
def maxSize : Nat := 1023

/-- The number of bytes that a segment may have. -/
def maxSegmentSize : Nat := 255

/-- The name is not too long as a whole. -/
def fits (name : String) : Bool :=
  name.utf8ByteSize ≤ maxSize

/-- No segment of the name is too long for the name of a file. -/
def isStorable (name : String) : Bool :=
  (name.toList.splitOn '/').all fun segment =>
    (String.ofList segment).utf8ByteSize ≤ maxSegmentSize

/-- The text with every run of slashes made one. A slash at the end or the
    beginning stays. -/
def squeeze : List Char → List Char
  | [] => []
  | [c] => [c]
  | a :: b :: rest => if a == '/' && b == '/' then squeeze (b :: rest) else a :: squeeze (b :: rest)

/-- The text with extra slashes taken out. -/
def tidy (text : String) : String :=
  String.ofList (squeeze text.toList)

end RefName

/-- The name of a reference. -/
structure RefName where
  text : String
  valid : RefName.isValid text = true
deriving DecidableEq

namespace RefName

theorem ext {a b : RefName} (h : a.text = b.text) : a = b := by
  cases a
  cases b
  simp_all

/-- A text as a name, if it is one. -/
def ofText? (text : String) : Option RefName :=
  if h : isValid text = true then some ⟨text, h⟩ else none

/-- The name that a text means when a reference is looked for. -/
def find? (text : String) : Option RefName :=
  ofText? (tidy text)

end RefName

end ReleaseNotes
