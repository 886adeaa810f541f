/-!
# Patterns

What texts are searched for.

A pattern is looked for in bytes. From a place in them it can come to an end
in several ways, and `Pattern.ends` lists these in the order in which they are
to be preferred, each only once. A part that is repeated as often as possible
has the longest ways first; a part that is committed to has its first way and
no other one. Without such parts the order would not matter to the question
whether there is a way at all.

Groups remember where they last came to an end, and a pattern may ask for
their bytes once more, so a way has more to it than the place where it ends:
a `Spot` is a place together with what the groups remember.

A part that is repeated without a bound and has moved nowhere is not tried
again, so the rest of the text bounds the number of rounds.

## Main definitions

* `Pattern`: What is searched for.
* `Spot`: A place, and what the groups remember there.
* `Pattern.ends`: Where a pattern that starts at a spot may end.
* `Pattern.occursIn`: The pattern starts and ends somewhere in a text.
* `Pattern.size?`: The number of bytes that every way goes, if there is one.
-/

namespace ReleaseNotes

namespace Search

/-- A byte that words are made of. -/
def isWordByte (byte : UInt8) : Bool :=
  let c := Char.ofNat byte.toNat
  c.isAlphanum || c == '_'

/-- The byte that ends a line. -/
def lineEnd : UInt8 := 10

/-- Something that is asked of a place. -/
inductive Edge where
  /-- The text starts here. -/
  | start
  /-- A line starts here. -/
  | lineStart
  /-- The text stops here. -/
  | stop
  /-- The text stops here, or its last line does. -/
  | lastStop
  /-- A line stops here. -/
  | lineStop
  /-- A word starts or stops here, or it does not. -/
  | word (wanted : Bool)
deriving DecidableEq, Repr

/-- What is asked of a place is true there. -/
def Edge.holds (text : ByteArray) (place : Nat) : Edge → Bool
  | .start => place == 0
  | .lineStart => place == 0 || (text[place - 1]? == some lineEnd && place < text.size)
  | .stop => place == text.size
  | .lastStop =>
    place == text.size || (place + 1 == text.size && text[place]? == some lineEnd)
  | .lineStop => place == text.size || text[place]? == some lineEnd
  | .word wanted =>
    let before := 0 < place && ((text[place - 1]?).map isWordByte).getD false
    let behind := ((text[place]?).map isWordByte).getD false
    (before != behind) == wanted

/-- What is searched for. -/
inductive Pattern where
  /-- Nothing, which is found everywhere. -/
  | empty
  /-- One byte. -/
  | byte (allows : UInt8 → Bool)
  | edge (edge : Edge)
  /-- One pattern behind another. -/
  | both (first second : Pattern)
  /-- One pattern, or else another. -/
  | either (first second : Pattern)
  /-- A pattern several times, as often as possible or as rarely. -/
  | repeated (inner : Pattern) (least : Nat) (most : Option Nat) (greedy : Bool)
  /-- A pattern whose bytes are remembered. -/
  | group (number : Nat) (inner : Pattern)
  /-- The bytes that the first of these groups remembers that remembers
      some. -/
  | recall (numbers : List Nat) (ignoresCase : Bool)
  /-- A pattern in its first way only. -/
  | committed (inner : Pattern)
  /-- A pattern that has to start here, or must not, and takes no room. -/
  | look (wanted : Bool) (inner : Pattern)
  /-- So many bytes back. -/
  | back (count : Nat)

/-- A place, and what the groups remember there. -/
structure Spot where
  place : Nat
  groups : List (Nat × Nat × Nat) := []
deriving DecidableEq, Repr

namespace Spot

/-- A spot where a group remembers the bytes since a place. -/
def remember (spot : Spot) (number since : Nat) : Spot :=
  { spot with
    groups := (number, since, spot.place) :: spot.groups.filter (·.1 != number) }

/-- The bytes that the first of some groups remembers that remembers some. -/
def recalled? (spot : Spot) (text : ByteArray) (numbers : List Nat) : Option ByteArray :=
  (numbers.findSome? fun number => List.lookup number spot.groups).map
    fun (start, stop) => text.extract start stop

end Spot

/-- A letter made small, and every other byte as it is. -/
def lower (byte : UInt8) : UInt8 :=
  if 65 ≤ byte && byte ≤ 90 then byte + 32 else byte

/-- Spots in an order, the last one first, and those that have been started
    from. -/
structure Ways where
  seen : List Spot := []
  found : List Spot := []

/-- One more spot, unless it is there. -/
def Ways.add (ways : Ways) (spot : Spot) : Ways :=
  if ways.found.contains spot then ways else { ways with found := spot :: ways.found }

/-- The ways to repeat something as often as it goes, in at most so many
    rounds, added to others. -/
def repeatFreely (once : Spot → List Spot) (greedy : Bool) : Nat → Spot → Ways → Ways
  | 0, spot, ways => ways.add spot
  | bound + 1, spot, ways =>
    if ways.seen.contains spot then ways
    else
      let ways := { ways with seen := spot :: ways.seen }
      let ways := if greedy then ways else ways.add spot
      let ways := (once spot).foldl
        (fun ways next =>
          if next.place = spot.place then ways.add next
          else repeatFreely once greedy bound next ways)
        ways
      ways.add spot

/-- The ways to repeat something up to so many times. -/
def repeatUpTo (once : Spot → List Spot) (greedy : Bool) : Nat → Spot → List Spot
  | 0, spot => [spot]
  | count + 1, spot =>
    let more := ((once spot).flatMap (repeatUpTo once greedy count)).eraseDups
    if greedy then (more ++ [spot]).eraseDups else (spot :: more).eraseDups

/-- The ways to repeat something so many times. -/
def repeatExactly (once : Spot → List Spot) : Nat → Spot → List Spot
  | 0, spot => [spot]
  | count + 1, spot => ((once spot).flatMap (repeatExactly once count)).eraseDups

namespace Pattern

/-- Where a pattern that starts at a spot may end, in the order of
    preference. -/
def ends (text : ByteArray) : Pattern → Spot → List Spot
  | .empty, spot => [spot]
  | .byte allows, spot =>
    match text[spot.place]? with
    | some next => if allows next then [{ spot with place := spot.place + 1 }] else []
    | none => []
  | .edge asked, spot => if asked.holds text spot.place then [spot] else []
  | .both first second, spot => ((first.ends text spot).flatMap (second.ends text)).eraseDups
  | .either first second, spot => (first.ends text spot ++ second.ends text spot).eraseDups
  | .repeated inner least most greedy, spot =>
    let once := inner.ends text
    let more : Spot → List Spot :=
      match most with
      | some most => repeatUpTo once greedy (most - least)
      | none => fun spot => (repeatFreely once greedy (text.size + 1) spot {}).found.reverse
    ((repeatExactly once least spot).flatMap more).eraseDups
  | .group number inner, spot =>
    ((inner.ends text spot).map (·.remember number spot.place)).eraseDups
  | .recall numbers ignoresCase, spot =>
    match spot.recalled? text numbers with
    | none => []
    | some bytes =>
      let found := text.extract spot.place (spot.place + bytes.size)
      let same :=
        if ignoresCase then found.toList.map lower == bytes.toList.map lower
        else found.toList == bytes.toList
      if same then [{ spot with place := spot.place + bytes.size }] else []
  | .committed inner, spot => (inner.ends text spot).take 1
  | .look wanted inner, spot =>
    match inner.ends text spot with
    | [] => if wanted then [] else [spot]
    | found :: _ => if wanted then [{ found with place := spot.place }] else []
  | .back count, spot =>
    if count ≤ spot.place then [{ spot with place := spot.place - count }] else []

/-- The pattern starts and ends somewhere in a text. -/
def occursIn (pattern : Pattern) (text : ByteArray) : Bool :=
  (List.range (text.size + 1)).any fun place => !(pattern.ends text { place }).isEmpty

/-- The number of bytes that every way of a pattern goes, if there is one. -/
def size? : Pattern → Option Nat
  | .empty | .edge _ | .look _ _ => some 0
  | .byte _ => some 1
  | .both first second => do return (← first.size?) + (← second.size?)
  | .either first second => do
    let size ← first.size?
    guard ((← second.size?) = size)
    return size
  | .repeated inner least most _ => do
    let size ← inner.size?
    guard (size = 0 || most = some least)
    return least * size
  | .group _ inner | .committed inner => inner.size?
  | .recall _ _ | .back _ => none

/-- Patterns one behind the other. -/
def sequence (patterns : List Pattern) : Pattern :=
  patterns.foldr .both .empty

/-- One of several patterns, an earlier one rather than a later one. -/
def oneOf : List Pattern → Pattern
  | [] => .empty
  | [pattern] => pattern
  | pattern :: patterns => .either pattern (oneOf patterns)

end Pattern

end Search

end ReleaseNotes
