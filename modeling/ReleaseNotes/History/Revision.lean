import ReleaseNotes.History.Repository

/-!
# Revisions

The notation for commits: a base, and steps from there.

A base is a name or a hash. Its end is where a step starts, and an at sign at
the end of the whole text makes `HEAD` of the base and means nothing behind a
step.

A step goes to a parent, to an ancestor along first parents, to what the
object leads to, to a commit with a message, or to something in a tree. Behind
an at sign, braces hold a place in the log of a reference: a number, a word,
or a date. What is a date is not settled by the notation, since it depends on
the clock; every other text is taken for one. A colon takes all that is left
of the text.

Steps are taken one after the other, and most are read only when the ones
before them have succeeded; a mistake in the notation at the end is not
reported if the base is not there. Tildes that follow each other are one step,
though, which is read to its end before the object is looked for that it
starts from. So are the braces behind an at sign.

## Main definitions

* `Revision`: A base and the steps from it.
* `Revision.ofText`: What a text says.
* `LogPlace.ofWord?`: The place in a log that a word means.
-/

namespace ReleaseNotes

/-- A place in the log of a reference. -/
inductive LogPlace where
  /-- So many changes ago, or at this time if the number is too large for
      that. -/
  | entry (number : Nat)
  /-- Where the history stood so many moves ago. -/
  | left (count : Nat)
  /-- What the branch follows. -/
  | followed
  /-- At the time that a text means, if it means one. -/
  | date (text : String)
deriving DecidableEq, Repr

namespace Revision

/-- A step from an object to another. -/
inductive Step where
  /-- The parent with this number, counted from one. Zero is the commit
      itself. -/
  | parent (number : Nat)
  /-- As many first parents. -/
  | ancestor (count : Nat)
  /-- What the object leads to. -/
  | peel (wanted : ObjectKind)
  /-- The object without its tags. -/
  | untag
  /-- The latest commit on the way back with a message in which a pattern
      occurs. -/
  | search (pattern : String)
  /-- Something in the tree of the object. -/
  | path (path : String)
  /-- Something in the log of the reference that the base is. -/
  | log (place : LogPlace)
  /-- A step that cannot be read. It is found to be so either before the
      object that it starts from is looked for, or behind that. -/
  | malformed (early : Bool)
deriving DecidableEq, Repr

/-- The largest number that a step may have. -/
def maxCount : Nat := 0x7fffffff

/-- The number in front of a text, one if there is none, and the text behind
    it. A number that is too large is none. -/
def count (text : List Char) : Option Nat × List Char :=
  let digits := text.takeWhile Char.isDigit
  let rest := text.dropWhile Char.isDigit
  let value := digits.foldl (fun n c => n * 10 + (c.toNat - '0'.toNat)) 0
  if digits.isEmpty then (some 1, rest)
  else if maxCount < value then (none, rest)
  else (some value, rest)

/-- The step that a word in braces means. -/
def bracedStep : List Char → Step
  | [] => .untag
  | '/' :: pattern => .search (String.ofList pattern)
  | word =>
    match ObjectKind.ofName? (String.ofList word) with
    | some kind => .peel kind
    | none => .malformed false

/-- The numbers of ancestors at which the count of a step starts again from
    zero. -/
def countSpan : Nat := 0x100000000

/-- The number of first parents that tildes with their numbers ask for
    together, at most so many tildes, and the text behind them. -/
def tildes : Nat → List Char → Option Nat × List Char
  | bound + 1, '~' :: rest =>
    match count rest with
    | (none, after) => (none, after)
    | (some number, after) =>
      let (more, after) := tildes bound after
      (more.map fun more => (number + more) % countSpan, after)
  | _, text => (some 0, text)

end Revision

namespace LogPlace

/-- The number that a text spells, with its sign, if it is not too large for a
    number of steps. -/
def number? (text : List Char) : Option Int :=
  let text := text.dropWhile fun c => c == ' ' || ('\t' ≤ c && c ≤ '\r')
  let (negative, digits) := match text with
    | '-' :: digits => (true, digits)
    | '+' :: digits => (false, digits)
    | digits => (false, digits)
  if digits.isEmpty || !digits.all Char.isDigit then none
  else
    let value := digits.foldl (fun n c => n * 10 + (c.toNat - '0'.toNat)) 0
    if negative then if value ≤ Revision.maxCount + 1 then some (-value) else none
    else if value ≤ Revision.maxCount then some value else none

/-- The words for what a branch follows. -/
def followedWords : List (List Char) :=
  [['u'], ['u', 'p', 's', 't', 'r', 'e', 'a', 'm']]

/-- The place in a log that a word means. -/
def ofWord? (word : List Char) : Option LogPlace :=
  match number? word with
  | some (.ofNat n) => if word.head? == some '-' then none else some (.entry n)
  | some (.negSucc n) => some (.left (n + 1))
  | none =>
    if word.head? == some '-' then none
    else if followedWords.contains word then some .followed
    else some (.date (String.ofList word))

end LogPlace

namespace Revision

/-- What stands in front of a closing brace, and the text behind that. -/
def untilBrace? (text : List Char) : Option (List Char × List Char) :=
  match text.dropWhile (· != '\x7d') with
  | _ :: after => some (text.takeWhile (· != '\x7d'), after)
  | [] => none

/-- The first step of a text, and the text behind it. -/
def firstStep : List Char → Step × List Char
  | '^' :: '\x7b' :: rest =>
    match untilBrace? rest with
    | some (word, after) => (bracedStep word, after)
    | none => (.malformed false, [])
  | '^' :: rest =>
    let (number, after) := count rest
    ((number.map Step.parent).getD (.malformed false), after)
  | '~' :: rest =>
    let (number, after) := tildes (rest.length + 1) ('~' :: rest)
    ((number.map Step.ancestor).getD (.malformed true), after)
  | ':' :: path => (.path (String.ofList path), [])
  | '@' :: '\x7b' :: rest =>
    match untilBrace? rest with
    | some (word, after) =>
      (((LogPlace.ofWord? word).map Step.log).getD (.malformed true), after)
    | none => (.malformed true, [])
  | _ => (.malformed true, [])

/-- The steps of a text, at most this many. Nothing follows a step that cannot
    be read, and an at sign at the end is no step. -/
def stepsUpTo : Nat → List Char → List Step
  | 0, _ => []
  | _, [] => []
  | _, ['@'] => []
  | bound + 1, text =>
    match firstStep text with
    | (.malformed early, _) => [.malformed early]
    | (step, rest) => step :: stepsUpTo bound rest

/-- The text starts with something that is no part of a base. -/
def endsBase : List Char → Bool
  | [] => true
  | ['@'] => true
  | '@' :: '\x7b' :: _ => true
  | c :: _ => c == '^' || c == '~' || c == ':'

/-- The base in front of a text, and the text behind it. -/
def splitBase : List Char → List Char × List Char
  | [] => ([], [])
  | c :: rest =>
    if endsBase (c :: rest) then ([], c :: rest)
    else
      let (base, after) := splitBase rest
      (c :: base, after)

end Revision

/-- A base and the steps from it. -/
structure Revision where
  base : String
  steps : List Revision.Step
deriving DecidableEq, Repr

namespace Revision

/-- What a text says. An at sign at the end of the base makes it `HEAD`. -/
def ofText (text : String) : Revision :=
  match splitBase text.toList with
  | (_, ['@']) => { base := "HEAD", steps := [] }
  | (base, after) => { base := String.ofList base, steps := stepsUpTo after.length after }

end Revision

end ReleaseNotes
