import ReleaseNotes.History.Graph

/-!
# The Texts of Commits

How commits and tags are written down.

A commit is written as lines, an empty line, and the message. The first line
names the tree. A line for each parent follows, one for the author and one for
the committer, each with a name, an address between angles, a time, and a time
zone. The time of a commit is that of the committer. Further lines may follow
that say something else.

Nothing makes sure that a name has no angles in it and no line ends, so a
commit that is written down may read differently, or not at all. In a line
about a person the address stands between the last angles that there are. A
second line about an author is read like the first one, but does not count.
Blanks and marks around a name are no part of it.

The text of a tag starts with a line about the object that it is about.

## Main definitions

* `Signature`: A person, an address and a time.
* `Signature.write`, `Signature.read`: A line about a person.
* `CommitText`: A commit as it is written down.
* `CommitText.write`, `CommitText.read`: Its text.
* `CommitText.content`: What a commit says that matters.
* `writeTag`, `readTag`: The text of a tag.
-/

namespace ReleaseNotes

namespace Storage

/-- A person, an address and a time. -/
structure Signature where
  name : List UInt8
  address : List UInt8
  time : Int

/-- A commit as it is written down. -/
structure CommitText where
  tree : String
  parents : List String
  author : Signature
  committer : Signature
  message : List UInt8

/-- The bytes of a text. -/
def bytesOf (text : String) : List UInt8 := text.toUTF8.toList

/-- The text of bytes of which each is one character. -/
def asciiOf (bytes : List UInt8) : String :=
  String.ofList (bytes.map fun byte => Char.ofNat byte.toNat)

/-- The byte that ends a line. -/
def lineEnd : UInt8 := 10

/-- The first line, and what stands behind its end. -/
def splitLine? (text : List UInt8) : Option (List UInt8 × List UInt8) :=
  match text.dropWhile (· != lineEnd) with
  | _ :: rest => some (text.takeWhile (· != lineEnd), rest)
  | [] => none

/-- The bytes behind a word and a blank, if a text starts like that. -/
def behindWord? (word : String) (text : List UInt8) : Option (List UInt8) :=
  let opening := bytesOf (word ++ " ")
  if opening.isPrefixOf text then some (text.drop opening.length) else none

namespace Signature

/-- A byte that is no part of a name at its ends: a blank, a control, or one
    of the marks that stand around names. -/
def isMark (byte : UInt8) : Bool :=
  byte ≤ 32 ||
    ['.', ',', ':', ';', '<', '>', '"', '\\', '\''].any fun c => c.toNat == byte.toNat

/-- A name without the marks around it. -/
def trim (name : List UInt8) : List UInt8 :=
  ((name.dropWhile isMark).reverse.dropWhile isMark).reverse

/-- A byte between words. -/
def isBlank (byte : UInt8) : Bool := byte == 32 || (9 ≤ byte && byte ≤ 13)

/-- A byte for a digit. -/
def isDigit (byte : UInt8) : Bool := '0'.toUInt8 ≤ byte && byte ≤ '9'.toUInt8

/-- The largest number of seconds that there is room for. One more fits on the
    other side of zero. -/
def maxTime : Int := 0x7fffffffffffffff

/-- The time that a text starts with. -/
def readTime (text : List UInt8) : Except SignatureFault Int :=
  let text := text.dropWhile isBlank
  let sign := text.head?
  let isSigned := sign == some '-'.toUInt8 || sign == some '+'.toUInt8
  let digits := (if isSigned then text.drop 1 else text).takeWhile isDigit
  let number : Nat := digits.foldl (fun n byte => n * 10 + (byte.toNat - '0'.toNat)) 0
  let value : Int := if sign == some '-'.toUInt8 then -number else number
  if digits.isEmpty || maxTime < value || value < -maxTime - 1 then .error .badTime
  else .ok value

/-- The last place at which a byte stands. -/
def lastPlace? (byte : UInt8) (text : List UInt8) : Option Nat :=
  (text.reverse.findIdx? (· == byte)).map (text.length - 1 - ·)

/-- What a line says about a person. A time may be left out. -/
def ofLine (line : List UInt8) : Except SignatureFault Signature :=
  match lastPlace? '<'.toUInt8 line, lastPlace? '>'.toUInt8 line with
  | some start, some stop =>
    if stop ≤ start then .error .badAddress
    else do
      let behind := line.drop (stop + 2)
      let time ← if behind.isEmpty then pure 0 else readTime behind
      return {
        name := trim (line.take start)
        address := trim ((line.take stop).drop (start + 1))
        time }
  | _, _ => .error .badAddress

/-- A line about a person behind a word, read from the front of a text. -/
def read (word : String) (text : List UInt8) :
    Except SignatureFault (Signature × List UInt8) :=
  match splitLine? text with
  | none => .error .endless
  | some (line, rest) =>
    match behindWord? word line with
    | none | some [] => .error .otherWord
    | some line => do return (← ofLine line, rest)

/-- A line about a person behind a word. -/
def write (word : String) (signature : Signature) : List UInt8 :=
  bytesOf (word ++ " ") ++ signature.name ++ bytesOf " <" ++ signature.address ++
    bytesOf ("> " ++ toString signature.time ++ " +0000\n")

end Signature

/-- The number of characters that a hash has. -/
def hashSize : Nat := 40

/-- A byte for a hexadecimal digit. -/
def isHexByte (byte : UInt8) : Bool :=
  let c := Char.ofNat byte.toNat
  c.isDigit || ('a' ≤ c && c ≤ 'f') || ('A' ≤ c && c ≤ 'F')

/-- The hash that a text starts with, in small letters, and what stands behind
    it. -/
def readHash? (text : List UInt8) : Option (String × List UInt8) :=
  let hash := text.take hashSize
  if hash.length = hashSize && hash.all isHexByte then
    some (String.ofList ((asciiOf hash).toList.map Char.toLower), text.drop hashSize)
  else none

/-- A line with a hash behind a word, read from the front of a text. -/
def readHashLine? (word : String) (text : List UInt8) : Option (String × List UInt8) := do
  let (hash, rest) ← readHash? (← behindWord? word text)
  match rest with
  | byte :: rest => if byte == lineEnd then some (hash, rest) else none
  | [] => none

/-- Lines with hashes behind a word, at most so many, and what stands behind
    them. -/
def readHashLines (word : String) : Nat → List UInt8 → List String × List UInt8
  | 0, text => ([], text)
  | bound + 1, text =>
    match readHashLine? word text with
    | some (hash, rest) =>
      let (hashes, rest) := readHashLines word bound rest
      (hash :: hashes, rest)
    | none => ([], text)

/-- What stands behind further lines about persons, at most so many. -/
def skipSignatures (word : String) : Nat → List UInt8 → Except SignatureFault (List UInt8)
  | 0, text => .ok text
  | bound + 1, text =>
    if (behindWord? word text).isSome then do
      skipSignatures word bound (← Signature.read word text).2
    else .ok text

/-- What stands behind the first empty line, given whether a line starts
    here. -/
def behindEmptyLine (isStart : Bool) : List UInt8 → List UInt8
  | [] => []
  | byte :: rest =>
    if byte == lineEnd then if isStart then rest else behindEmptyLine true rest
    else behindEmptyLine false rest

namespace CommitText

/-- The text of a commit. -/
def write (commit : CommitText) : List UInt8 :=
  bytesOf ("tree " ++ commit.tree ++ "\n") ++
    (commit.parents.flatMap fun parent => bytesOf ("parent " ++ parent ++ "\n")) ++
    commit.author.write "author" ++ commit.committer.write "committer" ++
    bytesOf "\n" ++ commit.message

/-- The commit that a text writes down. -/
def read (text : List UInt8) : Except ReadFault CommitText := do
  match readHashLine? "tree" text with
  | none => throw (.badText "commit")
  | some (tree, rest) =>
    let (parents, rest) := readHashLines "parent" rest.length rest
    let (author, rest) ← (Signature.read "author" rest).mapError .signature
    let rest ← (skipSignatures "author" rest.length rest).mapError .signature
    let (committer, rest) ← (Signature.read "committer" rest).mapError .signature
    return { tree, parents, author, committer, message := behindEmptyLine true rest }

/-- What a commit says that matters. -/
def content (commit : CommitText) : CommitContent where
  tree := commit.tree
  parents := commit.parents
  time := commit.committer.time
  author := commit.author.name.toByteArray
  message := commit.message.toByteArray

end CommitText

/-- The text of a tag with a name, about an object of a kind. -/
def writeTag (hash kind name : String) : List UInt8 :=
  bytesOf ("object " ++ hash ++ "\ntype " ++ kind ++ "\ntag " ++ name ++ "\n\n")

/-- The hash that the text of a tag is about. -/
def readTag (text : List UInt8) : Except ReadFault String :=
  match readHashLine? "object" text with
  | some (hash, _) => .ok hash
  | none => .error (.badText "tag")

end Storage

end ReleaseNotes
