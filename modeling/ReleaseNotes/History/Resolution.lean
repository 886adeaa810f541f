import ReleaseNotes.History.Descent
import ReleaseNotes.History.Heap
import ReleaseNotes.History.Revision
import ReleaseNotes.Search.Notation

/-!
# Resolution

The objects that revisions mean.

The base of a revision is a name or a hash. A full hash comes first. Then the
text is tried as the end of a reference name, in a fixed order of places where
references are kept, so a tag hides a branch of the same name. Last it may be
the start of a hash, which has to be long enough to mean something and to fit
one object only, or a description: a name, a number and the start of a hash
behind `-g`.

A revision is followed step by step. Before the first step there is only the
text of the base, and it is not looked for until that is needed: a step to the
log of a reference asks for the reference, and a colon in front of everything
asks for no base at all. So a `Standing` is a text, a reference or an object.

A search goes through the commits behind an object, or behind all references,
with the latest first, whether or not it has come to all their children. Those
of the same time come in the order of a heap.

## Main definitions

* `RevisionFault`: Why a revision leads nowhere.
* `Repository.find`: The object that a base means.
* `Standing`: How far a revision has been followed.
* `Repository.take`: One more step.
* `Repository.revision`: The object that a text means.
-/

namespace ReleaseNotes

/-- Why a revision leads nowhere. -/
inductive RevisionFault where
  /-- There is nothing of this name. -/
  | notFound (base : String)
  /-- A commit has no parent with this number, counted from zero. -/
  | noParent (number : Nat)
  /-- The text is against the notation. -/
  | badPattern
  /-- The start of a hash is too short. -/
  | tooShort
  /-- The start of a hash fits several objects. -/
  | ambiguous
  /-- A reference leads nowhere. -/
  | ref (fault : RefFault)
  /-- There is no reference that ends in this text. -/
  | noShorthand (text : String)
  /-- An object cannot be read. -/
  | read (fault : ReadFault)
  /-- An object does not lead to what is asked for. -/
  | peel (fault : PeelFault)
  /-- A search cannot start from an object without commits. -/
  | notCommittish (cause : PeelCause)
  /-- A search has come to its end. -/
  | noMatch
  /-- A path does not have the form of one. -/
  | badPath
  /-- There is nothing of this name in a tree. -/
  | noEntry (name : String)
  /-- There is something of this name in a tree, but nothing in it. -/
  | notTree (name : String)
  /-- The text asks for something that is not supported. -/
  | unsupported
  /-- The log of a reference does not go back so far. -/
  | shortLog (name : String) (size number : Nat)
  /-- There is no setting of this key. -/
  | noSetting (key : String)
  /-- The text has a character that no name has. -/
  | zeroCharacter
deriving DecidableEq, Repr

namespace RevisionFault

/-- The fault of a revision when a reference leads nowhere. -/
def ofRef : RefFault → RevisionFault
  | .badName _ => .badPattern
  | .longSegment _ => .badPattern
  | fault => .ref fault

/-- The fault of a revision when an object does not lead to what is asked
    for. -/
def ofPeel (fault : PeelFault) : RevisionFault :=
  match fault.cause with
  | .senseless => .badPattern
  | .unpeelable | .unreadable _ => .peel fault

/-- The fault of a revision when an object does not lead to where a step
    starts. -/
def ofStart (fault : PeelFault) : RevisionFault :=
  match fault.cause with
  | .senseless => .badPattern
  | .unreadable (.missing _) => .badPattern
  | .unreadable .zeroHash => .badPattern
  | .unpeelable | .unreadable _ => .peel fault

/-- The fault of a search that starts from such an object. -/
def ofCommittish (fault : PeelFault) : RevisionFault :=
  match fault.cause with
  | .senseless => .badPattern
  | cause => .notCommittish cause

end RevisionFault

/-- How far a revision has been followed: to the text of its base, to a
    reference, or to an object. -/
inductive Standing (history : History) where
  | base (text : String)
  | ref (name : String)
  | object (object : Object history)

namespace Repository

/-- The length of a hash. -/
def hashLength : Nat := 40

/-- The length from which on the start of a hash is looked for. -/
def minHashLength : Nat := 4

/-- The text consists of hexadecimal digits. -/
def isHex (text : String) : Bool :=
  text.toList.all fun c => c.isDigit || ('a' ≤ c && c ≤ 'f') || ('A' ≤ c && c ≤ 'F')

/-- The text has the form of a hash. -/
def isHash (text : String) : Bool := text.length = hashLength && isHex text

/-- A hash as it is written in small letters. -/
def smallHash (text : String) : String := String.ofList (text.toList.map Char.toLower)

variable (repository : Repository)

/-- The object with this hash, if the text is one. -/
def fullHash? (text : String) : Except RevisionFault (Option (Object repository.history)) :=
  if isHash text then
    match repository.object (smallHash text) with
    | .ok object => .ok (some object)
    | .error (.missing _) => .ok none
    | .error .zeroHash => .ok none
    | .error fault => .error (.read fault)
  else .ok none

/-- The object that a reference leads to. -/
def ledTo (lead : Lead) : Except RevisionFault (Object repository.history) :=
  (repository.object lead.hash).mapError .read

/-- The names that a text may be the end of, in the order in which they are
    tried. Without a text it is the place where the history stands. -/
def places (text : String) : List String :=
  if text.isEmpty then [headRef]
  else
    [text, "refs/" ++ text, tagRef text, branchRef text, "refs/remotes/" ++ text,
     "refs/remotes/" ++ text ++ "/HEAD"]

/-- The first of some references that is there and leads to something. Texts
    that are no names are passed over. -/
def firstRef : List String → Except RevisionFault (Option Lead)
  | [] => .ok none
  | name :: rest =>
    if !RefName.isValid name then firstRef rest
    else
      match repository.resolve name with
      | .ok lead => .ok (some lead)
      | .error (.dangling _) => firstRef rest
      | .error fault => .error (.ofRef fault)

/-- The reference that a text means as the end of its name. A text that cannot
    be one is against the notation. -/
def shorthand? (text : String) : Except RevisionFault (Option Lead) := do
  match ← repository.firstRef (places text) with
  | some lead => return some lead
  | none =>
    if ((places text).getLast?.map RefName.isValid).getD false then return none
    else throw .badPattern

/-- The reference that a text means as the end of its name, which has to be
    there. -/
def shorthand (text : String) : Except RevisionFault Lead := do
  match ← repository.shorthand? text with
  | some lead => return lead
  | none => throw (.noShorthand (if text.isEmpty then headRef else text))

/-- The object that the start of a hash means. -/
def abbreviated (text : String) :
    Except RevisionFault (Option (Object repository.history)) :=
  if !isHex text || hashLength < text.length then .ok none
  else if text.length < minHashLength then .error .tooShort
  else
    match repository.startingWith text with
    | [] => .ok none
    | [.unreadable fault] => .error (.read fault)
    | [object] => .ok (some object)
    | _ => .error .ambiguous

/-- The text starts with a hyphen, a number, `-g`, and a hexadecimal digit. -/
def startsMark : List Char → Bool
  | '-' :: rest =>
    let digits := rest.takeWhile Char.isDigit
    match rest.dropWhile Char.isDigit with
    | '-' :: 'g' :: c :: _ => !digits.isEmpty && isHex (String.singleton c)
    | _ => false
  | _ => false

/-- The text has the form of a description: something, and behind it a number
    and a hash. -/
def isDescription : List Char → Bool
  | [] => false
  | _ :: rest => startsMark rest || isDescription rest

/-- What stands behind the first `-g`. -/
def behindMark : List Char → List Char
  | '-' :: 'g' :: rest => rest
  | [] => []
  | _ :: rest => behindMark rest

/-- The object that a description means. -/
def described (text : String) : Except RevisionFault (Option (Object repository.history)) :=
  if isDescription text.toList then
    repository.abbreviated (String.ofList (behindMark text.toList))
  else .ok none

/-- The object that a base means. -/
def find (text : String) : Except RevisionFault (Object repository.history) := do
  if text.isEmpty then throw .badPattern
  if let some object ← repository.fullHash? text then return object
  if let some lead ← repository.shorthand? text then return (← repository.ledTo lead)
  if let some object ← repository.abbreviated text then return object
  if let some object ← repository.described text then return object
  throw (.notFound text)

/-- The object that has been come to. -/
def load : Standing repository.history → Except RevisionFault (Object repository.history)
  | .base text => repository.find text
  | .ref name => do
    repository.ledTo (← (repository.resolve name).mapError .ofRef)
  | .object object => .ok object

/-- The parent of a commit with a number, counted from zero. -/
def parent (i : repository.history.Position) (number : Nat) :
    Except RevisionFault repository.history.Position :=
  match (repository.history.links i)[number]? with
  | some (.ok found) => .ok found
  | some (.error fault) => .error (.read fault)
  | none => .error (.noParent number)

/-- The commit reached from another along as many first parents. -/
def ancestor : Nat → repository.history.Position →
    Except RevisionFault repository.history.Position
  | 0, i => .ok i
  | count + 1, i => do ancestor count (← repository.parent i 0)

/-- The latest of the commits that some lead to with a message in which a
    pattern occurs. -/
def search (text : String) (starts : List repository.history.Position) :
    Except RevisionFault (Object repository.history) := do
  let some pattern := Search.Pattern.ofText? text | throw .badPattern
  let history := repository.history
  let found ← (history.reached starts).mapError .read
  let ranked := Heap.ranked history.time found
  match ranked.find? fun i => pattern.occursIn (history.record i).visibleMessage with
  | some i => return .commit i
  | none => throw .noMatch

/-- The commits that all references lead to, those of the last one first. -/
def refCommits : Except RevisionFault (List repository.history.Position) := do
  if repository.table.isNone then throw (.ref .garbledTable)
  let found ← (repository.namesIn "refs/").filterMapM fun name => do
    let lead ← (repository.resolve name).mapError .ofRef
    return (← repository.ledTo lead).commit?
  return found.reverse

/-- What a path leads to from a tree, by its segments. -/
def entry : (segments : List String) → (tree : String) → Except RevisionFault TreeEntry
  | [], _ => .error .badPath
  | segment :: rest, tree =>
    if segment.isEmpty then .error .badPath
    else
      match (repository.entries tree).find? (·.name == segment), rest with
      | none, _ => .error (.noEntry segment)
      | some found, [] => .ok found
      | some found, _ :: _ =>
        if !found.isTree then .error (.notTree segment)
        else if rest = [""] then .ok found
        else entry rest found.hash

/-- What a path leads to from an object. -/
def inTree (object : Object repository.history) (path : String) :
    Except RevisionFault (Object repository.history) := do
  let tree ← (object.peel .tree).mapError .ofStart
  if path.isEmpty then return tree
  let segments := (path.toList.splitOn '/').map String.ofList
  let found ← repository.entry segments tree.hash
  (repository.object found.hash).mapError .read

/-- What a text behind a colon means without a base. -/
def withoutBase (text : String) : Except RevisionFault (Object repository.history) :=
  match text.toList with
  | ['/'] => .error .badPattern
  | '/' :: pattern => do
    if (Search.Pattern.ofText? (String.ofList pattern)).isNone then throw .badPattern
    repository.search (String.ofList pattern) (← repository.refCommits)
  | _ => .error .unsupported

/-- The reference that a log is asked of. -/
def logged : Standing repository.history → Except RevisionFault Lead
  | .base text => repository.shorthand text
  | .ref name => (repository.resolve name).mapError .ofRef
  | .object _ => .error .badPattern

/-- The setting of a key. -/
def setting (key : String) : Except RevisionFault String :=
  match repository.settings.lookup key with
  | some value => .ok value
  | none => .error (.noSetting key)

/-- The name of the reference that a branch follows. -/
def followed (branch : String) : Except RevisionFault String := do
  let remote ← repository.setting ("branch." ++ branch ++ ".remote")
  let name ← repository.setting ("branch." ++ branch ++ ".merge")
  if remote == "." then return name
  match behind? (branchRef "") name with
  | some rest => return "refs/remotes/" ++ remote ++ "/" ++ rest
  | none => throw .noMatch

/-- What a move of the history says in its log before the name of the place
    that was left. -/
def moveMark : String := "checkout: moving from "

/-- What stands between a mark and the last `to` in a text. -/
def leftPlace? (message : String) : Option String := do
  let rest ← (message.splitOn moveMark)[1]?
  match (rest.splitOn " to ").reverse with
  | _ :: first :: others => return " to ".intercalate (first :: others).reverse
  | _ => none

/-- What the history stood at so many moves ago. -/
def leftBehind (count : Nat) : Except RevisionFault (Standing repository.history) := do
  let moves := ((repository.logs.lookup headRef).getD []).filterMap fun entry =>
    leftPlace? entry.message
  match moves[count - 1]? with
  | none => throw .noMatch
  | some place =>
    match ← repository.shorthand? place with
    | some lead => return .ref lead.name
    | none =>
      match ← repository.abbreviated place with
      | some object => return .object object
      | none => throw (.noShorthand place)

/-- The largest number that counts the changes of a log. A larger one is a
    time. -/
def maxEntry : Int := 100000000

/-- A number below zero is reported as if it was counted down from this one. -/
def numberSpan : Int := 0x10000000000000000

/-- What a log says of a time: the last change that was not later, or else the
    first change that there was. -/
def entryAt? (entries : List LogEntry) (time : Int) : Option LogEntry :=
  (entries.find? (·.time ≤ time)).or entries.getLast?

/-- What a number means in the log of a reference. Zero is what the reference
    leads to, and needs no log. -/
def takeEntry (standing : Standing repository.history) (number : Int) :
    Except RevisionFault (Standing repository.history) := do
  let lead ← repository.logged standing
  if number = 0 then return .object (← repository.ledTo lead)
  let entries := (repository.logs.lookup lead.name).getD []
  let found :=
    if 0 ≤ number && number ≤ maxEntry then entries[number.toNat]? else entryAt? entries number
  match found with
  | some entry => return .object (← (repository.object entry.hash).mapError .read)
  | none => throw (.shortLog lead.name entries.length (number % numberSpan).toNat)

/-- What is found at a place of the log of a reference. A date counts as the
    number of its time, even if that is a small one. -/
def takeLog (standing : Standing repository.history) :
    LogPlace → Except RevisionFault (Standing repository.history)
  | .entry number => repository.takeEntry standing number
  | .date text =>
    match repository.dates text with
    | some time => repository.takeEntry standing time
    | none => .error .badPattern
  | .left count =>
    match standing with
    | .base "" => repository.leftBehind count
    | _ => .error .badPattern
  | .followed => do
    let lead ← repository.logged standing
    match behind? (branchRef "") lead.name with
    | none => throw .badPattern
    | some branch =>
      let name ← repository.followed branch
      discard <| (lookedFor name).mapError .ofRef
      discard <| (repository.ref name).mapError .ofRef
      return .ref name

/-- What is reached from a standing by a step. -/
def take (standing : Standing repository.history) :
    Revision.Step → Except RevisionFault (Standing repository.history)
  | .malformed true => .error .badPattern
  | .malformed false => do
    discard (repository.load standing)
    throw .badPattern
  | .parent number => do
    let i ← (← repository.load standing).peelToCommit.mapError .ofStart
    match number with
    | 0 => return .object (.commit i)
    | n + 1 => return .object (.commit (← repository.parent i n))
  | .ancestor count => do
    let i ← (← repository.load standing).peelToCommit.mapError .ofStart
    return .object (.commit (← repository.ancestor count i))
  | .peel wanted => do
    return .object (← ((← repository.load standing).peel wanted).mapError .ofPeel)
  | .untag => do
    match (← repository.load standing).untagged with
    | .unreadable fault => throw (.read fault)
    | object => return .object object
  | .search text => do
    let object ← repository.load standing
    if text.isEmpty || (Search.Pattern.ofText? text).isNone then throw .badPattern
    let i ← object.peelToCommit.mapError .ofCommittish
    return .object (← repository.search text [i])
  | .path path =>
    match standing with
    | .base "" => do return .object (← repository.withoutBase path)
    | _ => do return .object (← repository.inTree (← repository.load standing) path)
  | .log place => repository.takeLog standing place

/-- The object that a text means. -/
def revision (text : String) : Except RevisionFault (Object repository.history) := do
  if text.toList.contains '\x00' then throw .zeroCharacter
  let found := Revision.ofText text
  let start : Standing repository.history := .base found.base
  repository.load (← found.steps.foldlM repository.take start)

end Repository

end ReleaseNotes
