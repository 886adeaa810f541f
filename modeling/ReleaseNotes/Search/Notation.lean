import ReleaseNotes.Search.Pattern

/-!
# The Notation of Patterns

How a pattern is written down.

Most characters stand for themselves. A point stands for any character but the
end of a line, brackets hold a choice of characters, a bar separates patterns
of which one is to be found, parentheses hold a pattern together, and a mark
behind something says how often it is repeated. A backslash takes the meaning
from a mark and gives one to a letter. Behind an opening parenthesis, a
question mark and what follows it say what is special about a group, or how
the text is to be read from there to the end of the group.

Characters are bytes here: a character that takes several of them stands for
all of these, one behind the other.

A `Reader` takes a notation from its front and keeps what it has met on the
way: how it is to read, and the groups so far with their names. Groups lie in
each other, so `pattern` is a recursion over their depth, and everything else
is a loop over the rest of the text.

Patterns that refer to themselves, that depend on conditions, or that ask for
properties of characters are not known here.

## Main definitions

* `Reading`, `Reader`: What is left to be read, and functions that read it.
* `CharacterSet`: A choice of characters.
* `Pattern.ofText?`: The pattern that a text writes down, if it does.
-/

namespace ReleaseNotes

namespace Search

/-- How a text is to be read from here on. -/
structure Manner where
  ignoresCase : Bool := false
  /-- Lines start and stop within the text. -/
  byLines : Bool := false
  /-- A point stands for the end of a line, too. -/
  pointIsAll : Bool := false
  /-- Blanks and remarks do not count. -/
  spaced : Bool := false
  /-- Repetitions are as rare as possible unless they are marked. -/
  sparing : Bool := false
  /-- Groups may share a name. -/
  sharesNames : Bool := false
deriving DecidableEq, Repr

/-- What is left to be read, and what has been met. -/
structure Reading where
  rest : List Char
  manner : Manner := {}
  /-- Characters stand for themselves up to a mark. -/
  quoted : Bool := false
  groups : Nat := 0
  names : List (List Char × Nat) := []
  /-- The largest number of a group that has been asked for. -/
  asked : Nat := 0

/-- A function that reads. -/
abbrev Reader := StateT Reading Option

namespace Reader

/-- What is left to be read. -/
def rest : Reader (List Char) := return (← get).rest

/-- The rest of the text becomes this. -/
def goTo (rest : List Char) : Reader Unit := modify ({ · with rest })

/-- The next character. -/
def next : Reader Char := do
  match ← rest with
  | c :: more =>
    goTo more
    return c
  | [] => failure

/-- The text is taken if it comes next. -/
def takes (text : String) : Reader Bool := do
  let rest ← rest
  let isNext := text.toList.isPrefixOf rest
  if isNext then goTo (rest.drop text.length)
  return isNext

/-- The characters up to one, which is taken as well. -/
def through (stop : Char) : Reader (List Char) := do
  let rest ← rest
  match rest.dropWhile (· != stop) with
  | _ :: more =>
    goTo more
    return rest.takeWhile (· != stop)
  | [] => failure

/-- The characters that come next and fit, at most so many. -/
def span (most : Nat) (fits : Char → Bool) : Reader (List Char) := do
  let rest ← rest
  let found := (rest.take most).takeWhile fits
  goTo (rest.drop found.length)
  return found

/-- Something done on a text of this length at most once for each character of
    it, until it does nothing. -/
def loop (step : Reader Bool) : Nat → Reader Unit
  | 0 => return
  | bound + 1 => do if ← step then loop step bound

end Reader

open Reader

/-- The number that digits spell. -/
def numberOf (base : Nat) (digits : List Char) : Nat :=
  digits.foldl
    (fun n c =>
      base * n + (if c.isDigit then c.toNat - '0'.toNat else c.toLower.toNat - 'a'.toNat + 10))
    0

/-- A character is a digit of this base, which is at most sixteen. -/
def isDigitOf (base : Nat) (c : Char) : Bool :=
  (c.isDigit || ('a' ≤ c.toLower && c.toLower ≤ 'f')) && numberOf base [c] < base

/-- A choice of characters. -/
abbrev CharacterSet := Char → Bool

namespace CharacterSet

/-- A blank between words. -/
def isBlank (c : Char) : Bool := (9 ≤ c.toNat && c.toNat ≤ 13) || c == ' '

/-- A blank in a line. -/
def isLevel (c : Char) : Bool := c == '\t' || c == ' ' || c.toNat == 0xA0

/-- The end of a line, in one of its many forms. -/
def isBreak (c : Char) : Bool := (10 ≤ c.toNat && c.toNat ≤ 13) || c.toNat == 0x85

/-- A character that words are made of. -/
def isWord (c : Char) : Bool := c.isAlphanum || c == '_'

/-- A character that leaves a mark. -/
def isMark (c : Char) : Bool := 0x21 ≤ c.toNat && c.toNat ≤ 0x7E

/-- The set that a letter behind a backslash means. -/
def ofLetter? : Char → Option CharacterSet
  | 'd' => some Char.isDigit
  | 'D' => some fun c => !c.isDigit
  | 's' => some isBlank
  | 'S' => some fun c => !isBlank c
  | 'w' => some isWord
  | 'W' => some fun c => !isWord c
  | 'h' => some isLevel
  | 'H' => some fun c => !isLevel c
  | 'v' => some isBreak
  | 'V' => some fun c => !isBreak c
  | _ => none

/-- The sets that have names. -/
def byName : List (String × CharacterSet) :=
  [("alpha", fun c => c.isAlpha), ("lower", fun c => c.isLower), ("upper", fun c => c.isUpper),
   ("alnum", fun c => c.isAlphanum), ("ascii", fun c => c.toNat < 0x80),
   ("blank", fun c => c == ' ' || c == '\t'), ("cntrl", fun c => c.toNat < 0x20 || c.toNat == 0x7F),
   ("digit", fun c => c.isDigit), ("graph", isMark),
   ("print", fun c => isMark c || c == ' '),
   ("punct", fun c => isMark c && !c.isAlphanum), ("space", isBlank), ("word", isWord),
   ("xdigit", isDigitOf 16)]

/-- A set with the other case of its letters. -/
def ignoringCase (set : CharacterSet) : CharacterSet := fun c =>
  set c || set c.toLower || set c.toUpper

/-- A set as a pattern of one byte. -/
def pattern (set : CharacterSet) : Pattern :=
  .byte fun byte => set (Char.ofNat byte.toNat)

end CharacterSet

/-- What is written behind a backslash. -/
inductive Escape where
  | character (c : Char)
  | set (set : CharacterSet)
  /-- A pattern, which may be repeated or not. -/
  | pattern (pattern : Pattern) (repeats : Bool)

namespace Escape

/-- The largest character that takes one byte. -/
def maxCharacter : Nat := 255

/-- The character of a number, which must not be too large. -/
def ofNumber (n : Nat) : Reader Escape := do
  guard (n ≤ maxCharacter)
  return .character (Char.ofNat n)

/-- The character of a number in braces. -/
def braced (base : Nat) : Reader Escape := do
  let digits ← through '\x7d'
  guard (!digits.isEmpty && digits.all (isDigitOf base))
  ofNumber (numberOf base digits)

/-- The bytes of a group once more, given by its number. -/
def recallNumber (number : Nat) : Reader Escape := do
  guard (0 < number)
  modify fun reading => { reading with asked := max reading.asked number }
  return .pattern (.recall [number] (← get).manner.ignoresCase) true

/-- The bytes of a group once more, given by its name. -/
def recallName (name : List Char) : Reader Escape := do
  let reading ← get
  match (reading.names.filter (·.1 == name)).map (·.2) with
  | [] => failure
  | numbers => return .pattern (.recall numbers.reverse reading.manner.ignoresCase) true

/-- The number of a group, counted from the front, or from here backwards. -/
def groupNumber : List Char → Reader Nat
  | '-' :: digits => do
    let back := numberOf 10 digits
    let groups := (← get).groups
    guard (!digits.isEmpty && digits.all Char.isDigit && 0 < back && back ≤ groups)
    return groups + 1 - back
  | digits => do
    guard (!digits.isEmpty && digits.all Char.isDigit)
    return numberOf 10 digits

/-- The bytes of a group once more, given by its number or its name. -/
def recallAny (word : List Char) : Reader Escape :=
  if word.head? == some '-' || (!word.isEmpty && word.all Char.isDigit) then do
    recallNumber (← groupNumber word)
  else recallName word

/-- What digits mean: the bytes of a group, or else a character. -/
def ofDigits (first : Char) : Reader Escape := do
  let rest ← rest
  let digits := first :: rest.takeWhile Char.isDigit
  let number := numberOf 10 digits
  if first != '0' && (number < 10 || number ≤ (← get).groups) then
    goTo (rest.drop (digits.length - 1))
    recallNumber number
  else if isDigitOf 8 first then
    ofNumber (numberOf 8 (first :: (← span 2 (isDigitOf 8))))
  else return .character first

/-- The end of a line, in any form. -/
def anyBreak : Pattern :=
  .committed (.either
    (.both (CharacterSet.pattern (· == '\r')) (CharacterSet.pattern (· == '\n')))
    (CharacterSet.pattern CharacterSet.isBreak))

/-- The characters that letters behind a backslash mean. -/
def controls : List (Char × Nat) :=
  [('a', 7), ('e', 27), ('f', 12), ('n', 10), ('r', 13), ('t', 9)]

/-- What a letter behind a backslash means, in brackets as well as
    elsewhere. -/
def ofLetter (c : Char) : Reader Escape :=
  match CharacterSet.ofLetter? c, controls.lookup c, c with
  | some found, _, _ => return .set found
  | none, some n, _ => ofNumber n
  | none, none, 'x' => do
    if (← takes "\x7b") then braced 16
    else ofNumber (numberOf 16 (← span 2 (isDigitOf 16)))
  | none, none, 'o' => do
    guard (← takes "\x7b")
    braced 8
  | none, none, 'c' => do
    let c ← next
    guard (c.toNat < 0x80)
    return .character (Char.ofNat (c.toUpper.toNat ^^^ 0x40))
  | none, none, _ =>
    if ['p', 'P', 'X', 'L', 'l', 'U', 'u'].contains c then failure else return .character c

/-- What is written behind a backslash in brackets. -/
def inBrackets : Reader Escape := do
  match ← next with
  | 'b' => return .character '\x08'
  | 'N' => failure
  | c =>
    if isDigitOf 8 c then ofNumber (numberOf 8 (c :: (← span 2 (isDigitOf 8)))) else ofLetter c

/-- What is written behind a backslash. -/
def outside : Reader Escape := do
  match ← next with
  | 'A' | 'G' => return .pattern (.edge .start) false
  | 'Z' => return .pattern (.edge .lastStop) false
  | 'z' => return .pattern (.edge .stop) false
  | 'b' => return .pattern (.edge (.word true)) false
  | 'B' => return .pattern (.edge (.word false)) false
  | 'K' => return .pattern .empty false
  | 'N' => return .set (· != '\n')
  | 'C' => return .set fun _ => true
  | 'R' => return .pattern anyBreak true
  | 'g' => do
    if (← takes "\x7b") then recallAny (← through '\x7d')
    else
      let sign ← span 1 (· == '-')
      recallNumber (← groupNumber (sign ++ (← span (← rest).length Char.isDigit)))
  | 'k' => do
    if (← takes "\x7b") then recallName (← through '\x7d')
    else if (← takes "<") then recallName (← through '>')
    else do
      guard (← takes "'")
      recallName (← through '\'')
  | c => if c.isDigit then ofDigits c else ofLetter c

end Escape

namespace Brackets

/-- What stands between bracket and mark within brackets, if it is closed in
    the same way: a set by its name. -/
def named? (mark : Char) : List Char → Option (List Char × List Char)
  | [] => none
  | [_] => none
  | a :: b :: rest =>
    if a == mark && b == ']' then some ([], rest)
    else if a == ']' || (a == '[' && b == mark) then none
    else if a == '\\' && (b == ']' || b == '\\') then
      (named? mark rest).map fun (name, rest) => (a :: b :: name, rest)
    else (named? mark (b :: rest)).map fun (name, rest) => (a :: name, rest)

/-- A set that is written by its name. -/
def ofName (name : List Char) : Reader CharacterSet :=
  let (negated, name) := match name with
    | '^' :: name => (true, name)
    | name => (false, name)
  match CharacterSet.byName.lookup (String.ofList name) with
  | some set => return fun c => set c != negated
  | none => failure

/-- One item between brackets. -/
inductive Item where
  | character (c : Char)
  | set (set : CharacterSet)
  | nothing

/-- The next item between brackets. -/
def item : Reader Item := do
  if (← get).quoted then
    if (← takes "\\E") then
      modify ({ · with quoted := false })
      return .nothing
    return .character (← next)
  match ← rest with
  | '[' :: mark :: more =>
    if [':', '.', '='].contains mark then
      match named? mark more with
      | some (name, rest) =>
        guard (mark == ':')
        goTo rest
        return .set (← ofName name)
      | none => return .character (← next)
    else return .character (← next)
  | '\\' :: 'E' :: rest => do
    goTo rest
    return .nothing
  | '\\' :: 'Q' :: rest => do
    modify ({ · with rest, quoted := true })
    return .nothing
  | '\\' :: rest => do
    goTo rest
    match ← Escape.inBrackets with
    | .character c => return .character c
    | .set set => return .set set
    | .pattern _ _ => failure
  | _ => return .character (← next)

/-- Behind a set there is no hyphen, unless it is the last character. -/
def noRange : Reader Unit := do
  match ← rest with
  | '-' :: c :: _ => guard ((← get).quoted || c == ']')
  | _ => return

/-- The set of an item, which may be the start of a range. -/
def setOf : Item → Reader CharacterSet
  | .nothing => return fun _ => false
  | .set set => do
    noRange
    return set
  | .character low => do
    match ← rest with
    | '-' :: ']' :: _ => return (· == low)
    | '-' :: rest => do
      if (← get).quoted then return (· == low)
      goTo rest
      match ← item with
      | .nothing => return fun c => c == low || c == '-'
      | .set _ => failure
      | .character high => do
        guard (low ≤ high)
        return fun c => low ≤ c && c ≤ high
    | _ => return (· == low)

/-- The set of items up to the closing bracket, at most so many of them. -/
def items : Nat → Reader CharacterSet
  | 0 => failure
  | bound + 1 => do
    if !(← get).quoted && (← takes "]") then return fun _ => false
    let first ← setOf (← item)
    let others ← items bound
    return fun c => first c || others c

/-- The set that is written behind an opening bracket. -/
def set : Reader CharacterSet := do
  discard (takes "\\E")
  let negated ← takes "^"
  discard (takes "\\E")
  let first ← if (← takes "]") then setOf (.character ']') else pure fun _ => false
  let others ← items ((← rest).length + 1)
  let wanted : CharacterSet := fun c => first c || others c
  let wanted := if (← get).manner.ignoresCase then wanted.ignoringCase else wanted
  return fun c => wanted c != negated

end Brackets

/-- A character that stands for itself. -/
def literal (c : Char) : Reader Pattern := do
  let set : CharacterSet := (· == c)
  return (if (← get).manner.ignoresCase then set.ignoringCase else set).pattern

/-- Something that does not count is passed over, if it comes next. -/
def passesOver : Reader Bool := do
  let reading ← get
  match reading.quoted, reading.rest with
  | _, '\\' :: 'E' :: rest => do
    modify ({ · with rest, quoted := false })
    return true
  | true, _ => return false
  | false, '\\' :: 'Q' :: rest => do
    modify ({ · with rest, quoted := true })
    return true
  | false, '(' :: '?' :: '#' :: rest => do
    goTo rest
    discard (through ')')
    return true
  | false, c :: rest =>
    if !reading.manner.spaced then return false
    else if CharacterSet.isBlank c then do
      goTo rest
      return true
    else if c == '#' then do
      goTo (rest.dropWhile (· != '\n'))
      return true
    else return false
  | false, [] => return false

/-- Everything that does not count is passed over. -/
def passOver : Reader Unit := do loop passesOver (← rest).length

/-- The largest number of repetitions that can be asked for. -/
def maxTimes : Nat := 65535

/-- How often something is repeated, in braces, and the rest of the text. Other
    braces are no such thing. -/
def times? (text : List Char) : Option ((Nat × Option Nat) × List Char) :=
  let least := text.takeWhile Char.isDigit
  if least.isEmpty then none
  else
    match text.dropWhile Char.isDigit with
    | '\x7d' :: rest => some ((numberOf 10 least, some (numberOf 10 least)), rest)
    | ',' :: rest =>
      let most := rest.takeWhile Char.isDigit
      match rest.dropWhile Char.isDigit with
      | '\x7d' :: rest =>
        some ((numberOf 10 least, if most.isEmpty then none else some (numberOf 10 most)), rest)
      | _ => none
    | _ => none

/-- How often something is to be repeated, if a mark for that comes next. -/
def quantity? : Reader (Option (Nat × Option Nat)) := do
  if (← get).quoted then return none
  match ← rest with
  | '*' :: rest => do
    goTo rest
    return some (0, none)
  | '+' :: rest => do
    goTo rest
    return some (1, none)
  | '?' :: rest => do
    goTo rest
    return some (0, some 1)
  | '\x7b' :: rest =>
    match times? rest with
    | some ((least, most), rest) => do
      guard (least ≤ maxTimes && (most.getD least) ≤ maxTimes && least ≤ most.getD least)
      goTo rest
      return some (least, most)
    | none => return none
  | _ => return none

/-- A pattern repeated as the next marks say. -/
def repeatedBy (pattern : Pattern) (least : Nat) (most : Option Nat) : Reader Pattern := do
  let sparing := (← get).manner.sparing
  if (← takes "+") then return .committed (.repeated pattern least most true)
  else if (← takes "?") then return .repeated pattern least most sparing
  else return .repeated pattern least most (!sparing)

/-- Items one behind the other, up to a bar or the end of a group, at most so
    many. -/
def items (item : Reader (Pattern × Bool)) : Nat → Reader Pattern
  | 0 => failure
  | bound + 1 => do
    passOver
    let reading ← get
    match reading.quoted, reading.rest with
    | _, [] | false, '|' :: _ | false, ')' :: _ => return .empty
    | _, _ =>
      let (first, repeats) ← item
      passOver
      match ← quantity? with
      | none => return .both first (← items item bound)
      | some (least, most) =>
        guard repeats
        let first ← repeatedBy first least most
        return .both first (← items item bound)

/-- Patterns with bars between them, at most so many. Their groups are counted
    together, or each on its own. -/
def branches (item : Reader (Pattern × Bool)) (alone : Bool) : Nat → Reader (List Pattern)
  | 0 => failure
  | bound + 1 => do
    let start := (← get).groups
    let first ← items item ((← rest).length + 1)
    if !(← takes "|") then return [first]
    let stop := (← get).groups
    if alone then modify ({ · with groups := start })
    let others ← branches item alone bound
    modify fun reading => { reading with groups := max stop reading.groups }
    return first :: others

/-- The inside of a group up to its end. What it says about the manner of
    reading does not matter behind it. -/
def inside (item : Reader (Pattern × Bool)) (alone : Bool) : Reader (List Pattern) := do
  let manner := (← get).manner
  let found ← branches item alone ((← rest).length + 1)
  guard (← takes ")")
  modify ({ · with manner })
  return found

/-- A group that remembers its bytes. -/
def remembered (item : Reader (Pattern × Bool)) : Reader Pattern := do
  modify fun reading => { reading with groups := reading.groups + 1 }
  let number := (← get).groups
  return .group number (.oneOf (← inside item false))

/-- The number of characters that a name may have. -/
def maxName : Nat := 32

/-- A group that remembers its bytes under a name. -/
def called (item : Reader (Pattern × Bool)) (stop : Char) : Reader Pattern := do
  let name ← through stop
  let reading ← get
  guard (name.all CharacterSet.isWord && name.length ≤ maxName &&
    (name.head?.map fun c => !c.isDigit).getD false)
  guard (reading.manner.sharesNames || !reading.names.any (·.1 == name))
  modify ({ · with names := (name, reading.groups + 1) :: reading.names })
  remembered item

/-- A pattern that must have stopped here, or must not. Each way to it has a
    known number of bytes. -/
def behind (item : Reader (Pattern × Bool)) (wanted : Bool) : Reader Pattern := do
  let ways ← (← inside item false).mapM fun branch =>
    match branch.size? with
    | some size => return .both (.back size) branch
    | none => failure
  return .look wanted (.oneOf ways)

/-- A manner of reading with one letter turned on or off. -/
def Manner.set? (manner : Manner) (value : Bool) : Char → Option Manner
  | 'i' => some { manner with ignoresCase := value }
  | 'm' => some { manner with byLines := value }
  | 's' => some { manner with pointIsAll := value }
  | 'x' => some { manner with spaced := value }
  | 'U' => some { manner with sparing := value }
  | 'J' => some { manner with sharesNames := value }
  | 'X' => some manner
  | _ => none

/-- Letters that change the manner of reading, from here on or for a group. -/
def letters (item : Reader (Pattern × Bool)) (before : Manner) (value : Bool) :
    List Char → Reader (Pattern × Bool)
  | '-' :: rest => letters item before false rest
  | ')' :: rest => do
    goTo rest
    return (.empty, false)
  | ':' :: rest => do
    goTo rest
    let found ← inside item false
    modify ({ · with manner := before })
    return (.oneOf found, true)
  | c :: rest => do
    match (← get).manner.set? value c with
    | some manner => do
      modify ({ · with manner })
      letters item before value rest
    | none => failure
  | [] => failure

/-- What stands behind a question mark behind an opening parenthesis. -/
def special (item : Reader (Pattern × Bool)) : Reader (Pattern × Bool) := do
  if (← takes ":") then return (.oneOf (← inside item false), true)
  if (← takes "|") then return (.oneOf (← inside item true), true)
  if (← takes ">") then return (.committed (.oneOf (← inside item false)), true)
  if (← takes "=") then return (.look true (.oneOf (← inside item false)), true)
  if (← takes "!") then return (.look false (.oneOf (← inside item false)), true)
  if (← takes "<=") then return (← behind item true, true)
  if (← takes "<!") then return (← behind item false, true)
  if (← takes "P=") then
    match ← Escape.recallName (← through ')') with
    | .pattern pattern repeats => return (pattern, repeats)
    | _ => failure
  if (← takes "P<") || (← takes "<") then return (← called item '>', true)
  if (← takes "'") then return (← called item '\'', true)
  if (← takes "C") then
    discard (through ')')
    return (.empty, false)
  letters item (← get).manner true (← rest)

/-- A group, behind its opening parenthesis. -/
def grouped (item : Reader (Pattern × Bool)) : Reader (Pattern × Bool) := do
  if (← takes "?") then special item
  else if (← takes "*FAIL)") || (← takes "*F)") then
    return (CharacterSet.pattern fun _ => false, false)
  else if (← rest).head? == some '*' then failure
  else return (← remembered item, true)

/-- The next item and whether it can be repeated, with groups at most so
    deep. -/
def item : Nat → Reader (Pattern × Bool)
  | 0 => failure
  | depth + 1 => do
    let manner := (← get).manner
    let c ← next
    if (← get).quoted then return (← literal c, true)
    match c with
    | '^' => return (.edge (if manner.byLines then .lineStart else .start), false)
    | '$' => return (.edge (if manner.byLines then .lineStop else .lastStop), false)
    | '.' => return (CharacterSet.pattern fun c => manner.pointIsAll || c != '\n', true)
    | '[' => do
      let rest ← rest
      if (rest.head?.map fun mark =>
          [':', '.', '='].contains mark && (Brackets.named? mark (rest.drop 1)).isSome).getD
            false then failure
      return ((← Brackets.set).pattern, true)
    | '(' => grouped (item depth)
    | '\\' => do
      match ← Escape.outside with
      | .character c => return (← literal c, true)
      | .set set => return (set.pattern, true)
      | .pattern pattern repeats => return (pattern, repeats)
    | '*' | '+' | '?' => failure
    | '\x7b' =>
      if (times? (← rest)).isSome then failure else return (← literal c, true)
    | c => return (← literal c, true)

/-- The pattern that is written from here to the end. -/
def wholePattern : Reader Pattern := do
  let length := (← rest).length
  let found ← branches (item (length + 1)) false (length + 1)
  let reading ← get
  guard (reading.rest.isEmpty && reading.asked ≤ reading.groups)
  return .oneOf found

/-- The pattern that a text writes down, if it does. -/
def Pattern.ofText? (text : String) : Option Pattern :=
  let characters := text.toUTF8.toList.map fun byte => Char.ofNat byte.toNat
  (wholePattern.run { rest := characters }).map (·.1)

end Search

end ReleaseNotes
