/-!
# Options

The words of a command line, and what they ask for.

An option has a long name behind two hyphens, and most have a letter behind
one. Some take a value: in the same word behind an equals sign, directly
behind the letter, or in the next word. Letters of options without values can
be put together, and a letter with a value may end such a group. A next word
that starts with a hyphen is no value, unless the hyphen is all of it. Each
option is given at most once, names are not shortened, and nothing else may
stand on the line.

The words are read from left to right. A request for the version or for help
is answered at once, whatever comes behind it, but a mistake before it is
found first.

## Main definitions

* `Key`: The options there are.
* `Options`: What a command line asks a run to do.
* `Reply`: What is answered without a run.
* `Request`: What a command line asks for.
* `Request.ofWords`: The request that words make.
-/

namespace ReleaseNotes

namespace CommandLine

/-- The options there are. -/
inductive Key where
  | config
  | rev
  | since
  | output
  | contributors
  | force
  | list
  | help
  | version
deriving DecidableEq, Repr

namespace Key

/-- The option of a long name. -/
def ofName? (name : String) : Option Key :=
  [("config", config), ("rev", rev), ("since", since), ("output", output),
   ("contributors", contributors), ("force", force), ("list", list), ("help", help),
   ("version", version)].lookup name

/-- The option of a letter. -/
def ofLetter? (letter : Char) : Option Key :=
  [('c', config), ('r', rev), ('s', since), ('o', output), ('f', force), ('h', help),
   ('V', version)].lookup letter

/-- The option takes a value. -/
def takesValue : Key → Bool
  | config | rev | since | output => true
  | contributors | force | list | help | version => false

end Key

/-- What a command line asks a run to do. -/
structure Options where
  config : Option String := none
  rev : String := "HEAD"
  since : Option String := none
  output : Option String := none
  contributors : Bool := false
  force : Bool := false
  list : Bool := false
deriving DecidableEq, Repr

/-- What is answered at once, without a run. -/
inductive Reply where
  | help
  | version
  /-- The line asks for nothing that can be done. -/
  | refusal
deriving DecidableEq, Repr

/-- What a command line asks for. -/
inductive Request where
  | run (options : Options)
  | reply (reply : Reply)
deriving DecidableEq, Repr

/-- The options that have been read, with their values. -/
abbrev Given := List (Key × String)

/-- One more option, unless it was there. Requests that are answered at once
    end the reading. -/
def add (given : Given) (key : Key) (value : String) : Except Reply Given :=
  if key = .help then .error .help
  else if key = .version then .error .version
  else if given.any (·.1 = key) then .error .refusal
  else .ok (given ++ [(key, value)])

/-- The options of a word of letters, and the one of them that waits for the
    next word as its value. -/
def addLetters (given : Given) : List Char → Except Reply (Given × Option Key)
  | [] => .ok (given, none)
  | letter :: rest =>
    match Key.ofLetter? letter with
    | none => .error .refusal
    | some key =>
      if key.takesValue then
        match rest with
        | [] => .ok (given, some key)
        | '=' :: value => do return (← add given key (String.ofList value), none)
        | value => do return (← add given key (String.ofList value), none)
      else do
        addLetters (← add given key "") rest

/-- The option of a long name, perhaps with a value behind an equals sign, and
    whether it waits for the next word. -/
def addName (given : Given) (text : List Char) : Except Reply (Given × Option Key) :=
  match Key.ofName? (String.ofList (text.takeWhile (· != '='))), text.dropWhile (· != '=') with
  | none, _ => .error .refusal
  | some key, _ :: value =>
    if key.takesValue then do
      return (← add given key (String.ofList value), none)
    else .error .refusal
  | some key, [] =>
    if key.takesValue then .ok (given, some key)
    else do return (← add given key "", none)

/-- The options of a word, and the one of them that waits for the next word as
    its value. -/
def addWord (given : Given) : List Char → Except Reply (Given × Option Key)
  | '-' :: '-' :: text => addName given text
  | '-' :: letter :: letters => addLetters given (letter :: letters)
  | _ => .error .refusal

/-- The word can be the value of an option. -/
def isValue (word : String) : Bool :=
  word.toList.head? != some '-' || word == "-"

/-- The word that ends the options. Nothing may stand behind it. -/
def endWord : String := "--"

/-- The options of the words of a command line. An option may be waiting for
    the first of them as its value. -/
def addWords : Option Key → Given → List String → Except Reply Given
  | none, given, [] => .ok given
  | some _, _, [] => .error .refusal
  | some key, given, word :: rest =>
    if isValue word then do addWords none (← add given key word) rest else .error .refusal
  | none, given, word :: rest =>
    if word = endWord then if rest.isEmpty then .ok given else .error .refusal
    else do
      let (given, waiting) ← addWord given word.toList
      addWords waiting given rest

/-- What options ask a run to do. -/
def Options.ofGiven (given : Given) : Options where
  config := given.lookup .config
  rev := (given.lookup .rev).getD "HEAD"
  since := given.lookup .since
  output := given.lookup .output
  contributors := (given.lookup .contributors).isSome
  force := (given.lookup .force).isSome
  list := (given.lookup .list).isSome

/-- The request that the words of a command line make. -/
def Request.ofWords (words : List String) : Request :=
  match addWords none [] words with
  | .ok given => .run (Options.ofGiven given)
  | .error answer => .reply answer

end CommandLine

end ReleaseNotes
