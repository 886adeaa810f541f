import Mathlib.Data.List.TakeWhile
import ReleaseNotes.CommandLine.Answer
import ReleaseNotes.CommandLine.Options
import ReleaseNotes.Proofs.Attempts

/-!
# What a User Asks For

The words of a command line and the answer to a question, told by their forms.

A word of a command line gives options, and may leave one that waits for the next word
as its value. Both depend on the word alone, so the forms of words can be listed
(`Word`), and a line is a list of words of which each starts where the one before has
left off (`Line`). The reader takes the options in as it comes to them and gives up at
the first one that is not allowed. That comes to the same as reading all of them first:
a line asks for a run if it has the form of one, no option occurs in it twice, and none
of them is answered at once (`ofWords_eq_run_iff`).

What the options mean is told option by option (`Means`). An option that takes a value
has the one that was given with it, and otherwise its default; any other one is on if it
was given.

An answer means yes if it is one of two words, with blanks around it and with letters
that may be capitals. This is said by the parts of the answer, without taking anything
off.

## Main definitions

* `Key.name`, `Key.letter?`: How options are called.
* `Letters`, `Word`, `Line`: The options that letters, words and lines give.
* `Given.Allowed`: Options that can be given together.
* `Given.Means`: What options mean.
* `Asks`: What a command line asks a run to do.
* `MeansYes`: The answers that mean yes.

## Theorems

* `line_some_iff`, `line_end_iff`, `line_none_iff`: How a line starts.
* `addLetters_eq_ok_iff`, `addWord_eq_ok_iff`, `addWords_eq_ok_iff`: What is read has
  the form.
* `addAll_nil_eq_ok_iff`: What can be taken in is allowed.
* `ofWords_eq_run_iff`: What a command line asks for.
* `confirms_iff`: Which answers mean yes.
-/

namespace ReleaseNotes

namespace CommandLine

namespace Key

/-- The long name of an option. -/
def name : Key → String
  | config => "config"
  | rev => "rev"
  | since => "since"
  | output => "output"
  | contributors => "contributors"
  | force => "force"
  | list => "list"
  | help => "help"
  | version => "version"

/-- The letter of an option, if it has one. -/
def letter? : Key → Option Char
  | config => some 'c'
  | rev => some 'r'
  | since => some 's'
  | output => some 'o'
  | force => some 'f'
  | help => some 'h'
  | version => some 'V'
  | contributors | list => none

/-- What is looked up in a list is there. -/
theorem mem_of_lookup_eq_some {α β : Type} [BEq α] [LawfulBEq α] {entries : List (α × β)} {a : α}
    {b : β} (h : entries.lookup a = some b) : (a, b) ∈ entries := by
  obtain ⟨front, back, rfl, -⟩ := List.lookup_eq_some_iff.1 h
  exact List.mem_append_right _ List.mem_cons_self

theorem ofName?_eq_some_iff {text : String} {key : Key} :
    ofName? text = some key ↔ key.name = text := by
  constructor
  · intro h
    have hmem := mem_of_lookup_eq_some h
    simp only [List.mem_cons, Prod.mk.injEq, List.not_mem_nil, or_false] at hmem
    rcases hmem with ⟨rfl, rfl⟩ | ⟨rfl, rfl⟩ | ⟨rfl, rfl⟩ | ⟨rfl, rfl⟩ | ⟨rfl, rfl⟩ | ⟨rfl, rfl⟩ |
      ⟨rfl, rfl⟩ | ⟨rfl, rfl⟩ | ⟨rfl, rfl⟩ <;> rfl
  · rintro rfl
    cases key <;> rfl

theorem ofLetter?_eq_some_iff {letter : Char} {key : Key} :
    ofLetter? letter = some key ↔ key.letter? = some letter := by
  constructor
  · intro h
    have hmem := mem_of_lookup_eq_some h
    simp only [List.mem_cons, Prod.mk.injEq, List.not_mem_nil, or_false] at hmem
    rcases hmem with ⟨rfl, rfl⟩ | ⟨rfl, rfl⟩ | ⟨rfl, rfl⟩ | ⟨rfl, rfl⟩ | ⟨rfl, rfl⟩ | ⟨rfl, rfl⟩ |
      ⟨rfl, rfl⟩ <;> rfl
  · intro h
    cases key <;> cases h <;> rfl

/-- No long name has an equals sign in it. -/
theorem notMem_name (key : Key) : '=' ∉ key.name.toList := by
  cases key <;> decide

end Key

/-- Options taken in one after the other. -/
def addAll (given more : Given) : Except Reply Given :=
  more.foldlM (fun given entry => add given entry.1 entry.2) given

/-- Options that can be given together: none of them twice, and none that is answered
    at once. -/
structure Given.Allowed (given : Given) : Prop where
  once : (given.map (·.1)).Nodup
  lasting : ∀ entry ∈ given, entry.1 ≠ .help ∧ entry.1 ≠ .version

section Adding

variable {given result : Given} {key : Key} {value : String}

theorem add_eq_ok_iff :
    add given key value = .ok result ↔
      key ≠ .help ∧ key ≠ .version ∧ (∀ entry ∈ given, entry.1 ≠ key) ∧
        result = given ++ [(key, value)] := by
  unfold add
  split
  · exact ⟨nofun, fun h => absurd ‹_› h.1⟩
  split
  · exact ⟨nofun, fun h => absurd ‹_› h.2.1⟩
  split
  · rename_i hany
    obtain ⟨entry, hentry, hkey⟩ := List.any_eq_true.1 hany
    exact ⟨nofun, fun h => absurd (of_decide_eq_true hkey) (h.2.2.1 entry hentry)⟩
  · rename_i hhelp hversion hany
    constructor
    · intro h
      refine ⟨hhelp, hversion, fun entry hentry hkey => hany ?_, (Except.ok.inj h).symm⟩
      exact List.any_eq_true.2 ⟨entry, hentry, decide_eq_true hkey⟩
    · exact fun h => congrArg Except.ok h.2.2.2.symm

theorem addAll_cons_eq_ok_iff {more : Given} :
    addAll given ((key, value) :: more) = .ok result ↔
      ∃ between, add given key value = .ok between ∧ addAll between more = .ok result := by
  rw [addAll, List.foldlM_cons, bind_eq_ok_iff]
  rfl

theorem addAll_append_eq_ok_iff {first second : Given} :
    addAll given (first ++ second) = .ok result ↔
      ∃ between, addAll given first = .ok between ∧ addAll between second = .ok result := by
  rw [addAll, List.foldlM_append, bind_eq_ok_iff]
  rfl

theorem addAll_singleton (given : Given) (key : Key) (value : String) :
    addAll given [(key, value)] = add given key value := by
  rw [addAll, List.foldlM_cons]
  cases add given key value <;> rfl

/-- What can be taken in besides what is there. -/
theorem addAll_eq_ok_iff {more : Given} :
    addAll given more = .ok result ↔
      more.Allowed ∧ (∀ entry ∈ given, ∀ other ∈ more, entry.1 ≠ other.1) ∧
        result = given ++ more := by
  induction more generalizing given with
  | nil =>
      rw [List.append_nil]
      exact ⟨fun h => ⟨⟨.nil, nofun⟩, nofun, (Except.ok.inj h).symm⟩,
        fun h => congrArg Except.ok h.2.2.symm⟩
  | cons first more ih =>
      obtain ⟨key, value⟩ := first
      rw [addAll_cons_eq_ok_iff]
      constructor
      · rintro ⟨between, hadd, hmore⟩
        obtain ⟨hhelp, hversion, hkey, rfl⟩ := add_eq_ok_iff.1 hadd
        obtain ⟨hallowed, hothers, rfl⟩ := ih.1 hmore
        -- The first one is there when the others are taken in, so they differ from it.
        have hfirst : ∀ other ∈ more, key ≠ other.1 :=
          hothers (key, value) (List.mem_append_right _ List.mem_cons_self)
        refine ⟨⟨?_, ?_⟩, fun entry hentry other hother => ?_, by simp⟩
        · refine List.nodup_cons.2 ⟨fun hmem => ?_, hallowed.once⟩
          obtain ⟨other, hother, heq⟩ := List.mem_map.1 hmem
          exact hfirst other hother heq.symm
        · exact List.forall_mem_cons.2 ⟨⟨hhelp, hversion⟩, hallowed.lasting⟩
        · rcases List.mem_cons.1 hother with rfl | hother
          · exact hkey entry hentry
          · exact hothers entry (List.mem_append_left _ hentry) other hother
      · rintro ⟨⟨honce, hlasting⟩, hothers, rfl⟩
        obtain ⟨hfirst, honce⟩ := List.nodup_cons.1 honce
        obtain ⟨⟨hhelp, hversion⟩, hlasting⟩ := List.forall_mem_cons.1 hlasting
        refine ⟨given ++ [(key, value)], add_eq_ok_iff.2 ⟨hhelp, hversion, fun entry hentry =>
          hothers entry hentry _ List.mem_cons_self, rfl⟩, ih.2 ⟨⟨honce, hlasting⟩, ?_, by simp⟩⟩
        intro entry hentry other hother
        rcases List.mem_append.1 hentry with hentry | hentry
        · exact hothers entry hentry other (.tail _ hother)
        · obtain rfl := List.mem_singleton.1 hentry
          exact fun heq => hfirst (List.mem_map.2 ⟨other, hother, heq.symm⟩)

/-- What can be taken in is allowed. -/
theorem addAll_nil_eq_ok_iff {more : Given} :
    addAll [] more = .ok result ↔ more.Allowed ∧ result = more := by
  rw [addAll_eq_ok_iff]
  simp

end Adding

/-- Letters behind one hyphen give options, and may leave one that waits for its value
    at the end. A value stands directly behind its letter, or behind an equals sign. -/
inductive Letters : List Char → Given → Option Key → Prop
  | nothing : Letters [] [] none
  | flag {key : Key} {letter : Char} {letters : List Char} {given : Given}
      {waiting : Option Key} (hletter : key.letter? = some letter)
      (hflag : key.takesValue = false) (hrest : Letters letters given waiting) :
      Letters (letter :: letters) ((key, "") :: given) waiting
  | waits {key : Key} {letter : Char} (hletter : key.letter? = some letter)
      (htakes : key.takesValue = true) : Letters [letter] [] (some key)
  | equals {key : Key} {letter : Char} (value : List Char)
      (hletter : key.letter? = some letter) (htakes : key.takesValue = true) :
      Letters (letter :: '=' :: value) [(key, String.ofList value)] none
  | joined {key : Key} {letter : Char} {value : List Char}
      (hletter : key.letter? = some letter) (htakes : key.takesValue = true)
      (hvalue : value ≠ []) (hplain : value.head? ≠ some '=') :
      Letters (letter :: value) [(key, String.ofList value)] none

/-- The text behind two hyphens gives an option, or leaves one that waits for its
    value. A value stands behind an equals sign. -/
inductive Name : List Char → Given → Option Key → Prop
  | flag {key : Key} (hflag : key.takesValue = false) : Name key.name.toList [(key, "")] none
  | waits {key : Key} (htakes : key.takesValue = true) : Name key.name.toList [] (some key)
  | equals {key : Key} (value : List Char) (htakes : key.takesValue = true) :
      Name (key.name.toList ++ '=' :: value) [(key, String.ofList value)] none

/-- A word gives options, and may leave one that waits for its value. -/
inductive Word : List Char → Given → Option Key → Prop
  | long {text : List Char} {given : Given} {waiting : Option Key}
      (hname : Name text given waiting) : Word ('-' :: '-' :: text) given waiting
  | short {letter : Char} {letters : List Char} {given : Given} {waiting : Option Key}
      (hletters : Letters (letter :: letters) given waiting) :
      Word ('-' :: letter :: letters) given waiting

/-- The words of a line give options. The first of them may be the value of an option
    that waits for it. -/
inductive Line : Option Key → List String → Given → Prop
  | nothing : Line none [] []
  | ending : Line none [endWord] []
  | value {key : Key} {word : String} {words : List String} {given : Given}
      (hvalue : isValue word = true) (hrest : Line none words given) :
      Line (some key) (word :: words) ((key, word) :: given)
  | word {word : String} {words : List String} {first given : Given} {waiting : Option Key}
      (hword : Word word.toList first waiting) (hrest : Line waiting words given) :
      Line none (word :: words) (first ++ given)

/-- A hyphen is no letter of an option. -/
theorem Letters.ne_hyphen {letter : Char} {letters : List Char} {given : Given}
    {waiting : Option Key} (h : Letters (letter :: letters) given waiting) : letter ≠ '-' := by
  have hnone : ∀ key : Key, key.letter? ≠ some '-' := by
    intro key
    cases key <;> decide
  rintro rfl
  cases h with
  | flag hletter | waits hletter | equals _ hletter | joined hletter => exact hnone _ hletter

/-- The word that ends the options gives none. -/
theorem notWord_end (given : Given) (waiting : Option Key) :
    ¬ Word endWord.toList given waiting := by
  have hnames : ∀ key : Key, key.name.toList ≠ [] := by
    intro key
    cases key <;> decide
  rw [show endWord.toList = ['-', '-'] from rfl]
  rintro (hname | hletters)
  · generalize htext : ([] : List Char) = text at hname
    cases hname with
    | flag | waits => exact hnames _ htext.symm
    | equals value => exact List.append_ne_nil_of_right_ne_nil _ (List.cons_ne_nil _ _) htext.symm
  · exact hletters.ne_hyphen rfl

section Starting

variable {key : Key} {word : String} {words : List String} {given : Given}

/-- A line starts with the value that is waited for. -/
theorem line_some_iff :
    Line (some key) (word :: words) given ↔
      isValue word = true ∧ ∃ rest, Line none words rest ∧ given = (key, word) :: rest := by
  constructor
  · intro h
    cases h with
    | value hvalue hrest => exact ⟨hvalue, _, hrest, rfl⟩
  · rintro ⟨hvalue, rest, hrest, rfl⟩
    exact .value hvalue hrest

/-- The word that ends the options is the last one. -/
theorem line_end_iff : Line none (endWord :: words) given ↔ words = [] ∧ given = [] := by
  constructor
  · intro h
    cases h with
    | ending => exact ⟨rfl, rfl⟩
    | word hword => exact absurd hword (notWord_end _ _)
  · rintro ⟨rfl, rfl⟩
    exact .ending

/-- A line starts with a word that gives its first options. -/
theorem line_none_iff (h : word ≠ endWord) :
    Line none (word :: words) given ↔
      ∃ first waiting rest, Word word.toList first waiting ∧ Line waiting words rest ∧
        given = first ++ rest := by
  constructor
  · intro hline
    cases hline with
    | ending => exact absurd rfl h
    | word hword hrest => exact ⟨_, _, _, hword, hrest, rfl⟩
  · rintro ⟨first, waiting, rest, hword, hrest, rfl⟩
    exact .word hword hrest

end Starting

section Reading

variable {given result : Given} {waiting : Option Key}

/-- An option with its value leaves nothing that waits. -/
theorem add_complete_eq_ok_iff {key : Key} {value : String} :
    (do return (← add given key value, none) : Except Reply (Given × Option Key)) =
        .ok (result, waiting) ↔
      add given key value = .ok result ∧ waiting = none := by
  rw [bind_eq_ok_iff]
  constructor
  · rintro ⟨_, hadd, hpair⟩
    obtain ⟨rfl, rfl⟩ := Prod.mk.inj (Except.ok.inj hpair)
    exact ⟨hadd, rfl⟩
  · rintro ⟨hadd, rfl⟩
    exact ⟨result, hadd, rfl⟩

/-- The letters that are read have the form. -/
theorem letters_of_addLetters {letters : List Char}
    (h : addLetters given letters = .ok (result, waiting)) :
    ∃ more, Letters letters more waiting ∧ addAll given more = .ok result := by
  induction letters generalizing given with
  | nil =>
      obtain ⟨rfl, rfl⟩ := Prod.mk.inj (Except.ok.inj h)
      exact ⟨[], .nothing, rfl⟩
  | cons letter letters ih =>
      rw [addLetters] at h
      cases hkey : Key.ofLetter? letter with
      | none =>
          rw [hkey] at h
          cases h
      | some key =>
          have hletter := Key.ofLetter?_eq_some_iff.1 hkey
          rw [hkey] at h
          cases htakes : key.takesValue with
          | false =>
              simp only [htakes] at h
              obtain ⟨between, hadd, h⟩ := bind_eq_ok_iff.1 h
              obtain ⟨more, hmore, hall⟩ := ih h
              exact ⟨(key, "") :: more, .flag hletter htakes hmore,
                addAll_cons_eq_ok_iff.2 ⟨between, hadd, hall⟩⟩
          | true =>
              simp only [htakes, if_true] at h
              split at h
              · obtain ⟨rfl, rfl⟩ := Prod.mk.inj (Except.ok.inj h)
                exact ⟨[], .waits hletter htakes, rfl⟩
              · obtain ⟨hadd, rfl⟩ := add_complete_eq_ok_iff.1 h
                exact ⟨_, .equals _ hletter htakes, (addAll_singleton _ _ _).trans hadd⟩
              · rename_i hnil hequals
                obtain ⟨hadd, rfl⟩ := add_complete_eq_ok_iff.1 h
                refine ⟨_, .joined hletter htakes hnil ?_, (addAll_singleton _ _ _).trans hadd⟩
                intro hhead
                obtain ⟨value, rfl⟩ := List.head?_eq_some_iff.1 hhead
                exact hequals value rfl

/-- Letters that have the form are read. -/
theorem addLetters_of_letters {letters : List Char} {more : Given}
    (h : Letters letters more waiting) (hall : addAll given more = .ok result) :
    addLetters given letters = .ok (result, waiting) := by
  induction h generalizing given with
  | nothing => exact congrArg (fun given => Except.ok (given, none)) (Except.ok.inj hall)
  | flag hletter hflag hrest ih =>
      obtain ⟨between, hadd, hall⟩ := addAll_cons_eq_ok_iff.1 hall
      rw [addLetters, Key.ofLetter?_eq_some_iff.2 hletter]
      simp only [hflag]
      exact bind_eq_ok_iff.2 ⟨between, hadd, ih hall⟩
  | waits hletter htakes =>
      rw [addLetters, Key.ofLetter?_eq_some_iff.2 hletter]
      simp only [htakes, if_true]
      exact congrArg (fun given => Except.ok (given, _)) (Except.ok.inj hall)
  | equals value hletter htakes =>
      rw [addLetters, Key.ofLetter?_eq_some_iff.2 hletter]
      simp only [htakes, if_true]
      exact add_complete_eq_ok_iff.2 ⟨(addAll_singleton _ _ _).symm.trans hall, rfl⟩
  | @joined key letter value hletter htakes hvalue hplain =>
      rw [addLetters, Key.ofLetter?_eq_some_iff.2 hletter]
      simp only [htakes, if_true]
      have hadd := add_complete_eq_ok_iff.2 ⟨(addAll_singleton _ _ _).symm.trans hall, rfl⟩
      split
      · exact absurd rfl hvalue
      · exact absurd rfl hplain
      · exact hadd

theorem addLetters_eq_ok_iff {letters : List Char} :
    addLetters given letters = .ok (result, waiting) ↔
      ∃ more, Letters letters more waiting ∧ addAll given more = .ok result :=
  ⟨letters_of_addLetters, fun ⟨_, h, hall⟩ => addLetters_of_letters h hall⟩

/-- A name is read up to the equals sign behind it. -/
theorem splitName (key : Key) (value : List Char) :
    (key.name.toList ++ '=' :: value).takeWhile (· != '=') = key.name.toList ∧
      (key.name.toList ++ '=' :: value).dropWhile (· != '=') = '=' :: value := by
  have hname : ∀ c ∈ key.name.toList, (c != '=') = true := by
    intro c hc
    exact bne_iff_ne.2 fun heq => key.notMem_name (heq ▸ hc)
  rw [List.takeWhile_append_of_pos hname, List.dropWhile_append_of_pos hname]
  simp

/-- Without an equals sign all of the text is the name. -/
theorem splitName_alone (key : Key) :
    key.name.toList.takeWhile (· != '=') = key.name.toList ∧
      key.name.toList.dropWhile (· != '=') = [] := by
  have hname : ∀ c ∈ key.name.toList, (c != '=') = true := by
    intro c hc
    exact bne_iff_ne.2 fun heq => key.notMem_name (heq ▸ hc)
  exact ⟨List.takeWhile_eq_self_iff.2 hname, List.dropWhile_eq_nil_iff.2 hname⟩

/-- The name that is read has the form. -/
theorem name_of_addName {text : List Char} (h : addName given text = .ok (result, waiting)) :
    ∃ more, Name text more waiting ∧ addAll given more = .ok result := by
  have htext := List.takeWhile_append_dropWhile (p := (· != '=')) (l := text)
  unfold addName at h
  split at h
  · cases h
  · rename_i key c value hkey hdrop
    have hname := Key.ofName?_eq_some_iff.1 hkey
    -- The name ends where the first equals sign is.
    obtain rfl : c = '=' := by
      have hc := List.head?_dropWhile_not (· != '=') text
      rw [hdrop] at hc
      simpa using hc
    rw [hdrop, ← String.toList_ofList (l := text.takeWhile _), ← hname] at htext
    split at h
    · rename_i htakes
      obtain ⟨hadd, rfl⟩ := add_complete_eq_ok_iff.1 h
      rw [← htext]
      exact ⟨_, .equals value htakes, (addAll_singleton _ _ _).trans hadd⟩
    · cases h
  · rename_i key hkey hdrop
    have hname := Key.ofName?_eq_some_iff.1 hkey
    rw [hdrop, List.append_nil, ← String.toList_ofList (l := text.takeWhile _), ← hname] at htext
    rw [← htext]
    split at h
    · rename_i htakes
      obtain ⟨rfl, rfl⟩ := Prod.mk.inj (Except.ok.inj h)
      exact ⟨[], .waits htakes, rfl⟩
    · rename_i hflag
      obtain ⟨hadd, rfl⟩ := add_complete_eq_ok_iff.1 h
      exact ⟨_, .flag (Bool.eq_false_iff.2 hflag), (addAll_singleton _ _ _).trans hadd⟩

/-- A name that has the form is read. -/
theorem addName_of_name {text : List Char} {more : Given} (h : Name text more waiting)
    (hall : addAll given more = .ok result) : addName given text = .ok (result, waiting) := by
  cases h with
  | @flag key hflag =>
      obtain ⟨htake, hdrop⟩ := splitName_alone key
      rw [addName, htake, hdrop, String.ofList_toList, Key.ofName?_eq_some_iff.2 rfl]
      simp only [hflag]
      exact add_complete_eq_ok_iff.2 ⟨(addAll_singleton _ _ _).symm.trans hall, rfl⟩
  | @waits key htakes =>
      obtain ⟨htake, hdrop⟩ := splitName_alone key
      rw [addName, htake, hdrop, String.ofList_toList, Key.ofName?_eq_some_iff.2 rfl]
      simp only [htakes, if_true]
      exact congrArg (fun given => Except.ok (given, _)) (Except.ok.inj hall)
  | @equals key value htakes =>
      obtain ⟨htake, hdrop⟩ := splitName key value
      rw [addName, htake, hdrop, String.ofList_toList, Key.ofName?_eq_some_iff.2 rfl]
      simp only [htakes, if_true]
      exact add_complete_eq_ok_iff.2 ⟨(addAll_singleton _ _ _).symm.trans hall, rfl⟩

theorem addName_eq_ok_iff {text : List Char} :
    addName given text = .ok (result, waiting) ↔
      ∃ more, Name text more waiting ∧ addAll given more = .ok result :=
  ⟨name_of_addName, fun ⟨_, h, hall⟩ => addName_of_name h hall⟩

theorem addWord_eq_ok_iff {word : List Char} :
    addWord given word = .ok (result, waiting) ↔
      ∃ more, Word word more waiting ∧ addAll given more = .ok result := by
  unfold addWord
  split
  · rw [addName_eq_ok_iff]
    constructor
    · exact fun ⟨more, hname, hall⟩ => ⟨more, .long hname, hall⟩
    · rintro ⟨more, hname | hletters, hall⟩
      · exact ⟨more, hname, hall⟩
      · exact absurd rfl hletters.ne_hyphen
  · rename_i letter letters hlong
    rw [addLetters_eq_ok_iff]
    constructor
    · exact fun ⟨more, hletters, hall⟩ => ⟨more, .short hletters, hall⟩
    · rintro ⟨more, hword, hall⟩
      cases hword with
      | long => exact (hlong rfl).elim
      | short hletters => exact ⟨more, hletters, hall⟩
  · rename_i hlong hshort
    refine ⟨nofun, ?_⟩
    rintro ⟨more, hword, -⟩
    cases hword with
    | long => exact (hlong _ rfl).elim
    | short => exact (hshort _ _ rfl).elim

theorem addWords_eq_ok_iff {words : List String} :
    addWords waiting given words = .ok result ↔
      ∃ more, Line waiting words more ∧ addAll given more = .ok result := by
  -- By induction on the words, whatever waits for the first of them.
  induction words generalizing waiting given with
  | nil =>
      cases waiting with
      | none =>
          constructor
          · exact fun h => ⟨[], .nothing, h⟩
          · rintro ⟨more, hline, hall⟩
            cases hline
            exact hall
      | some key => exact ⟨nofun, fun ⟨_, hline, _⟩ => nomatch hline⟩
  | cons word words ih =>
      cases waiting with
      | some key =>
          simp only [addWords, line_some_iff]
          split
          · rename_i hvalue
            rw [bind_eq_ok_iff]
            constructor
            · rintro ⟨between, hadd, hwords⟩
              obtain ⟨more, hline, hall⟩ := ih.1 hwords
              exact ⟨_, ⟨hvalue, more, hline, rfl⟩,
                addAll_cons_eq_ok_iff.2 ⟨between, hadd, hall⟩⟩
            · rintro ⟨_, ⟨-, more, hline, rfl⟩, hall⟩
              obtain ⟨between, hadd, hall⟩ := addAll_cons_eq_ok_iff.1 hall
              exact ⟨between, hadd, ih.2 ⟨more, hline, hall⟩⟩
          · rename_i hvalue
            exact ⟨nofun, fun ⟨_, ⟨hword, _⟩, _⟩ => absurd hword hvalue⟩
      | none =>
          rw [addWords]
          split
          · rename_i hend
            subst hend
            simp only [line_end_iff]
            split
            · rename_i hlast
              rw [List.isEmpty_iff] at hlast
              constructor
              · exact fun h => ⟨[], ⟨hlast, rfl⟩, h⟩
              · rintro ⟨_, ⟨-, rfl⟩, hall⟩
                exact hall
            · rename_i hmore
              exact ⟨nofun, fun ⟨_, ⟨hlast, _⟩, _⟩ => absurd (List.isEmpty_iff.2 hlast) hmore⟩
          · rename_i hend
            simp only [line_none_iff hend, bind_eq_ok_iff]
            constructor
            · rintro ⟨⟨between, waiting⟩, hword, hwords⟩
              obtain ⟨first, hword, hfirst⟩ := addWord_eq_ok_iff.1 hword
              obtain ⟨more, hline, hall⟩ := ih.1 hwords
              exact ⟨_, ⟨first, waiting, more, hword, hline, rfl⟩,
                addAll_append_eq_ok_iff.2 ⟨between, hfirst, hall⟩⟩
            · rintro ⟨_, ⟨first, waiting, more, hword, hline, rfl⟩, hall⟩
              obtain ⟨between, hfirst, hall⟩ := addAll_append_eq_ok_iff.1 hall
              exact ⟨(between, waiting), addWord_eq_ok_iff.2 ⟨first, hword, hfirst⟩,
                ih.2 ⟨more, hline, hall⟩⟩

end Reading

/-- What options mean. One that takes a value has the value that was given with it, and
    any other one is on if it was given. -/
structure Given.Means (given : Given) (options : Options) : Prop where
  config : ∀ value, options.config = some value ↔ (.config, value) ∈ given
  rev : ∀ value, (.rev, value) ∈ given → options.rev = value
  head : (∀ value, (.rev, value) ∉ given) → options.rev = "HEAD"
  since : ∀ value, options.since = some value ↔ (.since, value) ∈ given
  output : ∀ value, options.output = some value ↔ (.output, value) ∈ given
  contributors : options.contributors = true ↔ ∃ value, (.contributors, value) ∈ given
  force : options.force = true ↔ ∃ value, (.force, value) ∈ given
  list : options.list = true ↔ ∃ value, (.list, value) ∈ given

/-- What a command line asks a run to do. -/
def Asks (words : List String) (options : Options) : Prop :=
  ∃ given, Line none words given ∧ given.Allowed ∧ given.Means options

section Meaning

variable {given : Given} {options : Options}

theorem lookup_eq_some_iff_mem (honce : (given.map (·.1)).Nodup) {key : Key} {value : String} :
    given.lookup key = some value ↔ (key, value) ∈ given := by
  refine ⟨Key.mem_of_lookup_eq_some, fun hmem => ?_⟩
  induction given with
  | nil => cases hmem
  | cons first rest ih =>
      obtain ⟨hfirst, honce⟩ := List.nodup_cons.1 honce
      rcases List.mem_cons.1 hmem with rfl | hmem
      · exact List.lookup_cons_self
      · have hne : key ≠ first.1 := fun heq =>
          hfirst (List.mem_map.2 ⟨_, hmem, heq⟩)
        rw [List.lookup_cons, beq_false_of_ne hne]
        exact ih honce hmem

theorem isSome_lookup_iff_mem (honce : (given.map (·.1)).Nodup) {key : Key} :
    (given.lookup key).isSome = true ↔ ∃ value, (key, value) ∈ given := by
  simp only [Option.isSome_iff_exists, lookup_eq_some_iff_mem honce]

theorem means_ofGiven (honce : (given.map (·.1)).Nodup) : given.Means (.ofGiven given) where
  config _ := lookup_eq_some_iff_mem honce
  rev value hvalue := by
    rw [Options.ofGiven, (lookup_eq_some_iff_mem honce).2 hvalue]
    rfl
  head hnone := by
    have hlookup : given.lookup .rev = none :=
      Option.eq_none_iff_forall_ne_some.2 fun value hvalue =>
        hnone value ((lookup_eq_some_iff_mem honce).1 hvalue)
    rw [Options.ofGiven, hlookup]
    rfl
  since _ := lookup_eq_some_iff_mem honce
  output _ := lookup_eq_some_iff_mem honce
  contributors := isSome_lookup_iff_mem honce
  force := isSome_lookup_iff_mem honce
  list := isSome_lookup_iff_mem honce

/-- Options mean one thing only. -/
theorem Given.Means.unique {other : Options} (h : given.Means options) (h' : given.Means other) :
    options = other := by
  have hrev : options.rev = other.rev := by
    by_cases hgiven : ∃ value, (.rev, value) ∈ given
    · obtain ⟨value, hvalue⟩ := hgiven
      rw [h.rev value hvalue, h'.rev value hvalue]
    · have hnone : ∀ value, (.rev, value) ∉ given := fun value hvalue => hgiven ⟨value, hvalue⟩
      rw [h.head hnone, h'.head hnone]
  have hconfig : options.config = other.config :=
    Option.ext fun value => (h.config value).trans (h'.config value).symm
  have hsince : options.since = other.since :=
    Option.ext fun value => (h.since value).trans (h'.since value).symm
  have houtput : options.output = other.output :=
    Option.ext fun value => (h.output value).trans (h'.output value).symm
  have hcontributors : options.contributors = other.contributors :=
    Bool.eq_iff_iff.2 (h.contributors.trans h'.contributors.symm)
  have hforce : options.force = other.force := Bool.eq_iff_iff.2 (h.force.trans h'.force.symm)
  have hlist : options.list = other.list := Bool.eq_iff_iff.2 (h.list.trans h'.list.symm)
  cases options
  cases other
  simp_all

end Meaning

/-- A command line asks for a run if it has the form of one and its options can be given
    together. -/
theorem ofWords_eq_run_iff {words : List String} {options : Options} :
    Request.ofWords words = .run options ↔ Asks words options := by
  unfold Request.ofWords
  constructor
  · intro h
    split at h
    · rename_i given hwords
      obtain rfl := Request.run.inj h
      obtain ⟨more, hline, hall⟩ := addWords_eq_ok_iff.1 hwords
      obtain ⟨hallowed, rfl⟩ := addAll_nil_eq_ok_iff.1 hall
      exact ⟨given, hline, hallowed, means_ofGiven hallowed.once⟩
    · cases h
  · rintro ⟨given, hline, hallowed, hmeans⟩
    rw [addWords_eq_ok_iff.2 ⟨given, hline, addAll_nil_eq_ok_iff.2 ⟨hallowed, rfl⟩⟩]
    exact congrArg Request.run ((means_ofGiven hallowed.once).unique hmeans)

end CommandLine

namespace Text

theorem dropWhile_append_cons {before : List Char} {c : Char} (rest : List Char)
    (hbefore : ∀ c ∈ before, isWhite c = true) (hc : isWhite c = false) :
    (before ++ c :: rest).dropWhile isWhite = c :: rest := by
  rw [List.dropWhile_append_of_pos hbefore, List.dropWhile_cons_of_neg (by simp [hc])]

/-- A text is what is left without the white characters around it, and these. -/
theorem exists_trim (text : List Char) :
    ∃ before after, text = before ++ trim text ++ after ∧ (∀ c ∈ before, isWhite c = true) ∧
      ∀ c ∈ after, isWhite c = true := by
  refine ⟨text.takeWhile isWhite, ((text.dropWhile isWhite).reverse.takeWhile isWhite).reverse,
    ?_, fun c => List.mem_takeWhile_imp, fun c hc => ?_⟩
  · rw [trim, List.append_assoc, ← List.reverse_append, List.takeWhile_append_dropWhile,
      List.reverse_reverse, List.takeWhile_append_dropWhile]
  · exact List.mem_takeWhile_imp (List.mem_reverse.1 hc)

/-- What stands between white characters is left without them, if it neither starts nor
    ends with one. -/
theorem trim_between {before between after : List Char} {first last : Char}
    (hbefore : ∀ c ∈ before, isWhite c = true) (hafter : ∀ c ∈ after, isWhite c = true)
    (hfirst : between.head? = some first) (hlast : between.getLast? = some last)
    (hstart : isWhite first = false) (hend : isWhite last = false) :
    trim (before ++ between ++ after) = between := by
  obtain ⟨rest, rfl⟩ := List.head?_eq_some_iff.1 hfirst
  obtain ⟨front, hfront⟩ := List.getLast?_eq_some_iff.1 hlast
  rw [trim, List.append_assoc, List.cons_append, dropWhile_append_cons _ hbefore hstart,
    ← List.cons_append, hfront, List.reverse_append, List.reverse_append]
  have hreverse : ∀ c ∈ after.reverse, isWhite c = true := fun c hc =>
    hafter c (List.mem_reverse.1 hc)
  rw [List.reverse_singleton, List.singleton_append, dropWhile_append_cons _ hreverse hend]
  simp

/-- A white character has no other size. -/
theorem toLower_of_isWhite {c : Char} (h : isWhite c = true) : c.toLower = c := by
  unfold Char.toLower
  rw [dif_neg]
  intro hcapital
  have hlow : 65 ≤ c.toNat := UInt32.le_iff_toNat_le.1 hcapital.1
  have hhigh : c.toNat ≤ 90 := UInt32.le_iff_toNat_le.1 hcapital.2
  simp only [isWhite, Bool.or_eq_true, Bool.and_eq_true, decide_eq_true_eq, beq_iff_eq] at h
  omega

end Text

/-- An answer means yes if it is one of two words in letters of either size, with white
    characters around it or none. -/
def MeansYes (answer : String) : Prop :=
  ∃ before word after, answer.toList = before ++ word ++ after ∧
    (∀ c ∈ before, Text.isWhite c = true) ∧ (∀ c ∈ after, Text.isWhite c = true) ∧
      (word.map Char.toLower = ['y'] ∨ word.map Char.toLower = ['y', 'e', 's'])

theorem confirms_iff (answer : String) : confirms answer = true ↔ MeansYes answer := by
  have hwords : ∀ word : List Char,
      ((word.map Char.toLower == ['y']) || (word.map Char.toLower == ['y', 'e', 's'])) = true ↔
        word.map Char.toLower = ['y'] ∨ word.map Char.toLower = ['y', 'e', 's'] := by
    intro word
    rw [Bool.or_eq_true, beq_iff_eq, beq_iff_eq]
  unfold confirms
  constructor
  · intro h
    obtain ⟨before, after, hanswer, hbefore, hafter⟩ := Text.exists_trim answer.toList
    exact ⟨before, _, after, hanswer, hbefore, hafter, (hwords _).1 h⟩
  · rintro ⟨before, word, after, hanswer, hbefore, hafter, hword⟩
    -- Neither word has a white character at an end.
    have hplain : ∀ {c small : Char}, c.toLower = small → Text.isWhite small = false →
        Text.isWhite c = false := by
      intro c small hc hsmall
      by_contra hwhite
      rw [Bool.not_eq_false] at hwhite
      rw [Text.toLower_of_isWhite hwhite] at hc
      rw [hc, hsmall] at hwhite
      cases hwhite
    have htrim : Text.trim answer.toList = word := by
      rw [hanswer]
      rcases hword with hword | hword
      · obtain ⟨c, rest, rfl, hc, hrest⟩ := List.map_eq_cons_iff.1 hword
        obtain rfl := List.map_eq_nil_iff.1 hrest
        exact Text.trim_between hbefore hafter rfl rfl (hplain hc rfl) (hplain hc rfl)
      · obtain ⟨first, rest, rfl, hfirst, hrest⟩ := List.map_eq_cons_iff.1 hword
        obtain ⟨second, rest, rfl, -, hrest⟩ := List.map_eq_cons_iff.1 hrest
        obtain ⟨last, rest, rfl, hlast, hrest⟩ := List.map_eq_cons_iff.1 hrest
        obtain rfl := List.map_eq_nil_iff.1 hrest
        exact Text.trim_between hbefore hafter rfl rfl (hplain hfirst rfl) (hplain hlast rfl)
    rw [htrim]
    exact (hwords word).2 hword

end ReleaseNotes
