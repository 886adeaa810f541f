import ReleaseNotes.Proofs.Home
import ReleaseNotes.Proofs.Outcome

/-!
# Bodies of Messages

What of a message reaches the notes, which is its first line.

A message is a line, and perhaps a line end with a body behind it. `Text.Heads` says so by
the three ways in which a line can stand at the front of a text. Every text is headed by
one line only, and that is the one the title is read from (`Text.heads_iff`). The one
condition that is easily forgotten is about a line that ends in a carriage return itself:
directly before a line feed that return would belong to the line end.

As the title is all that a commit has from its message, and label and shown title are made
from the title, two lists of messages with the same first lines give the same outcome, be it
notes or a fault. Bodies can hold anything: openings, slots and carriage returns are not
looked at there.

Writing line ends with carriage returns puts a return before each line feed. That leaves the
line at the front as it was, unless its line end had a carriage return already, which would
then become a part of the line. In a text without carriage returns none has.

## Main definitions

* `Text.Heads`: A line that a text starts with.
* `Text.withReturns`: A text with a carriage return before each line feed.
* `Submission`: What a commit is made from.
* `Submission.SameLine`: Two submissions that differ in the bodies of their messages.

## Theorems

* `Text.firstLine_append`: A line is read up to where it ends.
* `Text.heads_iff`: A text is headed by its first line, and by no other one.
* `Text.Heads.withReturns`: Line ends can be written in the other way.
* `Submission.commit_eq`: What is read off a submission.
* `RuleSet.bodies_left_out`: What does not depend on bodies.
-/

namespace ReleaseNotes

namespace Text

/-- The text starts with the line, and goes on behind a line end if it goes on at all. -/
inductive Heads (line : List Char) : List Char → Prop
  | alone (h : '\n' ∉ line) : Heads line line
  | feed (h : '\n' ∉ line) (hend : line.getLast? ≠ some '\r') (body : List Char) :
      Heads line (line ++ '\n' :: body)
  | returnFeed (h : '\n' ∉ line) (body : List Char) : Heads line (line ++ '\r' :: '\n' :: body)

/-- The text with a carriage return before each line feed. -/
def withReturns (text : List Char) : List Char :=
  text.flatMap fun c => if c = '\n' then ['\r', '\n'] else [c]

variable {line text : List Char}

/-- A character is copied if no line end starts with it. -/
theorem firstLine_cons {c : Char} {rest : List Char} (hc : c ≠ '\n')
    (hrest : c = '\r' → rest.head? ≠ some '\n') : firstLine (c :: rest) = c :: firstLine rest := by
  rw [firstLine]
  · exact hc
  · intro others hreturn hfeed
    exact hrest hreturn (by rw [hfeed, List.head?_cons])

/-- A line is read up to where it ends. No line end starts in the line, and none starts at its
    last character either. -/
theorem firstLine_append {rest : List Char} (hline : '\n' ∉ line)
    (hborder : line.getLast? = some '\r' → rest.head? ≠ some '\n') :
    firstLine (line ++ rest) = line ++ firstLine rest := by
  induction line with
  | nil => rfl
  | cons c line ih =>
      obtain ⟨hc, hline⟩ := List.ne_and_not_mem_of_not_mem_cons hline
      cases line with
      | nil =>
          refine firstLine_cons (Ne.symm hc) fun hreturn => ?_
          exact hborder (by rw [hreturn, List.getLast?_singleton])
      | cons d line =>
          -- What comes next is in the line, so it is no line feed.
          have hnext : c = '\r' → (d :: line ++ rest).head? ≠ some '\n' := by
            intro _ hd
            rw [List.cons_append, List.head?_cons, Option.some.injEq] at hd
            exact (List.ne_and_not_mem_of_not_mem_cons hline).1 hd.symm
          rw [List.getLast?_cons_cons] at hborder
          rw [List.cons_append, firstLine_cons (Ne.symm hc) hnext, ih hline hborder]
          rfl

theorem heads_firstLine (text : List Char) : Heads (firstLine text) text := by
  fun_induction firstLine text with
  | case1 => exact .alone (by simp)
  | case2 body => exact .feed (by simp) (by simp) body
  | case3 body => exact .returnFeed (by simp) body
  | case4 c rest hfeed hreturn ih =>
      have hcons : ∀ {line : List Char}, '\n' ∉ line → '\n' ∉ c :: line :=
        fun h => List.not_mem_cons_of_ne_of_not_mem (fun hc => hfeed hc.symm) h
      generalize firstLine rest = line at ih
      cases ih with
      | alone h => exact .alone (hcons h)
      | returnFeed h body => exact .returnFeed (hcons h) body
      | feed h hend body =>
          refine .feed (hcons h) ?_ body
          cases line with
          | nil =>
              -- A return would belong to the line end.
              intro hc
              exact hreturn body (Option.some.inj hc) rfl
          | cons d line =>
              rw [List.getLast?_cons_cons]
              exact hend

/-- A text is headed by its first line, and by no other one. -/
theorem heads_iff : Heads line text ↔ firstLine text = line := by
  constructor
  · rintro (h | ⟨h, hend, body⟩ | ⟨h, body⟩)
    · have hread : firstLine (line ++ []) = line ++ firstLine [] :=
        firstLine_append h fun _ => by simp
      rw [List.append_nil] at hread
      exact hread.trans (List.append_nil line)
    · exact (firstLine_append h fun hreturn => absurd hreturn hend).trans (List.append_nil line)
    · exact (firstLine_append h fun _ => by simp).trans (List.append_nil line)
  · rintro rfl
    exact heads_firstLine text

theorem withReturns_of_notMem (h : '\n' ∉ line) : withReturns line = line := by
  induction line with
  | nil => rfl
  | cons c line ih =>
      obtain ⟨hc, hline⟩ := List.ne_and_not_mem_of_not_mem_cons h
      have hrest := ih hline
      unfold withReturns at hrest ⊢
      rw [List.flatMap_cons, hrest, if_neg (Ne.symm hc), List.singleton_append]

/-- A text without carriage returns is still headed by the same line when its line ends are
    written with them. -/
theorem Heads.withReturns (h : Heads line text) (hreturn : '\r' ∉ text) :
    Heads line (withReturns text) := by
  cases h with
  | alone h =>
      rw [withReturns_of_notMem h]
      exact .alone h
  | feed h hend body =>
      have hwritten : Text.withReturns (line ++ '\n' :: body) =
          line ++ '\r' :: '\n' :: Text.withReturns body := by
        have hline := withReturns_of_notMem h
        unfold Text.withReturns at hline ⊢
        rw [List.flatMap_append, hline, List.flatMap_cons, if_pos rfl]
        rfl
      rw [hwritten]
      exact .returnFeed h _
  | returnFeed h body => exact absurd (by simp) hreturn

end Text

/-- What a commit is made from: a hash, the name of an author if there is one, and a message
    if there is one. -/
structure Submission where
  hash : String
  author : Option String := none
  message : Option String
deriving DecidableEq, Repr

namespace Submission

/-- The text of the message, which is empty if there is none. -/
def text (submission : Submission) : List Char :=
  (submission.message.getD "").toList

/-- The commit that is made. -/
def commit (submission : Submission) : Commit :=
  let commit := Commit.ofMessage submission.hash submission.message
  match submission.author with
  | some name => commit.withAuthor name
  | none => commit

/-- The submission with a carriage return before each line feed of the message. -/
def withReturns (submission : Submission) : Submission :=
  { submission with
    message := submission.message.map fun message =>
      String.ofList (Text.withReturns message.toList) }

/-- Two submissions that differ in nothing but what stands behind the first lines of their
    messages. -/
structure SameLine (submission other : Submission) : Prop where
  hash : other.hash = submission.hash
  author : other.author = submission.author
  line : ∃ line, Text.Heads line submission.text ∧ Text.Heads line other.text

theorem text_withReturns (submission : Submission) :
    submission.withReturns.text = Text.withReturns submission.text := by
  unfold text withReturns
  cases submission.message with
  | none => rfl
  | some message => exact String.toList_ofList

theorem sameLine_withReturns {submission : Submission} (h : '\r' ∉ submission.text) :
    submission.SameLine submission.withReturns := by
  refine ⟨rfl, rfl, Text.firstLine submission.text, Text.heads_firstLine _, ?_⟩
  rw [text_withReturns]
  exact (Text.heads_firstLine _).withReturns h

/-- The title of a commit is the first line of its message. The label is still to come. -/
theorem commit_eq (submission : Submission) :
    submission.commit =
      { hash := submission.hash
        title := String.ofList (Text.firstLine submission.text)
        author := submission.author.filter fun name => !Text.isBlank name } := by
  rcases submission with ⟨hash, author, message⟩
  cases author with
  | none => rfl
  | some name =>
      simp only [commit, Commit.ofMessage, Commit.withAuthor, text, Option.filter_some]
      cases Text.isBlank name <;> rfl

theorem SameLine.commit_eq {submission other : Submission} (h : submission.SameLine other) :
    other.commit = submission.commit := by
  obtain ⟨line, hline, hother⟩ := h.line
  rw [Submission.commit_eq, Submission.commit_eq, h.hash, h.author, Text.heads_iff.1 hline,
    Text.heads_iff.1 hother]

/-- Lists of submissions that differ in bodies only give the same commits. -/
theorem map_commit_eq {submissions others : List Submission}
    (h : List.Forall₂ SameLine submissions others) :
    others.map commit = submissions.map commit := by
  induction h with
  | nil => rfl
  | cons hsame _ ih => rw [List.map_cons, List.map_cons, hsame.commit_eq, ih]

theorem forall₂_withReturns {submissions : List Submission}
    (h : ∀ submission ∈ submissions, '\r' ∉ submission.text) :
    List.Forall₂ SameLine submissions (submissions.map withReturns) := by
  rw [List.forall₂_map_right_iff, List.forall₂_same]
  exact fun submission hmem => sameLine_withReturns (h submission hmem)

end Submission

namespace RuleSet

variable (rules : RuleSet)

/-- The outcome of a run for the commits that are made from these submissions. -/
def outcome (sinceTag : Option String) (head : String) (contributors : Bool)
    (submissions : List Submission) : Except Fault Notes :=
  rules.run (.ok { sinceTag, head, commits := submissions.map Submission.commit }) contributors

/-- The line at the front of a message decides the label that the rules give, and the title
    that is shown. -/
theorem entry_of_heads {submission : Submission} {line : String}
    (h : Text.Heads line.toList submission.text) :
    rules.entry submission.commit =
      { commit :=
          { submission.commit with title := line, label := labelFor rules.labelRules line }
        display := reword rules.titleRules line } := by
  have hcommit := submission.commit_eq
  rw [Text.heads_iff.1 h, String.ofList_toList] at hcommit
  rw [hcommit, entry, Commit.applyLabels_fst, Option.none_or]

/-- Two lists of submissions that differ in the bodies of their messages only have the same
    outcome, and so have messages without carriage returns when their line ends are written
    with them. What a commit is filed and shown under is made from the line at the front of its
    message, and there is no line feed in its title. -/
theorem bodies_left_out (sinceTag : Option String) (head : String) (contributors : Bool) :
    (∀ submissions others, List.Forall₂ Submission.SameLine submissions others →
      rules.outcome sinceTag head contributors others =
        rules.outcome sinceTag head contributors submissions) ∧
    (∀ submissions : List Submission,
      (∀ submission ∈ submissions, '\r' ∉ submission.text) →
        rules.outcome sinceTag head contributors (submissions.map Submission.withReturns) =
          rules.outcome sinceTag head contributors submissions) ∧
    (∀ (submission : Submission) (line : String), Text.Heads line.toList submission.text →
      rules.entry submission.commit =
        { commit :=
            { submission.commit with title := line, label := labelFor rules.labelRules line }
          display := reword rules.titleRules line }) ∧
    ∀ submission : Submission, '\n' ∉ submission.commit.title.toList := by
  have houtcome : ∀ submissions others, List.Forall₂ Submission.SameLine submissions others →
      rules.outcome sinceTag head contributors others =
        rules.outcome sinceTag head contributors submissions := by
    intro submissions others h
    unfold outcome
    rw [Submission.map_commit_eq h]
  refine ⟨houtcome, fun submissions h => ?_, fun submission line => rules.entry_of_heads,
    fun submission => ?_⟩
  · exact houtcome submissions _ (Submission.forall₂_withReturns h)
  · rw [Submission.commit_eq, String.toList_ofList]
    exact Text.newline_notMem_firstLine _

/-- Messages with bodies that are full of openings and slots, and with carriage returns in
    several places. -/
def bodied : List Submission :=
  [⟨"0123456789", some "Ann", some "fix: a\nfeat: b \x7b\x7bcommitTitle\x7d\x7d\r\r\n"⟩,
   ⟨"1", none, some "\ndocs: c"⟩, ⟨"2", none, none⟩, ⟨"3", some "Bob", some "feat: d\re"⟩]

/-- Messages with the same first lines and other bodies. -/
def rebodied : List Submission :=
  [⟨"0123456789", some "Ann", some "fix: a"⟩, ⟨"1", none, some "\r\nci: f"⟩,
   ⟨"2", none, some "\n\r"⟩, ⟨"3", some "Bob", some "feat: d\re\r\n"⟩]

/-- A message without carriage returns. -/
def plain : List Submission :=
  [⟨"4", none, some "chore: g\n\nfix: h\n"⟩]

theorem bodied_left_out :
    List.Forall₂ Submission.SameLine bodied rebodied ∧
      standard.outcome (some "v1") "3" true rebodied =
        standard.outcome (some "v1") "3" true bodied ∧
      (∀ submission ∈ plain, '\r' ∉ submission.text) ∧
      plain.map Submission.withReturns = [⟨"4", none, some "chore: g\r\n\r\nfix: h\r\n"⟩] ∧
      standard.outcome (some "v1") "3" true (plain.map Submission.withReturns) =
        standard.outcome (some "v1") "3" true plain ∧
      ∀ submission ∈ plain, Text.Heads "chore: g".toList submission.text ∧
        standard.entry submission.commit =
          { commit := { hash := "4", title := "chore: g", label := some "task" }
            display := "g" } := by
  obtain ⟨houtcome, hreturns, hentry, -⟩ := standard.bodies_left_out (some "v1") "3" true
  have hsame : List.Forall₂ Submission.SameLine bodied rebodied :=
    .cons ⟨rfl, rfl, "fix: a".toList, Text.heads_iff.2 rfl, Text.heads_iff.2 rfl⟩ <|
    .cons ⟨rfl, rfl, [], Text.heads_iff.2 rfl, Text.heads_iff.2 rfl⟩ <|
    .cons ⟨rfl, rfl, [], Text.heads_iff.2 rfl, Text.heads_iff.2 rfl⟩ <|
    .cons ⟨rfl, rfl, "feat: d\re".toList, Text.heads_iff.2 rfl, Text.heads_iff.2 rfl⟩ .nil
  have hplain : ∀ submission ∈ plain, '\r' ∉ submission.text := by decide
  refine ⟨hsame, houtcome _ _ hsame, hplain, by decide, hreturns _ hplain, ?_⟩
  intro submission hmem
  obtain rfl := List.mem_singleton.1 hmem
  have hheads : Text.Heads "chore: g".toList
      (⟨"4", none, some "chore: g\n\nfix: h\n"⟩ : Submission).text := Text.heads_iff.2 rfl
  exact ⟨hheads, (hentry _ _ hheads).trans (by decide)⟩

end RuleSet

end ReleaseNotes
