import ReleaseNotes.Proofs.Layout
import ReleaseNotes.Proofs.Outcome

/-!
# Contributors

Who is listed as a contributor, and what the list adds to the notes.

A reader meets the entries of a document one after the other. The names are those of
the authors that are met, each at the place where it is met first. That is said by
positions: of two names the one listed first has an entry that stands before every
entry of the other. No list but one has these names in this order, so nothing has to be
said about how repeated names are dropped.

The proof goes along the entries. Once a name has been listed it is dropped from what
follows, and dropping it is the same as taking the entries that follow for entries
without an author. Hence the induction is over all ways to read names off the entries,
and not over the one way that is used.

Documents hold placed commits, so the authors of commits that go nowhere are not listed.
A blank name does not become an author, which is seen to when the author is set.

The list stands behind everything else. An empty line has to separate it from the last
section, which would be missing in a document without sections; but without sections
there are no entries, no authors, and no list. So asking for the list never changes what
stands before it.

## Main definitions

* `MetBefore`: One name is met before another.
* `Document.Credits`: Names that credit the authors of a document.
* `Commit.Signed`: The author of a commit has been set.
* `Document.contributorText`: What the list of contributors adds to a text.
* `RuleSet.Appends`: Outcomes that differ in what a text goes on with.

## Theorems

* `pairwise_metBefore`: Names without repetitions stand in the order they are met in.
* `Document.Credits.unique`: One list only credits the authors.
* `contributors_credited`: Who is listed.
* `Document.render_listContributors`: What the list adds to a document.
* `RuleSet.contributors_appended`: What the list adds to a document and to a run.
-/

namespace ReleaseNotes

section

variable {α β : Type}

/-- Something with the first name stands in the list before everything that has the
    second one. -/
def MetBefore (name? : α → Option β) (list : List α) (first second : β) : Prop :=
  ∃ i : Fin list.length, name? (list.get i) = some first ∧
    ∀ j : Fin list.length, name? (list.get j) = some second → i < j

namespace MetBefore

variable {name? known? : α → Option β} {list : List α} {first second : β}

theorem asymm (h : MetBefore name? list first second) :
    ¬ MetBefore name? list second first := by
  rintro ⟨j, hj, hsecond⟩
  obtain ⟨i, hi, hfirst⟩ := h
  exact absurd (hfirst j hj) (Nat.lt_asymm (hsecond i hi))

theorem ne (h : MetBefore name? list first second) : first ≠ second := by
  rintro rfl
  exact h.asymm h

/-- The order is kept behind something that does not have the second name, also if more
    names can be read off what follows. -/
theorem cons {x : α} (hx : name? x ≠ some second)
    (hfirst : ∀ y, known? y = some first → name? y = some first)
    (hsecond : ∀ y, name? y = some second → known? y = some second)
    (h : MetBefore known? list first second) : MetBefore name? (x :: list) first second := by
  obtain ⟨i, hi, hbefore⟩ := h
  refine ⟨i.succ, hfirst _ hi, Fin.cases (fun hzero => absurd hzero hx) fun j hj => ?_⟩
  exact Fin.succ_lt_succ_iff.2 (hbefore j (hsecond _ hj))

/-- What the list starts with is met before any other name. -/
theorem head {x : α} (hx : name? x = some first) (hne : second ≠ first) :
    MetBefore name? (x :: list) first second := by
  refine ⟨0, hx, Fin.cases (fun hzero => ?_) fun j _ => Fin.succ_pos j⟩
  exact absurd (Option.some.inj (hzero.symm.trans hx)) hne

end MetBefore

/-- Names without repetitions stand in the order in which they are met. -/
theorem pairwise_metBefore [BEq β] [LawfulBEq β] (name? : α → Option β) (list : List α) :
    (list.filterMap name?).eraseDups.Pairwise (MetBefore name? list) := by
  induction list generalizing name? with
  | nil =>
      rw [List.filterMap_nil, List.eraseDups_nil]
      exact .nil
  | cons x rest ih =>
      cases hx : name? x with
      | none =>
          rw [List.filterMap_cons_none hx]
          refine (ih name?).imp fun h => h.cons ?_ (fun _ => id) fun _ => id
          rw [hx]
          exact (Option.some_ne_none _).symm
      | some a =>
          rw [List.filterMap_cons_some hx, List.eraseDups_cons, List.filter_filterMap]
          -- From here on the name of the first one is not read any more.
          have hothers : ∀ b ∈ (rest.filterMap fun y => (name? y).filter (!· == a)).eraseDups,
              b ≠ a := by
            intro b hb
            obtain ⟨y, -, hy⟩ := List.mem_filterMap.1 (List.mem_eraseDups.1 hb)
            simpa using (Option.filter_eq_some_iff.1 hy).2
          refine List.pairwise_cons.2 ⟨fun b hb => .head hx (hothers b hb), ?_⟩
          refine (ih _).imp_of_mem fun _ hc h => h.cons ?_ (fun y hy => ?_) fun y hy => ?_
          · rw [hx]
            exact fun heq => hothers _ hc (Option.some.inj heq).symm
          · exact (Option.filter_eq_some_iff.1 hy).1
          · exact Option.filter_eq_some_iff.2 ⟨hy, by simpa using hothers _ hc⟩

end

namespace Document

/-- The names are those of the authors of the entries. Each of them is there once, and
    they stand in the order in which a reader meets them. -/
structure Credits (document : Document) (names : List String) : Prop where
  mem_iff : ∀ name, name ∈ names ↔ ∃ entry ∈ document.entries, entry.commit.author = some name
  nodup : names.Nodup
  inOrder : names.Pairwise (MetBefore (·.commit.author) document.entries)

variable (document : Document)

theorem mem_contributors {name : String} :
    name ∈ document.contributors ↔ ∃ entry ∈ document.entries, entry.commit.author = some name := by
  rw [contributors, List.mem_eraseDups, List.mem_filterMap]

theorem credits_contributors : document.Credits document.contributors where
  mem_iff _ := document.mem_contributors
  nodup := (pairwise_metBefore _ _).imp MetBefore.ne
  inOrder := pairwise_metBefore _ _

/-- One list only credits the authors. -/
theorem Credits.unique {document : Document} {names others : List String}
    (h : document.Credits names) (h' : document.Credits others) : names = others := by
  have hperm : names.Perm others :=
    (List.perm_ext_iff_of_nodup h.nodup h'.nodup).2 fun name =>
      (h.mem_iff name).trans (h'.mem_iff name).symm
  exact hperm.eq_of_pairwise (fun _ _ _ _ hab hba => absurd hba hab.asymm) h.inOrder h'.inOrder

end Document

/-- The author of the commit is what setting an author has left. -/
def Commit.Signed (commit : Commit) : Prop :=
  ∃ (earlier : Commit) (name : String), commit.author = (earlier.withAuthor name).author

/-- The name of an author that has been set has a character that shows. -/
theorem Commit.Signed.visible {commit : Commit} (h : commit.Signed) {name : String}
    (hauthor : commit.author = some name) : ∃ c ∈ name.toList, Text.isWhite c = false := by
  obtain ⟨earlier, given, hset⟩ := h
  rw [hauthor, withAuthor] at hset
  split at hset
  · cases hset
  · rename_i hblank
    cases hset
    simpa [Text.isBlank] using hblank

/-- The contributors of a document are the one list that credits its authors. In the
    document of some commits they are the authors of the commits that go under a
    category, and if the authors have been set, none of their names is blank. -/
theorem contributors_credited :
    (∀ (document : Document) names, document.Credits names ↔ names = document.contributors) ∧
    ∀ (rules : RuleSet) commits, rules.check = .ok () →
      (∀ name, name ∈ (rules.document commits).contributors ↔
        ∃ commit ∈ commits, rules.Placed commit ∧ commit.author = some name) ∧
      ((∀ commit ∈ commits, commit.Signed) → ∀ name ∈ (rules.document commits).contributors,
        ∃ c ∈ name.toList, Text.isWhite c = false) := by
  refine ⟨fun document names => ⟨fun h => h.unique document.credits_contributors, ?_⟩,
    fun rules commits hrules => ?_⟩
  · rintro rfl
    exact document.credits_contributors
  · have hmem : ∀ name, name ∈ (rules.document commits).contributors ↔
        ∃ commit ∈ commits, rules.Placed commit ∧ commit.author = some name := by
      intro name
      rw [RuleSet.contributors_document commits hrules, RuleSet.mem_authors commits hrules]
    refine ⟨hmem, fun hsigned name hname => ?_⟩
    obtain ⟨commit, hcommit, -, hauthor⟩ := (hmem name).1 hname
    exact (hsigned commit hcommit).visible hauthor

/-- Signed commits of which one goes nowhere and one has a blank name for an author. The
    last one goes under the category that comes first. -/
def signed : List Commit :=
  [Commit.withAuthor { hash := "a", title := "fix: x" } "Ann",
   Commit.withAuthor { hash := "b", title := "wip" } "Cy",
   Commit.withAuthor { hash := "c", title := "feat: y" } " \t",
   Commit.withAuthor { hash := "d", title := "feat: z" } "Bob"]

theorem signed_credited :
    RuleSet.standard.check = .ok () ∧ (∀ commit ∈ signed, commit.Signed) ∧
      (RuleSet.standard.document signed).Credits ["Bob", "Ann"] ∧
      "Cy" ∉ (RuleSet.standard.document signed).contributors ∧
      " \t" ∉ (RuleSet.standard.document signed).contributors := by
  have hrules : RuleSet.standard.check = .ok () := rfl
  have hsigned : ∀ commit ∈ signed, commit.Signed := by
    simp only [signed, List.forall_mem_cons]
    exact ⟨⟨_, _, rfl⟩, ⟨_, _, rfl⟩, ⟨_, _, rfl⟩, ⟨_, _, rfl⟩, by simp⟩
  have hsorted : RuleSet.standard.sortedCategories = RuleSet.standardCategories :=
    List.mergeSort_of_pairwise (by decide)
  have hlisted : (RuleSet.standard.document signed).contributors = ["Bob", "Ann"] := by
    rw [RuleSet.contributors_document signed hrules, RuleSet.authors, hsorted]
    decide
  obtain ⟨hcredits, hdocuments⟩ := contributors_credited
  obtain ⟨hmem, hvisible⟩ := hdocuments RuleSet.standard signed hrules
  refine ⟨hrules, hsigned, (hcredits _ _).2 hlisted.symm, fun h => ?_, fun h => ?_⟩
  · exact absurd ((hmem "Cy").1 h) (by decide)
  · obtain ⟨c, hc, hshows⟩ := hvisible hsigned _ h
    have hblank : Text.isBlank " \t" = true := by decide
    rw [List.all_eq_true.1 hblank c hc] at hshows
    cases hshows

namespace Document

/-- What the list of contributors adds to the text of a document: nothing if no entry
    has an author, and otherwise an empty line, the title, and all names on one line. -/
def contributorText (rules : ContributorRules) (document : Document) : String :=
  if ∀ entry ∈ document.entries, entry.commit.author = none then ""
  else
    "\n" ++ rules.title ++ "\n" ++
      ", ".intercalate (document.contributors.map (contributorName rules.format)) ++ "\n"

variable (document : Document)

theorem contributors_eq_nil_iff :
    document.contributors = [] ↔ ∀ entry ∈ document.entries, entry.commit.author = none := by
  rw [List.eq_nil_iff_forall_not_mem]
  simp only [mem_contributors, not_exists, not_and, Option.eq_none_iff_forall_ne_some]
  exact ⟨fun h entry hentry name => h name entry hentry,
    fun h name entry hentry => h entry hentry name⟩

/-- Without sections there is nobody to be listed. -/
theorem contributors_eq_nil (h : document.sections = []) : document.contributors = [] := by
  rw [contributors_eq_nil_iff, entries, h]
  exact List.forall_mem_nil _

/-- The lines of a document, with the list of contributors switched on or off. -/
theorem blocks_listContributors (rules : RuleSet) (enabled : Bool) :
    document.blocks (rules.listContributors enabled) =
      document.sections.map (sectionLines rules) ++
        if enabled && !document.contributors.isEmpty then
          [contributorLines rules.contributors document.contributors]
        else [] := rfl

/-- With the list of contributors a text goes on where it ends without the list. -/
theorem render_listContributors (rules : RuleSet) :
    document.render (rules.listContributors true) =
      document.render (rules.listContributors false) ++
        document.contributorText rules.contributors := by
  have hnobody := document.contributors_eq_nil_iff
  rw [render, render, blocks_listContributors, blocks_listContributors, Bool.true_and,
    Bool.false_and, if_neg Bool.false_ne_true, List.append_nil, contributorText]
  by_cases hnone : document.contributors = []
  · rw [if_neg (by simp [hnone]), if_pos (hnobody.1 hnone), List.append_nil, String.append_empty]
  · -- There is a section, and so a line feed between it and the list.
    have hsections : (document.sections.map (sectionLines rules)).map closeLines ≠ [] := by
      intro hnil
      exact hnone (document.contributors_eq_nil
        (List.map_eq_nil_iff.1 (List.map_eq_nil_iff.1 hnil)))
    rw [if_pos (by simp [hnone]), if_neg (mt hnobody.2 hnone), List.map_append,
      List.map_singleton, String.intercalate_append_of_ne_nil hsections (List.cons_ne_nil _ _),
      String.intercalate_singleton]
    simp only [closeLines, contributorLines, List.map_cons, List.map_nil, String.join_cons,
      String.join_nil, String.append_empty, String.append_assoc]

end Document

namespace RuleSet

/-- Two outcomes with the same fault, or with notes that differ in one thing: the second
    text goes on where the first one ends. -/
inductive Appends : Except Fault Notes → Except Fault Notes → Prop
  | fault (fault : Fault) : Appends (.error fault) (.error fault)
  | notes (notes : Notes) (rest : String) :
      Appends (.ok notes) (.ok { notes with text := notes.text ++ rest })

theorem Appends.refl (outcome : Except Fault Notes) : Appends outcome outcome := by
  cases outcome with
  | error fault => exact .fault fault
  | ok notes =>
      have hnothing := Appends.notes notes ""
      rw [String.append_empty] at hnothing
      exact hnothing

theorem notesFor_listContributors (rules : RuleSet) (range : CommitRange) :
    Appends (.ok ((rules.listContributors false).notesFor range))
      (.ok ((rules.listContributors true).notesFor range)) := by
  -- Neither the document nor the warnings look at the list.
  have htext := (rules.document range.commits).render_listContributors rules
  have hnotes : (rules.listContributors true).notesFor range =
      { (rules.listContributors false).notesFor range with
        text := ((rules.listContributors false).notesFor range).text ++
          (rules.document range.commits).contributorText rules.contributors } :=
    congrArg (fun text => { (rules.listContributors false).notesFor range with text }) htext
  rw [hnotes]
  exact .notes _ _

/-- Listing contributors only appends. The text of a document goes on with what the list
    adds to it, and asking a run for the list changes neither its fault nor anything that
    its notes say besides what their text goes on with. -/
theorem contributors_appended (rules : RuleSet) :
    (∀ document : Document,
      document.render (rules.listContributors true) =
        document.render (rules.listContributors false) ++
          document.contributorText rules.contributors) ∧
    ∀ source, Appends (rules.run source false) (rules.run source true) := by
  refine ⟨fun document => document.render_listContributors rules, fun source => ?_⟩
  have hasked : rules.asked true = rules.listContributors true := by rw [asked, Bool.or_true]
  have hunasked : rules.asked false = rules.listContributors rules.contributors.enabled := by
    rw [asked, Bool.or_false]
  rw [run_eq, run_eq, hasked, hunasked]
  cases rules.check with
  | error fault => exact .fault _
  | ok _ =>
      cases source with
      | error fault => exact .fault _
      | ok range =>
          -- Rules that list contributors anyway give the same notes both times.
          cases rules.contributors.enabled with
          | false => exact rules.notesFor_listContributors range
          | true => exact .refl _

end RuleSet

end ReleaseNotes
