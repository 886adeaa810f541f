import ReleaseNotes.Proofs.Occurrences
import ReleaseNotes.Proofs.Reading

/-!
# Conventional Titles

What the standard rules make of a title that opens as they expect it.

Such a title is an opening and a text behind it. The opening decides the category and is
dropped, and the text is shown. All five title rules are applied to every title, though,
so something has to be said about what the other four do, and about what the one for the
opening does besides dropping it. If none of the five openings occurs in the text, they
do nothing.

It is not enough that an opening occurs neither in the text nor in the opening in front
of it, because it might begin in the one and end in the other. What excludes that is the
blank with which every opening ends, and which stands nowhere else in it. An opening
that begins in the first part and ends in the second has the blank of the first part in
its middle. For the same reason an occurrence in the first part can only stand at its
end, and there stands none but the opening itself. When the opening has been dropped,
only the text is left, and the rules that are still to come find nothing in it either.

Nothing is said about the text beyond that. It may have braces and slots in it, as titles
are written into the line of an entry and are not scanned.

## Main definitions

* `Text.ClosedBy`: A text ends with a character that it has nowhere else.
* `RuleSet.standardOpenings`: The openings that the standard rules know.

## Theorems

* `Text.not_infix_append`: Closed texts do not occur across the end of another one.
* `foldl_reword_opening`: Rules that drop texts drop the one in front.
* `RuleSet.reword_opening`, `RuleSet.labelFor_opening_append`: What the standard rules
  make of an opening.
* `RuleSet.standard_entry_opening`: The entry of a conventional title.
* `RuleSet.shown_of_home`, `RuleSet.standard_line_of_entry`: Where an entry is shown.
* `RuleSet.standard_shows_opening`: Where such a title is found in the notes.
-/

namespace ReleaseNotes

namespace Text

/-- The text ends with this character, and has it nowhere else. -/
def ClosedBy (mark : Char) (text : List Char) : Prop :=
  text.getLast? = some mark ∧ mark ∉ text.dropLast

instance (mark : Char) (text : List Char) : Decidable (ClosedBy mark text) :=
  inferInstanceAs (Decidable (text.getLast? = some mark ∧ mark ∉ text.dropLast))

variable {mark : Char} {search before front back text : List Char}

theorem ClosedBy.mem (h : ClosedBy mark search) : mark ∈ search :=
  List.mem_of_getLast? h.1

/-- The character is not in front of anything. -/
theorem ClosedBy.notMem_front (h : ClosedBy mark (front ++ back)) (hback : back ≠ []) :
    mark ∉ front := by
  have hrest := h.2
  rw [List.dropLast_append_of_ne_nil hback] at hrest
  exact fun hmem => hrest (List.mem_append_left _ hmem)

/-- Whatever the text ends with has the character. -/
theorem ClosedBy.mem_of_suffix (h : ClosedBy mark search) (hsuffix : back <:+ search)
    (hback : back ≠ []) : mark ∈ back := by
  obtain ⟨front, rfl⟩ := hsuffix
  have hlast := h.1
  rw [List.getLast?_append_of_ne_nil front hback] at hlast
  exact List.mem_of_getLast? hlast

/-- Of two closed texts, one occurs in front of a text only if the other one ends with it.
    No occurrence begins in the one part and ends in the other. -/
theorem not_infix_append (hsearch : ClosedBy mark search) (hbefore : ClosedBy mark before)
    (hend : ¬ search <:+ before) (htext : ¬ search <:+: text) : ¬ search <:+: before ++ text := by
  rw [List.infix_append_iff_ne_nil]
  rintro (hfirst | hsecond | ⟨front, back, hfront, hback, rfl, hsuffix, -⟩)
  · -- An occurrence in the first part that is not its end has the character too early.
    obtain ⟨others, rest, rfl⟩ := hfirst
    by_cases hrest : rest = []
    · rw [hrest, List.append_nil] at hend
      exact hend (List.suffix_append others search)
    · exact hbefore.notMem_front hrest (List.mem_append_right _ hsearch.mem)
  · exact htext hsecond
  · -- One across the end of the first part has the character of that part in its middle.
    exact hsearch.notMem_front hback (hbefore.mem_of_suffix hsuffix hfront)

end Text

section

variable {rules : List TitleRule} {opening text : List Char}

theorem TitleRule.reword_of_absent {rule : TitleRule} (h : ¬ rule.search.toList <:+: text) :
    rule.reword text = text := by
  unfold reword
  split
  · rfl
  · exact Text.replaceAll_of_absent h

/-- A text in which no rule finds anything is left as it is. -/
theorem foldl_reword_of_absent (h : ∀ rule ∈ rules, ¬ rule.search.toList <:+: text) :
    rules.foldl (fun text rule => rule.reword text) text = text := by
  induction rules with
  | nil => rfl
  | cons rule rest ih =>
      obtain ⟨hrule, hrest⟩ := List.forall_mem_cons.1 h
      rw [List.foldl_cons, TitleRule.reword_of_absent hrule, ih hrest]

/-- Rules that drop texts drop an opening, and leave what stands behind it, if one of them
    searches for the opening and the others find nothing before and after that. -/
theorem foldl_reword_opening (hopening : opening ≠ [])
    (hmem : ∃ rule ∈ rules, rule.search.toList = opening)
    (hdrops : ∀ rule ∈ rules, rule.replacement = "")
    (hothers : ∀ rule ∈ rules, rule.search.toList ≠ opening →
      ¬ rule.search.toList <:+: opening ++ text)
    (htext : ∀ rule ∈ rules, ¬ rule.search.toList <:+: text) :
    rules.foldl (fun text rule => rule.reword text) (opening ++ text) = text := by
  induction rules with
  | nil =>
      obtain ⟨rule, hrule, -⟩ := hmem
      cases hrule
  | cons rule rest ih =>
      rw [List.forall_mem_cons] at hdrops hothers htext
      rw [List.foldl_cons]
      by_cases hsearch : rule.search.toList = opening
      · -- From here on there is only the text behind the opening.
        have hdropped : rule.reword (opening ++ text) = text := by
          have hne : rule.search ≠ "" := fun h => hopening (by rw [← hsearch, h]; rfl)
          rw [TitleRule.reword, if_neg (mt String.isEmpty_iff.1 hne), ← hsearch,
            Text.replaceAll_append (hsearch ▸ hopening), hdrops.1,
            Text.replaceAll_of_absent htext.1]
          rfl
        rw [hdropped, foldl_reword_of_absent htext.2]
      · -- The rule for the opening is still to come.
        have hlater : ∃ rule ∈ rest, rule.search.toList = opening := by
          obtain ⟨other, hother, heq⟩ := hmem
          rcases List.mem_cons.1 hother with rfl | hother
          · exact absurd heq hsearch
          · exact ⟨other, hother, heq⟩
        rw [TitleRule.reword_of_absent (hothers.1 hsearch),
          ih hlater hdrops.2 hothers.2 htext.2]

end

namespace RuleSet

/-- The openings that the standard rules know, each with the key of the category that
    titles with this opening go under. -/
def standardOpenings : List (String × String) :=
  [("feat: ", "feature"), ("fix: ", "bug"), ("chore: ", "task"), ("ci: ", "task"),
   ("docs: ", "doc")]

section

variable {opening key text : String} (hopening : (opening, key) ∈ standardOpenings)
include hopening

/-- The opening is dropped, and nothing else. -/
theorem reword_opening
    (habsent : ∀ other ∈ standardOpenings, ¬ other.1.toList <:+: text.toList) :
    reword standardTitleRules (opening ++ text) = text := by
  have hclosed : ∀ other ∈ standardOpenings, Text.ClosedBy ' ' other.1.toList := by decide
  have hends : ∀ other ∈ standardOpenings, ∀ first ∈ standardOpenings,
      other.1.toList ≠ first.1.toList → ¬ other.1.toList <:+ first.1.toList := by decide
  have hrules : standardTitleRules = standardOpenings.map fun other => ⟨other.1, ""⟩ := rfl
  rw [reword, String.toList_append, hrules, foldl_reword_opening, String.ofList_toList]
  · exact List.ne_nil_of_mem (hclosed _ hopening).mem
  · exact ⟨_, List.mem_map.2 ⟨_, hopening, rfl⟩, rfl⟩
  · exact List.forall_mem_map.2 fun _ _ => rfl
  · refine List.forall_mem_map.2 fun other hother hne => ?_
    exact Text.not_infix_append (hclosed other hother) (hclosed _ hopening)
      (hends other hother _ hopening hne) (habsent other hother)
  · exact List.forall_mem_map.2 habsent

/-- The opening decides the label, whatever stands behind it. -/
theorem labelFor_opening_append :
    labelFor standardLabelRules (opening ++ text) = some key := by
  unfold labelFor LabelRule.fits
  simp only [String.toList_append]
  simp only [standardOpenings, List.mem_cons, Prod.mk.injEq, List.not_mem_nil, or_false] at hopening
  rcases hopening with ⟨rfl, rfl⟩ | ⟨rfl, rfl⟩ | ⟨rfl, rfl⟩ | ⟨rfl, rfl⟩ | ⟨rfl, rfl⟩ <;> rfl

omit hopening in
/-- Each of the keys is that of a standard category, and is its label as well. -/
theorem exists_category_of_key :
    ∀ other ∈ standardOpenings, ∃ category ∈ standard.categories, category.key = other.2 ∧
      standard.categories.find? (·.accepts other.2) = some category := by
  decide

variable {commit : Commit} (hlabel : commit.label = none) (htitle : commit.title = opening ++ text)
include hlabel htitle

/-- The entry of an unlabelled commit with a conventional title has the label of the
    opening, and shows what stands behind it. -/
theorem standard_entry_opening
    (habsent : ∀ other ∈ standardOpenings, ¬ other.1.toList <:+: text.toList) :
    standard.entry commit = ⟨{ commit with label := some key }, text⟩ := by
  have hlabelled : (applyLabels standardLabelRules commit).1 =
      { commit with label := some key } := by
    rw [Commit.applyLabels_fst, hlabel, htitle, labelFor_opening_append hopening, Option.none_or]
  have hdisplay : reword standardTitleRules commit.title = text := by
    rw [htitle, reword_opening hopening habsent]
  exact congrArg₂ Entry.mk hlabelled hdisplay

end

/-- A commit is shown in the section of the category that it has its home in. -/
theorem shown_of_home {rules : RuleSet} (hrules : rules.check = .ok ()) {commits : List Commit}
    {commit : Commit} (hmem : commit ∈ commits) {category : Category}
    (hhome : rules.home? commit = some category) :
    rules.sectionOf commits category ∈ (rules.document commits).sections ∧
      rules.entry commit ∈ (rules.sectionOf commits category).entries := by
  have hmember : commit ∈ rules.members commits category :=
    (rules.mem_members commits).2 ⟨hmem, hhome⟩
  constructor
  · have hcategory := mem_categories_of_home? rules commit hhome
    exact (mem_sections_document commits hrules).2
      ⟨category, hcategory, List.ne_nil_of_mem hmember, rfl⟩
  · exact List.mem_map.2 ⟨commit, hmember, rfl⟩

/-- By the standard rules there is a line for each entry of a document, with its short hash
    and its title. -/
theorem standard_line_of_entry {document : Document} {part : Section} {entry : Entry}
    (hpart : part ∈ document.sections) (hentry : entry ∈ part.entries)
    (hhash : '\n' ∉ entry.commit.hash.toList) (hdisplay : '\n' ∉ entry.display.toList) :
    "- " ++ shortHash entry.commit.hash ++ " " ++ entry.display ∈
      Text.pieces (document.render standard) := by
  have hline : entryLine standard.entryFormat entry =
      "- " ++ shortHash entry.commit.hash ++ " " ++ entry.display := by
    rw [← String.toList_inj, toList_standard_entryLine]
    simp
  have hblock : sectionLines standard part ∈ document.blocks standard :=
    List.mem_append_left _ (List.mem_map.2 ⟨part, hpart, rfl⟩)
  rw [← hline]
  refine Document.mem_pieces_render hblock
    (List.mem_cons_of_mem _ (List.mem_map.2 ⟨entry, hentry, rfl⟩)) ?_
  -- The line has the hyphen, two blanks, a part of the hash, and the title.
  have hshort : '\n' ∉ (shortHash entry.commit.hash).toList :=
    fun h => hhash (mem_of_mem_shortHash h)
  rw [toList_standard_entryLine]
  simp [hshort, hdisplay]

/-- The standard rules are accepted. A commit without a label and with a title that is one
    of the five openings and a text in which none of them occurs is shown by them in the
    category of its opening, with this text as its title. There is a line for it in the
    notes, which has the short hash and the text, if there is no line feed in either. -/
theorem standard_shows_opening {opening key text : String}
    (hopening : (opening, key) ∈ standardOpenings)
    (habsent : ∀ other ∈ standardOpenings, ¬ other.1.toList <:+: text.toList)
    {commits : List Commit} {commit : Commit} (hmem : commit ∈ commits)
    (hlabel : commit.label = none) (htitle : commit.title = opening ++ text) :
    standard.checked = .ok standard ∧
      (∃ part, (standard.document commits).section? key = some part ∧
        ⟨{ commit with label := some key }, text⟩ ∈ part.entries) ∧
      ('\n' ∉ text.toList → '\n' ∉ commit.hash.toList →
        "- " ++ shortHash commit.hash ++ " " ++ text ∈ Text.pieces (standard.notes commits)) := by
  have hrules : standard.check = .ok () := rfl
  have hentry := standard_entry_opening hopening hlabel htitle habsent
  obtain ⟨category, -, hkey, hfind⟩ := exists_category_of_key _ hopening
  have hhome : standard.home? commit = some category := by
    rw [home?, hentry]
    exact hfind
  obtain ⟨hpart, hshown⟩ := shown_of_home hrules hmem hhome
  have hline := standard_line_of_entry hpart hshown
  rw [hentry] at hshown hline
  refine ⟨by rw [checked, hrules]; rfl, ⟨_, ?_, hshown⟩, fun htext hhash => ?_⟩
  · exact (Document.section?_eq_some_iff (nodup_keys commits hrules)).2 ⟨hpart, hkey⟩
  · exact hline hhash htext

/-- Commits of which the first has a line feed in its hash and an opening twice. -/
def openingCommits : List Commit :=
  [{ hash := "a\nb", title := "fix: fix: twice" },
   { hash := "0123456789", title := "ci: use \x7b\x7bcommitHash\x7d\x7d \x7bci:" }]

theorem openingCommits_standard_shows :
    ("ci: ", "task") ∈ standardOpenings ∧
      (∀ other ∈ standardOpenings,
        ¬ other.1.toList <:+: "use \x7b\x7bcommitHash\x7d\x7d \x7bci:".toList) ∧
      (∃ part, (standard.document openingCommits).section? "task" = some part) ∧
      "- 0123456 use \x7b\x7bcommitHash\x7d\x7d \x7bci:" ∈
        Text.pieces (standard.notes openingCommits) := by
  have hopening : ("ci: ", "task") ∈ standardOpenings := by decide
  have habsent : ∀ other ∈ standardOpenings,
      ¬ other.1.toList <:+: "use \x7b\x7bcommitHash\x7d\x7d \x7bci:".toList := by
    simp [standardOpenings, List.infix_cons_iff]
  have hmem : (⟨"0123456789", "ci: use \x7b\x7bcommitHash\x7d\x7d \x7bci:", none, none⟩ : Commit) ∈
      openingCommits := by decide
  have htitle : "ci: use \x7b\x7bcommitHash\x7d\x7d \x7bci:" =
      "ci: " ++ "use \x7b\x7bcommitHash\x7d\x7d \x7bci:" := by decide
  obtain ⟨-, ⟨part, hpart, -⟩, hline⟩ := standard_shows_opening hopening habsent hmem rfl htitle
  have hshort : shortHash "0123456789" = "0123456" := by decide
  rw [hshort] at hline
  exact ⟨hopening, habsent, ⟨part, hpart⟩, hline (by simp) (by simp)⟩

end RuleSet

end ReleaseNotes
