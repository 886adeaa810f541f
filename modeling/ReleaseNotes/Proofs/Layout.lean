import ReleaseNotes.Proofs.Lines
import ReleaseNotes.Proofs.Sections

/-!
# The Layout of Notes

Which lines the notes for some commits have.

Titles are read off messages, and messages come in any form. A line is made of
a title that may have been reworded, and of a template that is filled. None of
these steps makes up a character: what stands in a filled template stands in the
template or in a value, and what stands in a reworded title stands in the title
or in something a rule has put in. So a line feed could only come from the rules,
or from a hash or an author, and if it is in none of them every commit has one
line.

The layout is said by the commits. It goes through the categories that some
commit goes under, in the order of their numbers, and does not mention sections
or documents. The list of contributors comes last, if it is wanted and there is
an author to be listed.

## Main definitions

* `RuleSet.OneLine`, `Commit.OneLine`: There is no line feed in their texts.
* `RuleSet.shown`: The categories that some commit goes under.
* `RuleSet.authors`: The authors of the commits under them.
* `RuleSet.layout`: The lines of the notes, block by block.

## Theorems

* `mem_of_mem_fill`, `mem_of_mem_reword`: Where the characters of a line come
  from.
* `RuleSet.blocks_document`: The blocks of a document are those of the layout.
* `RuleSet.notes_eq_empty_iff`: The notes are empty if no commit is placed.
* `RuleSet.pieces_notes`: The notes split at their line feeds.
-/

namespace ReleaseNotes

theorem Text.mem_of_mem_replaceFrom {search replacement : List Char} {skip : Nat}
    {text : List Char} {c : Char} (h : c ∈ replaceFrom search replacement skip text) :
    c ∈ text ∨ c ∈ replacement := by
  induction text generalizing skip with
  | nil =>
      rw [replaceFrom] at h
      cases h
  | cons first rest ih =>
      have hrest : ∀ skip, c ∈ replaceFrom search replacement skip rest →
          c ∈ first :: rest ∨ c ∈ replacement := by
        intro skip h
        exact (ih h).imp_left (List.mem_cons_of_mem _)
      cases skip with
      | succ skip =>
          rw [replaceFrom] at h
          exact hrest _ h
      | zero =>
          rw [replaceFrom] at h
          split at h
          · -- An occurrence: its characters are passed over in the rest.
            rcases List.mem_append.1 h with h | h
            · exact .inr h
            · exact hrest _ h
          · rcases List.mem_cons.1 h with rfl | h
            · exact .inl List.mem_cons_self
            · exact hrest _ h

/-- What stands in a reworded title was there before or has been put in by a
    rule. -/
theorem mem_of_mem_reword {rules : List TitleRule} {title : String} {c : Char}
    (h : c ∈ (reword rules title).toList) :
    c ∈ title.toList ∨ ∃ rule ∈ rules, c ∈ rule.replacement.toList := by
  rw [reword, String.toList_ofList] at h
  generalize title.toList = text at h ⊢
  induction rules generalizing text with
  | nil => exact .inl h
  | cons rule rest ih =>
      rw [List.foldl_cons] at h
      rcases ih _ h with h | ⟨other, hother, h⟩
      · unfold TitleRule.reword at h
        split at h
        · exact .inl h
        · exact (Text.mem_of_mem_replaceFrom h).imp_right fun h => ⟨rule, List.mem_cons_self, h⟩
      · exact .inr ⟨other, List.mem_cons_of_mem _ hother, h⟩

theorem Template.mem_of_mem_fillFrom {values : List (List Char × List Char)} {skip : Nat}
    {text : List Char} {c : Char} (h : c ∈ fillFrom values skip text) :
    c ∈ text ∨ ∃ value ∈ values, c ∈ value.2 := by
  induction text generalizing skip with
  | nil =>
      rw [fillFrom] at h
      cases h
  | cons first rest ih =>
      have hrest : ∀ skip, c ∈ fillFrom values skip rest →
          c ∈ first :: rest ∨ ∃ value ∈ values, c ∈ value.2 := by
        intro skip h
        exact (ih h).imp_left (List.mem_cons_of_mem _)
      cases skip with
      | succ skip =>
          rw [fillFrom] at h
          exact hrest _ h
      | zero =>
          rw [fillFrom] at h
          split at h
          · rename_i hopens
            split at h
            · rename_i placeholder value hfind
              rcases List.mem_append.1 h with h | h
              · exact .inr ⟨_, List.mem_of_find?_eq_some hfind, h⟩
              · exact hrest _ h
            · -- Both braces that are copied stand in the template.
              unfold opens at hopens
              split at hopens
              · rename_i heq
                rw [heq] at hrest ⊢
                rcases List.mem_cons.1 h with rfl | h
                · exact .inl List.mem_cons_self
                · rcases List.mem_cons.1 h with rfl | h
                  · exact .inl (List.mem_cons_of_mem _ List.mem_cons_self)
                  · exact hrest _ h
              · cases hopens
          · rcases List.mem_cons.1 h with rfl | h
            · exact .inl List.mem_cons_self
            · exact hrest _ h

/-- What stands in a filled template stands in the template or in a value. -/
theorem mem_of_mem_fill {template : String} {values : List (String × String)} {c : Char}
    (h : c ∈ (fill template values).toList) :
    c ∈ template.toList ∨ ∃ value ∈ values, c ∈ value.2.toList := by
  rw [fill, String.toList_ofList] at h
  refine (Template.mem_of_mem_fillFrom h).imp_right ?_
  rintro ⟨value, hvalue, h⟩
  obtain ⟨given, hgiven, rfl⟩ := List.mem_map.1 hvalue
  exact ⟨given, hgiven, h⟩

theorem mem_of_mem_shortHash {hash : String} {c : Char} (h : c ∈ (shortHash hash).toList) :
    c ∈ hash.toList := by
  rw [shortHash, String.toList_ofList] at h
  exact List.mem_of_mem_take h

/-- A filled template is one line if the template and the values are. -/
theorem newline_notMem_fill {template : String} {values : List (String × String)}
    (htemplate : '\n' ∉ template.toList) (hvalues : ∀ value ∈ values, '\n' ∉ value.2.toList) :
    '\n' ∉ (fill template values).toList := by
  intro h
  rcases mem_of_mem_fill h with h | ⟨value, hvalue, h⟩
  · exact htemplate h
  · exact hvalues value hvalue h

/-- There is no line feed in the texts of the rules that are written into the
    notes. -/
structure RuleSet.OneLine (rules : RuleSet) : Prop where
  entryFormat : '\n' ∉ rules.entryFormat.toList
  headingFormat : '\n' ∉ rules.headingFormat.toList
  contributorTitle : '\n' ∉ rules.contributors.title.toList
  contributorFormat : '\n' ∉ rules.contributors.format.toList
  categoryTitle : ∀ category ∈ rules.categories, '\n' ∉ category.title.toList
  categoryKey : ∀ category ∈ rules.categories, '\n' ∉ category.key.toList
  replacement : ∀ rule ∈ rules.titleRules, '\n' ∉ rule.replacement.toList

/-- The title of the commit was read off a message, which may be any text, and
    there is no line feed in its hash and its author. -/
structure Commit.OneLine (commit : Commit) : Prop where
  hash : '\n' ∉ commit.hash.toList
  title : ∃ message, commit.title = (Commit.ofMessage commit.hash message).title
  author : ∀ author ∈ commit.author, '\n' ∉ author.toList

namespace RuleSet

variable (rules : RuleSet) (commits : List Commit)

/-- The categories that some commit goes under, in the order of their numbers. -/
def shown : List Category :=
  rules.sortedCategories.filter fun category => !(rules.members commits category).isEmpty

/-- The heading of a category, then a line for each commit that goes under it. -/
def categoryLines (category : Category) : List String :=
  headingLine rules.headingFormat category ::
    (rules.members commits category).map fun commit =>
      entryLine rules.entryFormat (rules.entry commit)

/-- The authors of the commits that go under a category, each once, in the order
    in which a reader meets them. -/
def authors : List String :=
  ((rules.sortedCategories.flatMap (rules.members commits)).filterMap (·.author)).eraseDups

/-- The lines of the notes, block by block. Contributors are listed only if that
    is wanted and a commit that goes under a category has an author. -/
def layout : List (List String) :=
  (rules.shown commits).map (rules.categoryLines commits) ++
    if rules.contributors.enabled ∧
        ∃ commit ∈ commits, rules.Placed commit ∧ commit.author.isSome then
      [[rules.contributors.title,
        ", ".intercalate ((rules.authors commits).map (contributorName rules.contributors.format))]]
    else []

theorem mem_shown {category : Category} :
    category ∈ rules.shown commits ↔
      category ∈ rules.categories ∧ ∃ commit ∈ commits, rules.Home commit category := by
  rw [shown, List.mem_filter, mem_sortedCategories, Bool.not_eq_true',
    List.isEmpty_eq_false_iff_exists_mem]
  simp only [mem_members, home_iff]

section Document

variable {rules} (hrules : rules.check = .ok ())
include hrules

theorem pairwise_shown : (rules.shown commits).Pairwise fun a b => a.order < b.order :=
  (pairwise_sortedCategories hrules).filter _

theorem sections_eq_shown :
    (rules.document commits).sections = (rules.shown commits).map (rules.sectionOf commits) := by
  rw [sections_document commits hrules, List.filter_map, shown]
  refine congrArg (List.map _) (List.filter_congr fun category _ => ?_)
  simp only [Function.comp_apply, sectionOf, List.isEmpty_map]

theorem contributors_document :
    (rules.document commits).contributors = rules.authors commits := by
  rw [Document.contributors, entries_document commits hrules, List.filterMap_map, authors]
  refine congrArg List.eraseDups (List.filterMap_congr fun commit _ => ?_)
  exact rules.author_entry commit

theorem mem_authors {name : String} :
    name ∈ rules.authors commits ↔
      ∃ commit ∈ commits, rules.Placed commit ∧ commit.author = some name := by
  rw [authors, List.mem_eraseDups, List.mem_filterMap]
  simp only [(perm_members_sortedCategories commits hrules).mem_iff, List.mem_filter,
    decide_eq_true_eq, and_assoc]

theorem isEmpty_authors_iff :
    (rules.authors commits).isEmpty = false ↔
      ∃ commit ∈ commits, rules.Placed commit ∧ commit.author.isSome := by
  rw [List.isEmpty_eq_false_iff_exists_mem]
  simp only [mem_authors commits hrules, Option.isSome_iff_exists]
  constructor
  · rintro ⟨name, commit, hmem, hplaced, hauthor⟩
    exact ⟨commit, hmem, hplaced, name, hauthor⟩
  · rintro ⟨commit, hmem, hplaced, name, hauthor⟩
    exact ⟨name, commit, hmem, hplaced, hauthor⟩

/-- The blocks of a document are those of the layout. -/
theorem blocks_document : (rules.document commits).blocks rules = rules.layout commits := by
  rw [Document.blocks, layout, sections_eq_shown commits hrules, List.map_map]
  refine congrArg₂ (· ++ ·) (List.map_congr_left fun category _ => ?_) ?_
  · simp only [Function.comp_apply, sectionLines, sectionOf, categoryLines, List.map_map]
    rfl
  · -- There is an author to list if the list of authors is not empty.
    have hwhen : (rules.contributors.enabled && !(rules.authors commits).isEmpty) = true ↔
        rules.contributors.enabled ∧
          ∃ commit ∈ commits, rules.Placed commit ∧ commit.author.isSome := by
      rw [Bool.and_eq_true, Bool.not_eq_true', isEmpty_authors_iff commits hrules]
    rw [Document.contributorBlocks, contributors_document commits hrules]
    simp only [hwhen, contributorLines]

/-- The notes are empty if no commit goes under a category, and only then. -/
theorem notes_eq_empty_iff :
    rules.notes commits = "" ↔ ∀ commit ∈ commits, ¬rules.Placed commit := by
  rw [notes, Document.render_eq_empty_iff, sections_eq_shown commits hrules, List.map_eq_nil_iff,
    List.eq_nil_iff_forall_not_mem]
  constructor
  · -- A commit that goes under a category would have it shown.
    intro hnone commit hmem hplaced
    obtain ⟨category, hhome⟩ := (rules.placed_iff_exists_home commit).1 hplaced
    have hhome? := (rules.home_iff commit category).1 hhome
    exact hnone category ((rules.mem_shown commits).2
      ⟨rules.mem_categories_of_home? commit hhome?, commit, hmem, hhome⟩)
  · intro hnone category hmem
    obtain ⟨-, commit, hcommit, hhome⟩ := (rules.mem_shown commits).1 hmem
    exact hnone commit hcommit ((rules.placed_iff_exists_home commit).2 ⟨category, hhome⟩)

end Document

section OneLine

variable {rules commits} (hlines : rules.OneLine)
include hlines

theorem newline_notMem_headingLine {category : Category} (hmem : category ∈ rules.categories) :
    '\n' ∉ (headingLine rules.headingFormat category).toList := by
  refine newline_notMem_fill hlines.headingFormat ?_
  simp only [List.forall_mem_cons]
  exact ⟨hlines.categoryTitle category hmem, hlines.categoryKey category hmem, by simp⟩

/-- The title of an entry has no line feed, since the title of its commit has
    none and the rules put none in. -/
theorem newline_notMem_display {commit : Commit} (hcommit : commit.OneLine) :
    '\n' ∉ (rules.entry commit).display.toList := by
  obtain ⟨message, htitle⟩ := hcommit.title
  intro h
  rcases mem_of_mem_reword h with h | ⟨rule, hrule, h⟩
  · rw [htitle] at h
    exact Commit.newline_notMem_ofMessage _ _ h
  · exact hlines.replacement rule hrule h

theorem newline_notMem_entryLine {commit : Commit} (hcommit : commit.OneLine) :
    '\n' ∉ (entryLine rules.entryFormat (rules.entry commit)).toList := by
  refine newline_notMem_fill hlines.entryFormat ?_
  simp only [List.forall_mem_cons, hash_entry, author_entry]
  -- The four values: the short hash, the hash, the title and the author.
  refine ⟨fun h => hcommit.hash (mem_of_mem_shortHash h), hcommit.hash,
    newline_notMem_display hlines hcommit, ?_, by simp⟩
  cases hsome : commit.author with
  | none => simp
  | some author => exact hcommit.author author hsome

/-- All contributors stand on one line. -/
theorem newline_notMem_contributors {names : List String}
    (hnames : ∀ name ∈ names, '\n' ∉ name.toList) :
    '\n' ∉ (", ".intercalate
      (names.map (contributorName rules.contributors.format))).toList := by
  intro h
  rw [String.toList_intercalate] at h
  rcases mem_of_mem_intercalate h with h | ⟨text, htext, h⟩
  · -- Between the names there are a comma and a space only.
    revert h
    decide
  · simp only [List.mem_map] at htext
    obtain ⟨-, ⟨name, hname, rfl⟩, rfl⟩ := htext
    refine newline_notMem_fill hlines.contributorFormat ?_ h
    simp only [List.forall_mem_cons]
    exact ⟨hnames name hname, by simp⟩

theorem newline_notMem_layout (hrules : rules.check = .ok ())
    (hcommits : ∀ commit ∈ commits, commit.OneLine) :
    ∀ block ∈ rules.layout commits, ∀ line ∈ block, '\n' ∉ line.toList := by
  intro block hblock line hline
  rcases List.mem_append.1 hblock with hblock | hblock
  · obtain ⟨category, hcategory, rfl⟩ := List.mem_map.1 hblock
    rcases List.mem_cons.1 hline with rfl | hline
    · exact newline_notMem_headingLine hlines ((rules.mem_shown commits).1 hcategory).1
    · obtain ⟨commit, hcommit, rfl⟩ := List.mem_map.1 hline
      have hmem := ((rules.mem_members commits).1 hcommit).1
      exact newline_notMem_entryLine hlines (hcommits commit hmem)
  · split at hblock
    · rw [List.mem_singleton.1 hblock] at hline
      rcases List.mem_cons.1 hline with rfl | hline
      · exact hlines.contributorTitle
      · rw [List.mem_singleton.1 hline]
        refine newline_notMem_contributors hlines fun name hname => ?_
        obtain ⟨commit, hmem, -, hauthor⟩ := (mem_authors commits hrules).1 hname
        exact (hcommits commit hmem).author name hauthor
    · cases hblock

end OneLine

/-- The notes split at their line feeds are the lines of the layout, with an empty
    one between blocks and an empty piece behind the last line. -/
theorem pieces_notes (rules : RuleSet) (commits : List Commit) (hrules : rules.check = .ok ())
    (hlines : rules.OneLine) (hcommits : ∀ commit ∈ commits, commit.OneLine) :
    Text.pieces (rules.notes commits) = [""].intercalate (rules.layout commits) ++ [""] ∧
      ((rules.shown commits).Pairwise fun a b => a.order < b.order) ∧
      (∀ category, category ∈ rules.shown commits ↔
        category ∈ rules.categories ∧ ∃ commit ∈ commits, rules.Home commit category) ∧
      (rules.notes commits = "" ↔ ∀ commit ∈ commits, ¬rules.Placed commit) := by
  have hblocks := blocks_document commits hrules
  refine ⟨?_, pairwise_shown commits hrules, fun _ => rules.mem_shown commits,
    notes_eq_empty_iff commits hrules⟩
  rw [notes, Document.pieces_render, Document.lines, hblocks]
  rw [hblocks]
  exact newline_notMem_layout hlines hrules hcommits

/-- The standard rules with contributors listed. -/
def listing : RuleSet :=
  standard.listContributors true

/-- Commits whose messages end their first lines in different ways. -/
def messages : List Commit :=
  [(Commit.ofMessage "0123456789" (some "fix: a\r\nb")).withAuthor "Ann",
   Commit.ofMessage "1123456789" (some "feat: c\nd"), Commit.ofMessage "2" (some "\nfix: e"),
   (Commit.ofMessage "3" none).withAuthor "Bob"]

theorem pieces_listing_notes :
    (listing.check = .ok () ∧ listing.OneLine ∧ ∀ commit ∈ messages, commit.OneLine) ∧
      Text.pieces (listing.notes messages) =
        [""].intercalate (listing.layout messages) ++ [""] := by
  have hlines : listing.OneLine := by
    constructor <;> decide
  have hcommits : ∀ commit ∈ messages, commit.OneLine := by
    simp only [messages, List.forall_mem_cons]
    refine ⟨⟨by decide, ⟨some "fix: a\r\nb", rfl⟩, by decide⟩,
      ⟨by decide, ⟨some "feat: c\nd", rfl⟩, by decide⟩,
      ⟨by decide, ⟨some "\nfix: e", rfl⟩, by decide⟩, ⟨by decide, ⟨none, rfl⟩, by decide⟩, by simp⟩
  exact ⟨⟨rfl, hlines, hcommits⟩, (pieces_notes listing messages rfl hlines hcommits).1⟩

end RuleSet

end ReleaseNotes
