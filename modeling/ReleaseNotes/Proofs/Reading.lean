import ReleaseNotes.Proofs.Layout

/-!
# Reading Notes Back

What the text of a document tells when it was rendered by the standard rules.

The text is read from the outside. It tells the lines, as none of them has a line
feed in it. The lines tell the blocks: a heading opens with two number signs and
an entry with a hyphen, whatever comes behind that, so no line is empty but the
ones between blocks. A block tells the title of its category and its entries, and
an entry tells the short hash and the title it is shown with, as the first space
behind the hyphen is the one behind the hash.

Titles are not looked into anywhere. They can be empty, or look like another line
or like a slot, and are still told apart from what is around them by where they
stand.

## Main definitions

* `Section.outline`: What a reader sees of a section.
* `Document.Readable`: What must not be in the texts of a document.

## Theorems

* `toList_standard_entryLine`, `toList_standard_headingLine`: The lines of the
  standard rules.
* `intercalate_inj`: Joined blocks can be told apart.
* `Section.outline_eq_of_lines_eq`: The lines of a section tell its outline.
* `Document.outlines_eq_of_render_eq`: A text tells the outlines of its sections.
-/

namespace ReleaseNotes

/-- The line of an entry by the standard rules. -/
theorem toList_standard_entryLine (entry : Entry) :
    (entryLine RuleSet.standard.entryFormat entry).toList =
      '-' :: ' ' :: ((shortHash entry.commit.hash).toList ++ ' ' :: entry.display.toList) := by
  simp [entryLine, fill, slot, RuleSet.standard, RuleSet.standardEntryFormat, Template.fillFrom,
    Template.opens]

/-- The heading of a category by the standard rules. -/
theorem toList_standard_headingLine (category : Category) :
    (headingLine RuleSet.standard.headingFormat category).toList =
      '#' :: '#' :: ' ' :: category.title.toList := by
  simp [headingLine, fill, slot, RuleSet.standard, RuleSet.standardHeadingFormat,
    Template.fillFrom, Template.opens]

/-- Two texts joined by a character that is not in the first one can be told
    apart. -/
theorem append_cons_inj {α : Type} [DecidableEq α] {a : α} {first second first' second' : List α}
    (h : a ∉ first) (h' : a ∉ first') (heq : first ++ a :: second = first' ++ a :: second') :
    first = first' ∧ second = second' := by
  -- Splitting at the character gives the first text as the first piece.
  have hsplit := congrArg (List.splitOn a) heq
  rw [List.splitOn_append_cons_self_of_not_mem h,
    List.splitOn_append_cons_self_of_not_mem h'] at hsplit
  obtain ⟨rfl, -⟩ := List.cons.inj hsplit
  exact ⟨rfl, (List.cons.inj (List.append_cancel_left heq)).2⟩

/-- Blocks joined by empty lines can be told apart if none of them is empty or has
    an empty line in it. -/
theorem intercalate_inj {blocks others : List (List String)}
    (hblocks : ∀ block ∈ blocks, block ≠ [] ∧ "" ∉ block)
    (hothers : ∀ block ∈ others, block ≠ [] ∧ "" ∉ block)
    (heq : [""].intercalate blocks = [""].intercalate others) : blocks = others := by
  have hnil : [""].intercalate blocks = [] ↔ blocks = [] :=
    intercalate_eq_nil_iff fun block h => (hblocks block h).1
  have hnil' : [""].intercalate others = [] ↔ others = [] :=
    intercalate_eq_nil_iff fun block h => (hothers block h).1
  rw [heq, hnil'] at hnil
  by_cases hempty : others = []
  · exact (hnil.1 hempty).trans hempty.symm
  · have hblocks' : blocks ≠ [] := fun h => hempty (hnil.2 h)
    rw [← List.splitOn_intercalate "" (fun block h => (hblocks block h).2) hblocks', heq,
      List.splitOn_intercalate "" (fun block h => (hothers block h).2) hempty]

/-- What one map tells apart as far as another one does, it tells apart in lists
    as well. -/
theorem map_eq_map_of {α β γ : Type} {f : α → β} {g : α → γ} {list other : List α}
    (h : ∀ a ∈ list, ∀ b ∈ other, f a = f b → g a = g b) (heq : list.map f = other.map f) :
    list.map g = other.map g := by
  induction list generalizing other with
  | nil =>
      rw [List.map_nil, eq_comm, List.map_eq_nil_iff] at heq
      rw [heq]
  | cons a rest ih =>
      cases other with
      | nil => cases heq
      | cons b others =>
          rw [List.map_cons, List.map_cons, List.cons.injEq] at heq
          rw [List.map_cons, List.map_cons, h a List.mem_cons_self b List.mem_cons_self heq.1,
            ih (fun a ha b hb => h a (List.mem_cons_of_mem _ ha) b (List.mem_cons_of_mem _ hb))
              heq.2]

namespace Section

/-- What a reader sees of a section: the title of its category, and for each
    entry the short hash and the title. -/
def outline (part : Section) : String × List (String × String) :=
  (part.category.title,
    part.entries.map fun entry => (shortHash entry.commit.hash, entry.display))

/-- No title of the section has a line feed in it, and no hash a line feed or a
    space. -/
structure Readable (part : Section) : Prop where
  title : '\n' ∉ part.category.title.toList
  display : ∀ entry ∈ part.entries, '\n' ∉ entry.display.toList
  hash : ∀ entry ∈ part.entries,
    '\n' ∉ entry.commit.hash.toList ∧ ' ' ∉ entry.commit.hash.toList

variable {part other : Section}

theorem newline_notMem_lines (h : part.Readable) :
    ∀ line ∈ sectionLines .standard part, '\n' ∉ line.toList := by
  intro line hline
  rcases List.mem_cons.1 hline with rfl | hline
  · rw [toList_standard_headingLine]
    simpa using h.title
  · obtain ⟨entry, hentry, rfl⟩ := List.mem_map.1 hline
    have hshort : '\n' ∉ (shortHash entry.commit.hash).toList :=
      fun hmem => (h.hash entry hentry).1 (mem_of_mem_shortHash hmem)
    rw [toList_standard_entryLine]
    simpa [hshort] using h.display entry hentry

/-- No line of a section is empty. -/
theorem empty_notMem_lines : "" ∉ sectionLines .standard part := by
  intro hmem
  rcases List.mem_cons.1 hmem with hline | hmem
  · have hlist := congrArg String.toList hline
    rw [toList_standard_headingLine] at hlist
    cases hlist
  · obtain ⟨entry, -, hline⟩ := List.mem_map.1 hmem
    have hlist := congrArg String.toList hline
    rw [toList_standard_entryLine] at hlist
    cases hlist

/-- The line of an entry tells its short hash and the title it is shown with. -/
theorem entry_eq_of_line_eq {entry other : Entry} (hentry : ' ' ∉ entry.commit.hash.toList)
    (hother : ' ' ∉ other.commit.hash.toList)
    (h : entryLine RuleSet.standard.entryFormat entry =
      entryLine RuleSet.standard.entryFormat other) :
    (shortHash entry.commit.hash, entry.display) =
      (shortHash other.commit.hash, other.display) := by
  have hlist := congrArg String.toList h
  rw [toList_standard_entryLine, toList_standard_entryLine, List.cons.injEq, List.cons.injEq]
    at hlist
  obtain ⟨hhash, hdisplay⟩ := append_cons_inj (fun hmem => hentry (mem_of_mem_shortHash hmem))
    (fun hmem => hother (mem_of_mem_shortHash hmem)) hlist.2.2
  rw [String.toList_inj.1 hhash, String.toList_inj.1 hdisplay]

/-- The lines of a section tell its outline. -/
theorem outline_eq_of_lines_eq (h : part.Readable) (hother : other.Readable)
    (heq : sectionLines .standard part = sectionLines .standard other) :
    part.outline = other.outline := by
  obtain ⟨hheading, hentries⟩ := List.cons.inj heq
  have htitle : part.category.title = other.category.title := by
    have hlist := congrArg String.toList hheading
    rw [toList_standard_headingLine, toList_standard_headingLine] at hlist
    simpa [String.toList_inj] using hlist
  refine Prod.ext htitle (map_eq_map_of ?_ hentries)
  intro entry hentry entry' hentry' hline
  exact entry_eq_of_line_eq (h.hash entry hentry).2 (hother.hash entry' hentry').2 hline

end Section

namespace Document

variable {document other : Document}

/-- The standard rules list no contributors. -/
theorem blocks_standard (document : Document) :
    document.blocks .standard = document.sections.map (sectionLines .standard) :=
  List.append_nil _

theorem newline_notMem_blocks (h : ∀ part ∈ document.sections, part.Readable) :
    ∀ block ∈ document.blocks .standard, ∀ line ∈ block, '\n' ∉ line.toList := by
  rw [blocks_standard]
  intro block hblock
  obtain ⟨part, hpart, rfl⟩ := List.mem_map.1 hblock
  exact Section.newline_notMem_lines (h part hpart)

theorem empty_notMem_blocks : ∀ block ∈ document.blocks .standard, block ≠ [] ∧ "" ∉ block := by
  rw [blocks_standard]
  intro block hblock
  obtain ⟨part, -, rfl⟩ := List.mem_map.1 hblock
  exact ⟨List.cons_ne_nil _ _, Section.empty_notMem_lines⟩

/-- Documents with the same text show the same sections: in the same order, with
    the same titles, short hashes and titles of entries. -/
theorem outlines_eq_of_render_eq (document other : Document)
    (h : ∀ part ∈ document.sections, part.Readable)
    (hother : ∀ part ∈ other.sections, part.Readable)
    (heq : document.render .standard = other.render .standard) :
    document.sections.map Section.outline = other.sections.map Section.outline := by
  -- From the text to its lines, and from them to the blocks.
  rw [render_eq_closeLines, render_eq_closeLines] at heq
  have hlines : document.lines .standard = other.lines .standard :=
    closeLines_inj (newline_notMem_lines (newline_notMem_blocks h))
      (newline_notMem_lines (newline_notMem_blocks hother)) heq
  have hblocks : document.blocks .standard = other.blocks .standard :=
    intercalate_inj empty_notMem_blocks empty_notMem_blocks hlines
  rw [blocks_standard, blocks_standard] at hblocks
  refine map_eq_map_of ?_ hblocks
  intro part hpart part' hpart' heq
  exact Section.outline_eq_of_lines_eq (h part hpart) (hother part' hpart') heq

/-- A document of one section with two entries. The title of the first one looks
    like a line of the text, and that of the second one is empty. -/
def disguised (key : String) (hashes : String × String) : Document where
  sections :=
    [⟨⟨key, "- a", .ofList [], 1⟩,
      [⟨{ hash := hashes.1, title := "" }, "## \x7b\x7bcommitTitle\x7d\x7d"⟩,
        ⟨{ hash := hashes.2, title := "" }, ""⟩]⟩]
  inhabited := by simp
  ascending := List.pairwise_singleton _ _

theorem disguised_outlines_eq :
    let document := disguised "a" ("0123456789", "b")
    let other := disguised "c" ("0123456", "b")
    (∀ part ∈ document.sections, part.Readable) ∧ (∀ part ∈ other.sections, part.Readable) ∧
      document.render .standard = other.render .standard ∧
      document.sections.map Section.outline = other.sections.map Section.outline := by
  have h : ∀ part ∈ (disguised "a" ("0123456789", "b")).sections, part.Readable := by
    intro part hpart
    rw [List.mem_singleton.1 hpart]
    constructor <;> decide
  have hother : ∀ part ∈ (disguised "c" ("0123456", "b")).sections, part.Readable := by
    intro part hpart
    rw [List.mem_singleton.1 hpart]
    constructor <;> decide
  have heq : (disguised "a" ("0123456789", "b")).render .standard =
      (disguised "c" ("0123456", "b")).render .standard := rfl
  exact ⟨h, hother, heq, outlines_eq_of_render_eq _ _ h hother heq⟩

end Document

end ReleaseNotes
