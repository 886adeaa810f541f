import ReleaseNotes.Rendering

/-!
# The Lines of a Text

What comes out when a rendered document is split at its line feeds.

A document is rendered block by block, and blocks are joined by a line feed. As
every line is closed by one already, that line feed is a line of its own, an
empty one, and the blocks with these empty lines between them are nothing but
one list of lines. So nothing has to be said about joining blocks besides
`render_eq_closeLines`.

If no line has a line feed in it, splitting gives back the lines, and an empty
piece behind the last line feed. So two texts agree only if their lines do. Other lines
are split further, but that does not matter to a line without a line feed: splitting
gives it back among whatever lines it stands.

## Main definitions

* `Text.pieces`: A text split at its line feeds.
* `Document.lines`: The lines of a document, blank ones included.

## Theorems

* `pieces_closeLines`: Splitting gives back the lines.
* `mem_pieces_closeLines`: It gives back a line without a line feed in any case.
* `Document.render_eq_closeLines`: A document is rendered line by line.
* `Document.pieces_render`: A rendered document is split into its lines.
* `Document.mem_pieces_render`: What lines are given back in any case.
* `Document.render_eq_empty_iff`: Which documents are rendered as the empty
  text.
-/

namespace ReleaseNotes

namespace Text

/-- What stands between the line feeds of a text. -/
def pieces (text : String) : List String :=
  (text.split '\n').toList.map (·.copy)

end Text

@[simp]
theorem closeLines_nil : closeLines [] = "" :=
  String.join_nil

@[simp]
theorem closeLines_append (lines others : List String) :
    closeLines (lines ++ others) = closeLines lines ++ closeLines others := by
  rw [closeLines, List.map_append, String.join_append, closeLines, closeLines]

/-- Closing lines is joining them, with nothing behind the last one. -/
theorem closeLines_eq_intercalate (lines : List String) :
    closeLines lines = "\n".intercalate (lines ++ [""]) := by
  induction lines with
  | nil => simp
  | cons line rest ih =>
      have hne : rest ++ [""] ≠ [] := by simp
      rw [List.cons_append, String.intercalate_cons_of_ne_nil hne, ← ih, closeLines,
        List.map_cons, String.join_cons]
      rfl

/-- Splitting gives back the lines if none of them has a line feed in it. -/
theorem pieces_closeLines {lines : List String} (h : ∀ line ∈ lines, '\n' ∉ line.toList) :
    Text.pieces (closeLines lines) = lines ++ [""] := by
  have hall : ∀ piece ∈ lines ++ [""], '\n' ∉ piece.toList := by
    intro piece hpiece
    rcases List.mem_append.1 hpiece with hpiece | hpiece
    · exact h piece hpiece
    · rw [List.mem_singleton.1 hpiece]
      simp
  have hsplit := String.toList_split_intercalate hall
  rw [if_neg (by simp)] at hsplit
  rw [closeLines_eq_intercalate]
  exact hsplit

/-- What stands behind a closed line is split by itself. -/
theorem pieces_append (line text : String) :
    Text.pieces (line ++ "\n" ++ text) = Text.pieces line ++ Text.pieces text := by
  have hchars : (line ++ "\n" ++ text).toList = line.toList ++ '\n' :: text.toList := by
    rw [String.toList_append, String.toList_append, List.append_assoc]
    rfl
  simp only [Text.pieces, String.toList_split_char, hchars, List.splitOn_append_cons_self,
    List.map_append]

/-- Splitting gives back a line without a line feed, whatever other lines there are. -/
theorem mem_pieces_closeLines {lines : List String} {line : String} (hmem : line ∈ lines)
    (hline : '\n' ∉ line.toList) : line ∈ Text.pieces (closeLines lines) := by
  induction lines with
  | nil => cases hmem
  | cons first rest ih =>
      have hclose : closeLines (first :: rest) = first ++ "\n" ++ closeLines rest := by
        rw [closeLines, List.map_cons, String.join_cons]
        rfl
      rw [hclose, pieces_append, List.mem_append]
      rcases List.mem_cons.1 hmem with rfl | hmem
      · left
        simp only [Text.pieces, String.toList_split_char, List.splitOn_eq_singleton hline,
          List.map_singleton, String.ofList_toList, List.mem_singleton]
      · exact .inr (ih hmem)

/-- Lines without line feeds are told by the text. -/
theorem closeLines_inj {lines others : List String} (h : ∀ line ∈ lines, '\n' ∉ line.toList)
    (hothers : ∀ line ∈ others, '\n' ∉ line.toList)
    (heq : closeLines lines = closeLines others) : lines = others := by
  have hpieces := congrArg Text.pieces heq
  rw [pieces_closeLines h, pieces_closeLines hothers] at hpieces
  exact List.append_cancel_right hpieces

/-- A line feed between closed blocks is an empty line between them. -/
theorem intercalate_closeLines (blocks : List (List String)) :
    "\n".intercalate (blocks.map closeLines) = closeLines ([""].intercalate blocks) := by
  induction blocks with
  | nil => simp
  | cons block rest ih =>
      cases rest with
      | nil => simp
      | cons next rest =>
          -- The line feed between two blocks closes an empty line.
          rw [List.map_cons, String.intercalate_cons_of_ne_nil (by simp), ih,
            List.intercalate_cons_cons, closeLines_append, closeLines_append]
          rfl

/-- What stands in joined lists stands between them or in one of them. -/
theorem mem_of_mem_intercalate {α : Type} {between : List α} {lists : List (List α)} {a : α}
    (h : a ∈ between.intercalate lists) : a ∈ between ∨ ∃ list ∈ lists, a ∈ list := by
  induction lists with
  | nil => cases h
  | cons list rest ih =>
      cases rest with
      | nil =>
          rw [List.intercalate_singleton] at h
          exact .inr ⟨list, List.mem_cons_self, h⟩
      | cons next rest =>
          rw [List.intercalate_cons_cons, List.mem_append, List.mem_append] at h
          rcases h with (h | h) | h
          · exact .inr ⟨list, List.mem_cons_self, h⟩
          · exact .inl h
          · refine (ih h).imp_right ?_
            rintro ⟨other, hother, ha⟩
            exact ⟨other, List.mem_cons_of_mem _ hother, ha⟩

/-- What stands in a list stands in the joined lists. -/
theorem mem_intercalate {α : Type} {between : List α} {lists : List (List α)} {list : List α}
    {a : α} (hlist : list ∈ lists) (ha : a ∈ list) : a ∈ between.intercalate lists := by
  induction lists with
  | nil => cases hlist
  | cons first rest ih =>
      cases rest with
      | nil =>
          rw [List.intercalate_singleton, ← List.mem_singleton.1 hlist]
          exact ha
      | cons next rest =>
          rw [List.intercalate_cons_cons, List.mem_append, List.mem_append]
          rcases List.mem_cons.1 hlist with rfl | hlist
          · exact .inl (.inl ha)
          · exact .inr (ih hlist)

theorem intercalate_eq_nil_iff {between : List String} {blocks : List (List String)}
    (h : ∀ block ∈ blocks, block ≠ []) : between.intercalate blocks = [] ↔ blocks = [] := by
  cases blocks with
  | nil => simp
  | cons block rest =>
      have hblock := h block List.mem_cons_self
      cases rest with
      | nil => simp [hblock]
      | cons next rest => simp [List.intercalate_cons_cons, hblock]

theorem closeLines_eq_empty_iff {lines : List String} : closeLines lines = "" ↔ lines = [] := by
  cases lines with
  | nil => simp
  | cons line rest => simp [closeLines, String.append_eq_empty_iff]

namespace Document

/-- The lines of a document, with an empty one between blocks. -/
def lines (rules : RuleSet) (document : Document) : List String :=
  [""].intercalate (document.blocks rules)

/-- A document is rendered line by line. -/
theorem render_eq_closeLines (rules : RuleSet) (document : Document) :
    document.render rules = closeLines (document.lines rules) :=
  intercalate_closeLines _

theorem newline_notMem_lines {rules : RuleSet} {document : Document}
    (h : ∀ block ∈ document.blocks rules, ∀ line ∈ block, '\n' ∉ line.toList) :
    ∀ line ∈ document.lines rules, '\n' ∉ line.toList := by
  intro line hline
  rcases mem_of_mem_intercalate hline with hempty | ⟨block, hblock, hline⟩
  · rw [List.mem_singleton.1 hempty]
    simp
  · exact h block hblock line hline

/-- A rendered document is split into its lines. -/
theorem pieces_render {rules : RuleSet} {document : Document}
    (h : ∀ block ∈ document.blocks rules, ∀ line ∈ block, '\n' ∉ line.toList) :
    Text.pieces (document.render rules) = document.lines rules ++ [""] := by
  rw [render_eq_closeLines]
  exact pieces_closeLines (newline_notMem_lines h)

/-- A line of a block that has no line feed in it is given back when the rendered
    document is split. -/
theorem mem_pieces_render {rules : RuleSet} {document : Document} {block : List String}
    {line : String} (hblock : block ∈ document.blocks rules) (hmem : line ∈ block)
    (hline : '\n' ∉ line.toList) : line ∈ Text.pieces (document.render rules) := by
  rw [render_eq_closeLines]
  exact mem_pieces_closeLines (mem_intercalate hblock hmem) hline

theorem ne_nil_of_mem_blocks {rules : RuleSet} {document : Document} :
    ∀ block ∈ document.blocks rules, block ≠ [] := by
  intro block hblock
  rcases List.mem_append.1 hblock with hblock | hblock
  · obtain ⟨part, -, rfl⟩ := List.mem_map.1 hblock
    exact List.cons_ne_nil _ _
  · unfold contributorBlocks at hblock
    split at hblock
    · rw [List.mem_singleton.1 hblock]
      exact List.cons_ne_nil _ _
    · cases hblock

/-- There are no contributors without sections. -/
theorem contributorBlocks_eq_nil {rules : ContributorRules} {document : Document}
    (h : document.sections = []) : document.contributorBlocks rules = [] := by
  simp [contributorBlocks, contributors, entries, h]

/-- Only a document without sections is rendered as the empty text. -/
theorem render_eq_empty_iff (rules : RuleSet) (document : Document) :
    document.render rules = "" ↔ document.sections = [] := by
  rw [render_eq_closeLines, closeLines_eq_empty_iff, lines,
    intercalate_eq_nil_iff ne_nil_of_mem_blocks, blocks, List.append_eq_nil_iff,
    List.map_eq_nil_iff]
  exact ⟨And.left, fun h => ⟨h, contributorBlocks_eq_nil h⟩⟩

end Document

end ReleaseNotes
