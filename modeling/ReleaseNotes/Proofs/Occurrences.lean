import Mathlib.Logic.ExistsUnique
import ReleaseNotes.TitleRule

/-!
# Occurrences in Titles

What a title rule does to the occurrences of its search text, told without the scan
that is made.

A text is cut at the leftmost occurrence of the search text, what stands behind it is
cut at the leftmost occurrence there, and so on until there is none. Cuts never
overlap, since each is looked for behind the one before. There is one way only to cut
a text, and a rule joins the pieces with its replacement. What is put in stands between
pieces and in none of them, so the rule that put it in does not search it. The next
rule gets the joined text, and cuts that.

The scan goes by single characters and has two cases: an occurrence starts here
(`replaceAll_append`), or none does (`replaceAll_cons`). They lead to an induction over
what stands before the leftmost occurrence, which gives the scan up to one cut, and
from there to an induction over the cuts.

A marker is a text that has no character in common with a title. Written for a search
text it can be found again, which is less plain than it looks: where two occurrences
meet, two markers stand side by side, and a marker that overlaps itself might be met
between them. The leftmost one is in step all the same. It cannot start in a piece,
because its first character would stand there, so it starts where the piece ends, and
what follows it is in the same situation again. So the marker cuts the reworded title
into the pieces of the title.

## Main definitions

* `Text.Leftmost`: What stands before and behind the leftmost occurrence of a text.
* `Text.Cuts`: The pieces that a text is cut into.
* `TitleRule.Rewords`: What one rule makes of a text.
* `Rewords`: What a list of rules makes of a text.

## Theorems

* `Text.existsUnique_cuts`: There is one way to cut a text.
* `Text.Cuts.replaceAll_eq`: Replacing is joining the pieces.
* `Text.cuts_intercalate`: Pieces joined with a marker are cut apart by it.
* `reword_eq_iff`: What a list of rules makes of a title.
* `reword_restores`: A marker can be turned back.
-/

namespace ReleaseNotes

namespace Text

/-- The leftmost occurrence of the search text stands between these two parts of the
    text. -/
structure Leftmost (search text before after : List Char) : Prop where
  split : text = before ++ search ++ after
  first : ∀ others rest, text = others ++ search ++ rest → before.length ≤ others.length

/-- The pieces that a text is cut into by a search text. The first one ends where the
    search text occurs first, and the others are those of what stands behind that
    occurrence. A text in which the search text does not occur is one piece. -/
inductive Cuts (search : List Char) : List Char → List (List Char) → Prop
  | whole {text : List Char} (h : ¬ search <:+: text) : Cuts search text [text]
  | cut {text before after : List Char} {pieces : List (List Char)}
      (hfirst : Leftmost search text before after) (hafter : Cuts search after pieces) :
      Cuts search text (before :: pieces)

section

variable {search replacement text before after rest : List Char} {c : Char}
  {pieces : List (List Char)}

theorem replaceAll_append (hsearch : search ≠ []) (after : List Char) :
    replaceAll search replacement (search ++ after) =
      replacement ++ replaceAll search replacement after := by
  obtain ⟨s, others, rfl⟩ := List.exists_cons_of_ne_nil hsearch
  have hstarts : (s :: others).isPrefixOf (s :: (others ++ after)) = true :=
    List.isPrefixOf_iff_prefix.2 (List.prefix_append (s :: others) after)
  -- The other characters of the occurrence are passed over.
  rw [replaceAll, List.cons_append, replaceFrom, if_pos hstarts, List.length_cons,
    Nat.add_sub_cancel, replaceFrom_eq_drop, List.drop_left, replaceAll]

theorem replaceAll_cons (h : ¬ search <+: c :: rest) :
    replaceAll search replacement (c :: rest) = c :: replaceAll search replacement rest := by
  rw [← List.isPrefixOf_iff_prefix] at h
  rw [replaceAll, replaceFrom, if_neg h, replaceAll]

theorem replaceAll_of_absent (h : ¬ search <:+: text) :
    replaceAll search replacement text = text := by
  induction text with
  | nil => rfl
  | cons c rest ih =>
      rw [List.infix_cons_iff, not_or] at h
      rw [replaceAll_cons h.1, ih h.2]

namespace Leftmost

theorem isInfix (h : Leftmost search text before after) : search <:+: text :=
  ⟨before, after, h.split.symm⟩

/-- What stands before the leftmost occurrence tells where it is. -/
theorem unique {before' after' : List Char} (h : Leftmost search text before after)
    (h' : Leftmost search text before' after') : before = before' ∧ after = after' := by
  -- Neither occurrence stands further left than the other.
  have hlength : before.length = before'.length :=
    Nat.le_antisymm (h.first _ _ h'.split) (h'.first _ _ h.split)
  have hsplit := h.split.symm.trans h'.split
  rw [List.append_assoc, List.append_assoc] at hsplit
  obtain ⟨hbefore, hrest⟩ := List.append_inj hsplit hlength
  exact ⟨hbefore, List.append_cancel_left hrest⟩

/-- What starts with the search text has its leftmost occurrence there. -/
theorem start (after : List Char) : Leftmost search (search ++ after) [] after where
  split := rfl
  first _ _ _ := Nat.zero_le _

/-- The leftmost occurrence stays the leftmost one behind a character at which none
    starts. -/
theorem cons (hnot : ¬ search <+: c :: rest) (h : Leftmost search rest before after) :
    Leftmost search (c :: rest) (c :: before) after where
  split := congrArg (c :: ·) h.split
  first others rest' hsplit := by
    cases others with
    | nil => exact absurd ⟨rest', hsplit.symm⟩ hnot
    | cons d others =>
        exact Nat.succ_le_succ (h.first others rest' (List.cons.inj hsplit).2)

theorem tail (h : Leftmost search (c :: rest) (c :: before) after) :
    Leftmost search rest before after where
  split := (List.cons.inj h.split).2
  first others rest' hsplit :=
    Nat.le_of_succ_le_succ (h.first (c :: others) rest' (congrArg (c :: ·) hsplit))

/-- No occurrence starts before the leftmost one. -/
theorem not_starts (h : Leftmost search (c :: rest) (c :: before) after) :
    ¬ search <+: c :: rest := by
  rintro ⟨rest', hrest'⟩
  exact Nat.not_succ_le_zero _ (h.first [] rest' hrest'.symm)

/-- Replacing goes up to the leftmost occurrence, and on behind it. -/
theorem replaceAll_eq (hsearch : search ≠ []) (h : Leftmost search text before after) :
    replaceAll search replacement text =
      before ++ replacement ++ replaceAll search replacement after := by
  induction before generalizing text with
  | nil =>
      rw [h.split]
      exact replaceAll_append hsearch after
  | cons c before ih =>
      obtain rfl : text = c :: (before ++ search ++ after) := h.split
      rw [replaceAll_cons h.not_starts, ih h.tail]
      rfl

end Leftmost

/-- A text that occurs has a leftmost occurrence. -/
theorem exists_leftmost (h : search <:+: text) :
    ∃ before after, Leftmost search text before after := by
  induction text with
  | nil =>
      obtain rfl := List.infix_nil.1 h
      exact ⟨[], [], .start []⟩
  | cons c rest ih =>
      -- If none starts here, the leftmost one of the rest is the leftmost one.
      by_cases hstarts : search <+: c :: rest
      · obtain ⟨after, hafter⟩ := hstarts
        rw [← hafter]
        exact ⟨[], after, .start after⟩
      · obtain ⟨before, after, hfirst⟩ := ih ((List.infix_cons_iff.1 h).resolve_left hstarts)
        exact ⟨c :: before, after, hfirst.cons hstarts⟩

namespace Cuts

theorem ne_nil (h : Cuts search text pieces) : pieces ≠ [] := by
  cases h <;> exact List.cons_ne_nil _ _

/-- Joined with the search text, the pieces are the text. -/
theorem intercalate_eq (h : Cuts search text pieces) : search.intercalate pieces = text := by
  induction h with
  | whole h => exact List.intercalate_singleton
  | cut hfirst hafter ih =>
      rw [List.intercalate_cons_of_ne_nil hafter.ne_nil, ih, hfirst.split]

theorem subset (h : Cuts search text pieces) : ∀ piece ∈ pieces, piece ⊆ text := by
  induction h with
  | whole h =>
      intro piece hpiece
      rw [List.mem_singleton.1 hpiece]
      exact List.Subset.refl _
  | @cut text before after pieces hfirst hafter ih =>
      rw [hfirst.split, List.append_assoc]
      refine List.forall_mem_cons.2 ⟨List.subset_append_left _ _, fun piece hpiece c hc => ?_⟩
      exact List.mem_append_right _ (List.mem_append_right _ (ih piece hpiece hc))

theorem unique {others : List (List Char)} (h : Cuts search text pieces)
    (h' : Cuts search text others) : pieces = others := by
  induction h generalizing others with
  | whole hnot =>
      cases h' with
      | whole => rfl
      | cut hfirst hafter => exact absurd hfirst.isInfix hnot
  | cut hfirst hafter ih =>
      cases h' with
      | whole hnot => exact absurd hfirst.isInfix hnot
      | cut hfirst' hafter' =>
          obtain ⟨rfl, rfl⟩ := hfirst.unique hfirst'
          rw [ih hafter']

/-- Replacing is joining the pieces with the replacement. -/
theorem replaceAll_eq (hsearch : search ≠ []) (h : Cuts search text pieces) :
    replaceAll search replacement text = replacement.intercalate pieces := by
  induction h with
  | whole hnot => rw [replaceAll_of_absent hnot, List.intercalate_singleton]
  | cut hfirst hafter ih =>
      rw [hfirst.replaceAll_eq hsearch, ih, List.intercalate_cons_of_ne_nil hafter.ne_nil]

end Cuts

/-- A text can be cut, since what stands behind an occurrence is shorter. -/
theorem exists_cuts (hsearch : search ≠ []) (text : List Char) :
    ∃ pieces, Cuts search text pieces := by
  induction hlength : text.length using Nat.strongRecOn generalizing text with
  | ind length ih =>
      by_cases hoccurs : search <:+: text
      · obtain ⟨before, after, hfirst⟩ := exists_leftmost hoccurs
        have hshorter : after.length < length := by
          have hpos : 0 < search.length := List.length_pos_iff.2 hsearch
          rw [← hlength, hfirst.split, List.length_append, List.length_append]
          omega
        obtain ⟨pieces, hpieces⟩ := ih after.length hshorter after rfl
        exact ⟨before :: pieces, .cut hfirst hpieces⟩
      · exact ⟨[text], .whole hoccurs⟩

/-- There is one way to cut a text. -/
theorem existsUnique_cuts (hsearch : search ≠ []) (text : List Char) :
    ∃! pieces, Cuts search text pieces := by
  obtain ⟨pieces, hpieces⟩ := exists_cuts hsearch text
  exact ⟨pieces, hpieces, fun others hothers => hothers.unique hpieces⟩

/-- A marker does not start in a text that has none of its characters. So behind that
    text it occurs at once. -/
theorem leftmost_of_fresh {marker : List Char} (hmarker : marker ≠ [])
    (hfresh : ∀ c ∈ marker, c ∉ before) (after : List Char) :
    Leftmost marker (before ++ marker ++ after) before after where
  split := rfl
  first others rest hsplit := by
    rw [List.append_assoc, List.append_assoc] at hsplit
    -- Another occurrence starts behind the text, where it ends, or in it.
    rcases List.append_eq_append_iff.1 hsplit with ⟨more, rfl, -⟩ | ⟨more, hmore, hrest⟩
    · rw [List.length_append]
      exact Nat.le_add_right _ _
    · cases more with
      | nil => exact Nat.le_of_eq (congrArg List.length (hmore.trans (List.append_nil _)))
      | cons c more =>
          -- Then the marker starts with a character of the text.
          obtain ⟨m, ms, rfl⟩ := List.exists_cons_of_ne_nil hmarker
          obtain ⟨rfl, -⟩ := List.cons.inj hrest
          refine absurd ?_ (hfresh m List.mem_cons_self)
          rw [hmore]
          exact List.mem_append_right _ List.mem_cons_self

/-- Pieces joined with a marker are cut apart by it. -/
theorem cuts_intercalate {marker : List Char} (hmarker : marker ≠ []) (hpieces : pieces ≠ [])
    (hfresh : ∀ piece ∈ pieces, ∀ c ∈ marker, c ∉ piece) :
    Cuts marker (marker.intercalate pieces) pieces := by
  induction pieces with
  | nil => exact absurd rfl hpieces
  | cons piece pieces ih =>
      obtain ⟨hpiece, hfresh⟩ := List.forall_mem_cons.1 hfresh
      by_cases hlast : pieces = []
      · rw [hlast, List.intercalate_singleton]
        refine .whole fun hoccurs => ?_
        obtain ⟨m, hm⟩ := List.exists_mem_of_ne_nil _ hmarker
        exact hpiece m hm (hoccurs.subset hm)
      · rw [List.intercalate_cons_of_ne_nil hlast]
        exact .cut (leftmost_of_fresh hmarker hpiece _) (ih hlast hfresh)

end

end Text

/-- What one rule makes of a text. -/
inductive TitleRule.Rewords (rule : TitleRule) (text : List Char) : List Char → Prop
  /-- A rule that searches for nothing leaves the text. -/
  | passed (h : rule.search = "") : Rewords rule text text
  /-- The text is cut at what the rule searches for, and the pieces are joined with the
      replacement. -/
  | joined {pieces : List (List Char)} (h : rule.search ≠ "")
      (hcuts : Text.Cuts rule.search.toList text pieces) :
      Rewords rule text (rule.replacement.toList.intercalate pieces)

/-- What the rules of a list make of a text, each of what the one before has left. -/
inductive Rewords : List TitleRule → List Char → List Char → Prop
  | done (text : List Char) : Rewords [] text text
  | next {rule : TitleRule} {rules : List TitleRule} {text reworded shown : List Char}
      (hrule : rule.Rewords text reworded) (hrules : Rewords rules reworded shown) :
      Rewords (rule :: rules) text shown

theorem TitleRule.rewords_iff (rule : TitleRule) (text reworded : List Char) :
    rule.Rewords text reworded ↔ rule.reword text = reworded := by
  unfold TitleRule.reword
  by_cases hsearch : rule.search = ""
  · rw [if_pos (String.isEmpty_iff.2 hsearch)]
    constructor
    · rintro (_ | ⟨hne, -⟩)
      · rfl
      · exact absurd hsearch hne
    · rintro rfl
      exact .passed hsearch
  · have hne : rule.search.toList ≠ [] := mt String.toList_eq_nil_iff.1 hsearch
    rw [if_neg fun h => hsearch (String.isEmpty_iff.1 h)]
    constructor
    · rintro (hempty | ⟨-, hcuts⟩)
      · exact absurd hempty hsearch
      · exact hcuts.replaceAll_eq hne
    · rintro rfl
      obtain ⟨pieces, hcuts⟩ := Text.exists_cuts hne text
      rw [hcuts.replaceAll_eq hne]
      exact .joined hsearch hcuts

theorem rewords_iff (rules : List TitleRule) (text shown : List Char) :
    Rewords rules text shown ↔ rules.foldl (fun text rule => rule.reword text) text = shown := by
  induction rules generalizing text with
  | nil =>
      constructor
      · rintro ⟨⟩
        rfl
      · rintro rfl
        exact .done text
  | cons rule rules ih =>
      -- The other rules start from what the first one has left, which is decided.
      rw [List.foldl_cons, ← ih]
      constructor
      · rintro (_ | ⟨hrule, hrules⟩)
        rw [(rule.rewords_iff _ _).1 hrule]
        exact hrules
      · exact .next ((rule.rewords_iff _ _).2 rfl)

/-- The title that is shown is what the rules make of the given one in turn, each by
    joining pieces with its replacement. A search text cuts every text in one way only,
    and the pieces are the text if they are joined with the search text instead. -/
theorem reword_eq_iff (rules : List TitleRule) (title shown : String) :
    (reword rules title = shown ↔ Rewords rules title.toList shown.toList) ∧
    ∀ search : List Char, search ≠ [] → ∀ text,
      (∃! pieces, Text.Cuts search text pieces) ∧
        ∀ pieces, Text.Cuts search text pieces → search.intercalate pieces = text := by
  constructor
  · rw [rewords_iff, reword, ← String.toList_inj, String.toList_ofList]
  · intro search hsearch text
    exact ⟨Text.existsUnique_cuts hsearch text, fun _ hcuts => hcuts.intercalate_eq⟩

/-- Rules of which the first puts in what it searches for, the second searches for
    nothing, and the last finds what the third brings together. -/
def crossing : List TitleRule :=
  [⟨"aa", "a"⟩, ⟨"", "-"⟩, ⟨"xx", ""⟩, ⟨"ab", "-"⟩]

theorem crossing_rewords :
    reword crossing "aaaxxb" = "a-" ∧ Rewords crossing "aaaxxb".toList "a-".toList ∧
      "aa".toList ≠ [] ∧ ∃! pieces, Text.Cuts "aa".toList "aaaxxb".toList pieces := by
  have hreword : reword crossing "aaaxxb" = "a-" := by decide
  have hsearch : "aa".toList ≠ [] := by decide
  obtain ⟨hiff, hcuts⟩ := reword_eq_iff crossing "aaaxxb" "a-"
  exact ⟨hreword, hiff.1 hreword, hsearch, (hcuts _ hsearch _).1⟩

/-- A marker that is written for a search text can be turned back, if it has no
    character in common with the title. It cuts the reworded title into the pieces that
    the search text cuts the title into. -/
theorem reword_restores (title search marker : String) (hsearch : search ≠ "")
    (hmarker : marker ≠ "") (hfresh : ∀ c ∈ marker.toList, c ∉ title.toList) :
    reword [⟨search, marker⟩, ⟨marker, search⟩] title = title ∧
    ∀ pieces, Text.Cuts search.toList title.toList pieces ↔
      Text.Cuts marker.toList (reword [⟨search, marker⟩] title).toList pieces := by
  have hsearch' : search.toList ≠ [] := mt String.toList_eq_nil_iff.1 hsearch
  have hmarker' : marker.toList ≠ [] := mt String.toList_eq_nil_iff.1 hmarker
  obtain ⟨pieces, hcuts⟩ := Text.exists_cuts hsearch' title.toList
  -- No piece has a character of the marker, as all of them are in the title.
  have hmarked : Text.Cuts marker.toList (marker.toList.intercalate pieces) pieces := by
    refine Text.cuts_intercalate hmarker' hcuts.ne_nil fun piece hpiece c hc hmem => ?_
    exact hfresh c hc (hcuts.subset piece hpiece hmem)
  have hfirst : Rewords [⟨search, marker⟩] title.toList (marker.toList.intercalate pieces) :=
    .next (.joined hsearch hcuts) (.done _)
  have hboth : Rewords [⟨search, marker⟩, ⟨marker, search⟩] title.toList title.toList := by
    have hback : TitleRule.Rewords ⟨marker, search⟩ (marker.toList.intercalate pieces)
        (search.toList.intercalate pieces) := .joined hmarker hmarked
    rw [hcuts.intercalate_eq] at hback
    exact .next (.joined hsearch hcuts) (.next hback (.done _))
  refine ⟨?_, fun others => ?_⟩
  · rw [reword, (rewords_iff _ _ _).1 hboth, String.ofList_toList]
  · rw [reword, (rewords_iff _ _ _).1 hfirst, String.toList_ofList]
    constructor
    · intro h
      rw [h.unique hcuts]
      exact hmarked
    · intro h
      rw [h.unique hmarked]
      exact hcuts

theorem overlapping_restores :
    ("aa" ≠ "" ∧ "##" ≠ "" ∧ ∀ c ∈ "##".toList, c ∉ "aaaab aa".toList) ∧
      reword [⟨"aa", "##"⟩] "aaaab aa" = "####b ##" ∧
      reword [⟨"aa", "##"⟩, ⟨"##", "aa"⟩] "aaaab aa" = "aaaab aa" := by
  have hsearch : "aa" ≠ "" := by decide
  have hmarker : "##" ≠ "" := by decide
  have hfresh : ∀ c ∈ "##".toList, c ∉ "aaaab aa".toList :=
    List.forall_mem_cons.2 ⟨by decide, List.forall_mem_singleton.2 (by decide)⟩
  exact ⟨⟨hsearch, hmarker, hfresh⟩, by decide,
    (reword_restores "aaaab aa" "aa" "##" hsearch hmarker hfresh).1⟩

end ReleaseNotes
