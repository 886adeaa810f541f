/-!
# The First Line

A commit message is a title, then perhaps a body. The title is the first
line, and this module says where a first line stops.

A line stops at a line feed. A carriage return belongs to the line end only
when it stands directly before that line feed: in the middle of a line, or
at the very end of a text that has no line feed, it is a character like any
other. So the line is read off by one recursion with one case for each of the
two ways it can end, and the last case copies everything else.

## Main definitions

* `firstLine`: The first line of a text, without its line end.

## Theorems

* `newline_notMem_firstLine`: A first line has no line feed in it.
-/

namespace ReleaseNotes

namespace Text

/-- The first line of a text. It ends at a line feed, and one carriage return
    directly before that line feed is part of the line end. -/
def firstLine : List Char → List Char
  | [] => []
  | '\n' :: _ => []
  | '\r' :: '\n' :: _ => []
  | c :: rest => c :: firstLine rest

theorem newline_notMem_firstLine (text : List Char) : '\n' ∉ firstLine text := by
  fun_induction firstLine text with
  | case1 => simp
  | case2 => simp
  | case3 => simp
  | case4 c rest hfeed _ ih =>
      simp only [List.mem_cons, not_or]
      exact ⟨fun h => hfeed h.symm, ih⟩

end Text

end ReleaseNotes
