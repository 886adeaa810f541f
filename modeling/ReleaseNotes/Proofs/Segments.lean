import ReleaseNotes.Proofs.Substitution

/-!
# Segments of Templates

What of a filled template comes from the template, and what from the values.

A template falls into segments, texts that are copied and slots that a value is put
in for. How it falls into them is decided by the template and by the slots that are
listed, before any value is known. Filling the template joins the segments with a
value in the place of each slot. So a value has one way only to show, which is to
stand where its slot stood. A value that holds slots itself, or braces that would go
together with those behind it, is copied like any other.

The scan for the segments makes the steps of the scan that fills, and writes down
what it finds instead of a value. In the induction both stand at the same place of
the template, and that place does not depend on the values, since the scan goes on
behind the slot and not behind the value. That is all the argument there is, but it
needs a list in which a slot may stand twice or begin with another one: a segment
therefore says which of the listed slots it is by its place in the list.

With the text of each slot as its own value nothing is lost and nothing added. There
the slots have to open with braces, as a slot without a text would be found without
getting past it.

## Main definitions

* `Segment`: A text that is copied, or one of the listed slots.
* `Segment.join`: Segments joined, with values put in.
* `Template.segmentsFrom`, `segments`: The segments of a template.
* `assigned`: The listed slots with their values.

## Theorems

* `Template.fillFrom_eq_join`: Filling joins the segments with the values put in.
* `Template.join_slots`: The segments joined with each slot for itself.
* `fill_eq_join_segments`: Both, for a whole template.
-/

namespace ReleaseNotes

/-- A part of a template: a text that is copied, or one of so many listed slots. -/
inductive Segment (slots : Nat) where
  | literal (text : List Char)
  | slot (index : Fin slots)
deriving DecidableEq, Repr

namespace Segment

variable {slots : Nat}

/-- What a segment comes to with these values. -/
def put (values : Fin slots → List Char) : Segment slots → List Char
  | .literal text => text
  | .slot index => values index

/-- Segments joined, with these values put in. -/
def join (values : Fin slots → List Char) (segments : List (Segment slots)) : List Char :=
  segments.flatMap (put values)

/-- A text that is copied, in front of segments. Copied texts that meet become
    one. -/
def copy (text : List Char) : List (Segment slots) → List (Segment slots)
  | .literal more :: segments => .literal (text ++ more) :: segments
  | segments => .literal text :: segments

variable (values : Fin slots → List Char)

@[simp]
theorem join_nil : join values [] = [] := rfl

@[simp]
theorem join_cons (segment : Segment slots) (segments : List (Segment slots)) :
    join values (segment :: segments) = put values segment ++ join values segments := rfl

@[simp]
theorem join_copy (text : List Char) (segments : List (Segment slots)) :
    join values (copy text segments) = text ++ join values segments := by
  cases segments with
  | nil => rfl
  | cons segment segments =>
      cases segment with
      | literal more => simp only [copy, join_cons, put, List.append_assoc]
      | slot index => rfl

end Segment

namespace Template

section

variable (placeholders : List String)

/-- The place of the first listed slot that stands at the front of the text. -/
def slotAt? (text : List Char) : Option (Fin placeholders.length) :=
  (List.finRange placeholders.length).find? fun index =>
    placeholders[index].toList.isPrefixOf text

/-- The scan behind `segments`. The first `skip` characters have been dealt with
    already, and are passed over. -/
def segmentsFrom : Nat → List Char → List (Segment placeholders.length)
  | _, [] => []
  | skip + 1, _ :: rest => segmentsFrom skip rest
  | 0, c :: rest =>
    match slotAt? placeholders (c :: rest) with
    | some index => .slot index :: segmentsFrom (placeholders[index].toList.length - 1) rest
    | none =>
      if opens (c :: rest) then Segment.copy bracePair.1 (segmentsFrom 1 rest)
      else Segment.copy [c] (segmentsFrom 0 rest)

/-- The listed slots with their values, as characters. -/
def pairs (values : Fin placeholders.length → List Char) : List (List Char × List Char) :=
  (List.finRange placeholders.length).map fun index =>
    (placeholders[index].toList, values index)

end

variable {placeholders : List String} (values : Fin placeholders.length → List Char)

theorem valueAt?_pairs (text : List Char) :
    valueAt? (pairs placeholders values) text =
      (slotAt? placeholders text).map fun index =>
        (placeholders[index].toList, values index) := by
  unfold valueAt? pairs slotAt?
  rw [List.find?_map]
  rfl

theorem isPrefixOf_of_slotAt? {text : List Char} {index : Fin placeholders.length}
    (h : slotAt? placeholders text = some index) : placeholders[index].toList <+: text := by
  simpa only [List.isPrefixOf_iff_prefix] using List.find?_some h

theorem open_pairs (hopens : ∀ placeholder ∈ placeholders, opens placeholder.toList = true) :
    Open (pairs placeholders values) := by
  intro value hvalue
  rcases List.mem_map.1 hvalue with ⟨index, -, rfl⟩
  exact hopens _ (List.getElem_mem index.isLt)

/-- Filling joins the segments with the values put in. The segments on the right are
    found without the values. -/
theorem fillFrom_eq_join (hopens : ∀ placeholder ∈ placeholders, opens placeholder.toList = true)
    (skip : Nat) (text : List Char) :
    fillFrom (pairs placeholders values) skip text =
      Segment.join values (segmentsFrom placeholders skip text) := by
  have hpairs := open_pairs values hopens
  induction text generalizing skip with
  | nil => simp only [fillFrom, segmentsFrom, Segment.join_nil]
  | cons c rest ih =>
      cases skip with
      | succ skip => exact ih skip
      | zero =>
          have hvalue := valueAt?_pairs values (c :: rest)
          cases hslot : slotAt? placeholders (c :: rest) with
          | some index =>
              -- Both go on behind the slot, whatever value was put in.
              rw [hslot, Option.map_some] at hvalue
              simp only [fillFrom_of_value hpairs hvalue, segmentsFrom, hslot, Segment.join_cons,
                Segment.put, ih]
          | none =>
              rw [hslot, Option.map_none] at hvalue
              by_cases hc : opens (c :: rest) = true
              · obtain ⟨others, rfl, rfl⟩ := eq_of_opens hc
                simp only [fillFrom_of_none hvalue, segmentsFrom, hslot, if_pos hc,
                  Segment.join_copy]
                -- The second brace is passed over by both.
                exact congrArg (bracePair.1 ++ ·) (ih 1)
              · simp only [fillFrom_of_not_opens (Bool.eq_false_iff.2 hc), segmentsFrom, hslot,
                  if_neg hc, Segment.join_copy, ih, List.singleton_append]

/-- The segments are what is left of the template, if each slot stands for itself. -/
theorem join_slots (hopens : ∀ placeholder ∈ placeholders, opens placeholder.toList = true)
    (skip : Nat) (text : List Char) :
    Segment.join (fun index => placeholders[index].toList) (segmentsFrom placeholders skip text) =
      text.drop skip := by
  induction text generalizing skip with
  | nil => simp only [segmentsFrom, Segment.join_nil, List.drop_nil]
  | cons c rest ih =>
      cases skip with
      | succ skip => exact ih skip
      | zero =>
          rw [List.drop_zero]
          cases hslot : slotAt? placeholders (c :: rest) with
          | some index =>
              -- A slot has a first character, which is the one that it was found at.
              rcases isPrefixOf_of_slotAt? hslot with ⟨after, hafter⟩
              cases hslotText : placeholders[index].toList with
              | nil =>
                  have hopen := hopens _ (List.getElem_mem index.isLt)
                  rw [← Fin.getElem_fin, hslotText] at hopen
                  cases hopen
              | cons d more =>
                  rw [hslotText, List.cons_append] at hafter
                  rcases List.cons.inj hafter with ⟨rfl, hrest⟩
                  simp only [segmentsFrom, hslot, Segment.join_cons, Segment.put, hslotText, ih,
                    List.length_cons, Nat.add_sub_cancel]
                  rw [← hrest, List.drop_left, List.cons_append]
          | none =>
              by_cases hc : opens (c :: rest) = true
              · obtain ⟨others, rfl, rfl⟩ := eq_of_opens hc
                simp only [segmentsFrom, hslot, if_pos hc, Segment.join_copy]
                exact congrArg (bracePair.1 ++ ·) (ih 1)
              · simp only [segmentsFrom, hslot, if_neg hc, Segment.join_copy, ih, List.drop_zero,
                  List.singleton_append]

end Template

/-- The segments of a template, for these slots. -/
def segments (template : String) (placeholders : List String) :
    List (Segment placeholders.length) :=
  Template.segmentsFrom placeholders 0 template.toList

/-- The listed slots with their values. -/
def assigned (placeholders : List String) (values : Fin placeholders.length → String) :
    List (String × String) :=
  (List.finRange placeholders.length).map fun index => (placeholders[index], values index)

/-- A template falls into segments that the template and the listed slots decide, and
    filling it puts a value in the place of each segment that is a slot, whatever the
    values are. Joined with each slot for itself the segments are the template, so
    with every slot as its own value filling changes nothing. -/
theorem fill_eq_join_segments (template : String) (placeholders : List String)
    (hopens : ∀ placeholder ∈ placeholders, Template.opens placeholder.toList = true) :
    (∀ values, fill template (assigned placeholders values) =
      String.ofList (Segment.join (fun index => (values index).toList)
        (segments template placeholders))) ∧
    String.ofList (Segment.join (fun index => placeholders[index].toList)
      (segments template placeholders)) = template ∧
    fill template (assigned placeholders fun index => placeholders[index]) = template := by
  have hfill : ∀ values : Fin placeholders.length → String,
      fill template (assigned placeholders values) =
        String.ofList (Segment.join (fun index => (values index).toList)
          (segments template placeholders)) := by
    intro values
    have hjoin := Template.fillFrom_eq_join (fun index => (values index).toList) hopens 0
      template.toList
    unfold Template.pairs at hjoin
    unfold fill assigned segments
    rw [← hjoin, List.map_map]
    rfl
  have hslots : String.ofList (Segment.join (fun index => placeholders[index].toList)
      (segments template placeholders)) = template := by
    unfold segments
    rw [Template.join_slots hopens, List.drop_zero, String.ofList_toList]
  exact ⟨hfill, hslots, (hfill _).trans hslots⟩

/-- The slots for a title and an author. -/
def titleAndAuthor : List String :=
  [slot "commitTitle", slot "commitAuthor"]

/-- A template that has a brace too few before its second slot. -/
def braceTooFew : String :=
  slot "commitTitle" ++ "\x7bcommitAuthor\x7d\x7d by " ++ slot "commitAuthor"

/-- A title that holds a slot and ends in a brace, and an author. -/
def loose : Fin titleAndAuthor.length → String :=
  fun index => [slot "commitAuthor" ++ "\x7b", "Ann"].get index

example : segments braceTooFew titleAndAuthor =
    [.slot ⟨0, by decide⟩, .literal "\x7bcommitAuthor\x7d\x7d by ".toList,
      .slot ⟨1, by decide⟩] := by
  decide

theorem loose_fills_braceTooFew :
    (∀ placeholder ∈ titleAndAuthor, Template.opens placeholder.toList = true) ∧
      fill braceTooFew (assigned titleAndAuthor loose) =
        slot "commitAuthor" ++ slot "commitAuthor" ++ " by Ann" ∧
      fill braceTooFew (assigned titleAndAuthor fun index => titleAndAuthor[index]) =
        braceTooFew := by
  have hopens : ∀ placeholder ∈ titleAndAuthor, Template.opens placeholder.toList = true := by
    decide
  have hfill := fill_eq_join_segments braceTooFew titleAndAuthor hopens
  -- The brace that ends the title does not open a slot with the one behind it.
  have hjoin : String.ofList (Segment.join (fun index => (loose index).toList)
      (segments braceTooFew titleAndAuthor)) =
        slot "commitAuthor" ++ slot "commitAuthor" ++ " by Ann" := by
    decide
  exact ⟨hopens, (hfill.1 loose).trans hjoin, hfill.2.2⟩

end ReleaseNotes
