/-!
# Categories

A category is one heading of the notes: a key to name it by, a title to show,
the labels it takes in, and a number that says where among the headings it
stands.

The labels are a set. What a set answers must not depend on how it was
written down, and two categories with the same labels have to be equal, so
`LabelSet` keeps its members as the strictly ascending list that a set has
exactly one of. Texts are compared by the code points of their characters.

The order number is an integer of any size. Numbers need not be contiguous or
positive; only how they compare matters.

Of several categories that take a label in, the one declared first gets the
commits, whatever the order numbers are.

## Main definitions

* `LabelSet`: A finite set of labels, in ascending order.
* `Category`: A heading of the notes and the labels it takes in.
* `categoryFor`: The first declared category that takes a label in.
* `Category.line`: The line that describes a category in a listing.

## Theorems

* `LabelSet.mem_ofList`: A set built from a list has the members of the list.
* `LabelSet.ofList_toList`: A set is built again from its own members.
-/

namespace ReleaseNotes

/-- A finite set of labels, kept as its strictly ascending list of members. -/
structure LabelSet where
  toList : List String
  ascending : toList.Pairwise (· < ·)
deriving DecidableEq

namespace LabelSet

theorem ext {a b : LabelSet} (h : a.toList = b.toList) : a = b := by
  cases a
  cases b
  simp_all

instance : Repr LabelSet := ⟨fun labels n => reprPrec labels.toList n⟩

instance : Inhabited LabelSet := ⟨⟨[], .nil⟩⟩

/-- A label put into its place in an ascending list. -/
def place (label : String) : List String → List String
  | [] => [label]
  | x :: xs =>
    if label < x then label :: x :: xs
    else if label = x then x :: xs
    else x :: place label xs

theorem mem_place {label x : String} {xs : List String} :
    x ∈ place label xs ↔ x = label ∨ x ∈ xs := by
  induction xs with
  | nil => simp [place]
  | cons y ys ih =>
      unfold place
      split
      · simp
      · split
        · rename_i heq
          simp [heq]
        · simp only [List.mem_cons, ih]
          grind

theorem pairwise_place {label : String} {xs : List String} (h : xs.Pairwise (· < ·)) :
    (place label xs).Pairwise (· < ·) := by
  induction xs with
  | nil => simp [place]
  | cons y ys ih =>
      rw [List.pairwise_cons] at h
      unfold place
      split
      · rename_i hlt
        rw [List.pairwise_cons]
        refine ⟨fun z hz => ?_, List.pairwise_cons.2 h⟩
        rcases List.mem_cons.1 hz with rfl | hz
        · exact hlt
        · exact String.lt_trans hlt (h.1 z hz)
      · split
        · exact List.pairwise_cons.2 h
        · rename_i hlt hne
          rw [List.pairwise_cons]
          refine ⟨fun z hz => ?_, ih h.2⟩
          rcases mem_place.1 hz with rfl | hz
          · exact Std.lt_of_le_of_ne (Std.not_lt.1 hlt) fun heq => hne heq.symm
          · exact h.1 z hz

/-- The set with this label added. -/
def insert (labels : LabelSet) (label : String) : LabelSet :=
  ⟨place label labels.toList, pairwise_place labels.ascending⟩

/-- The set without labels. -/
def empty : LabelSet := ⟨[], .nil⟩

/-- The set of the labels in a list. -/
def ofList (labels : List String) : LabelSet :=
  labels.foldr (fun label set => set.insert label) empty

/-- The label is a member. -/
def contains (labels : LabelSet) (label : String) : Bool :=
  labels.toList.contains label

theorem mem_ofList {label : String} {labels : List String} :
    label ∈ (ofList labels).toList ↔ label ∈ labels := by
  induction labels with
  | nil => simp [ofList, empty]
  | cons x xs ih =>
      rw [List.mem_cons, ← ih]
      exact mem_place

theorem ofList_of_pairwise {labels : List String} (h : labels.Pairwise (· < ·)) :
    (ofList labels).toList = labels := by
  induction labels with
  | nil => rfl
  | cons x xs ih =>
      rw [List.pairwise_cons] at h
      have hrest : (ofList (x :: xs)).toList = place x (ofList xs).toList := rfl
      rw [hrest, ih h.2]
      cases xs with
      | nil => rfl
      | cons y ys => simp [place, h.1 y (by simp)]

theorem ofList_toList (labels : LabelSet) : ofList labels.toList = labels :=
  ext (ofList_of_pairwise labels.ascending)

end LabelSet

/-- A heading of the notes, the labels of the commits that go under it, and
    the number it is ordered by. -/
structure Category where
  key : String
  title : String
  labels : LabelSet
  order : Int
deriving DecidableEq, Repr

namespace Category

/-- Commits with this label go under the category. -/
def accepts (category : Category) (label : String) : Bool :=
  category.labels.contains label

/-- A text filled up with blanks on its left to at least this many
    characters. -/
def padLeft (width : Nat) (text : String) : String :=
  String.ofList (List.replicate (width - text.length) ' ') ++ text

/-- The line that describes the category in a listing. -/
def line (category : Category) : String :=
  padLeft 3 (toString category.order) ++ ". " ++ category.key ++ " - " ++ category.title ++
    " [" ++ ", ".intercalate category.labels.toList ++ "]"

end Category

/-- The position of the first declared category that takes the label in. -/
def categoryFor (categories : List Category) (label : String) : Option Nat :=
  categories.findIdx? (·.accepts label)

end ReleaseNotes
