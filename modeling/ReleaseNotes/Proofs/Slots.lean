import ReleaseNotes.Proofs.Rearrangement
import ReleaseNotes.Proofs.Substitution

/-!
# The Order of Slots

What the order decides in which slots are listed with their values.

Of several listed slots that stand at one place of a template the first one is filled. All
of them are beginnings of the same text, so of any two the shorter is the beginning of the
longer: they meet. Slots that do not meet never stand at the same place, and where two of
them are listed is of no account. So values may be listed in any order in which of two
slots that meet the same one is listed first. That the scan looks for slots only at doubled
braces, and not at all of these, plays no part, because what it finds at one place decides
where it goes on.

In the three templates of this library no two slots meet, so their values can be listed in
any order.

Slots that do meet are told apart by some template. The longer one can stand for itself:
with the shorter slot listed first the text starts with the value of that one, and with the
longer slot listed first it is the value of the longer one. If the order does not show, the
one value is the beginning of the other, just as the slots are.

## Main definitions

* `Template.Meet`: One of two slots is the beginning of the other.
* `Template.chars`: Listed values as the scan takes them.
* `Interchangeable`: Values that can be listed in any order.
* `entryValues`, `headingValues`: The values for the line of an entry and for a heading.

## Theorems

* `Template.fillFrom_congr`: What is found at each place decides what is filled.
* `fill_rearranged`: Slots that do not meet may change places.
* `interchangeable_of_apart`: Without slots that meet the order decides nothing.
* `Interchangeable.beginnings`: If the order decides nothing, values begin alike where
  slots do.
* `fill_in_any_order`: What the order decides.
-/

namespace ReleaseNotes

namespace Template

/-- One of two slots is the beginning of the other. -/
def Meet (a b : String) : Prop :=
  a.toList <+: b.toList ∨ b.toList <+: a.toList

instance (a b : String) : Decidable (Meet a b) :=
  inferInstanceAs (Decidable (a.toList <+: b.toList ∨ b.toList <+: a.toList))

section

variable {values others : List (List Char × List Char)}

/-- What is found at each place decides what is filled. -/
theorem fillFrom_congr (h : ∀ text, valueAt? others text = valueAt? values text) (skip : Nat)
    (text : List Char) : fillFrom others skip text = fillFrom values skip text := by
  -- Behind a slot some characters are to be passed over, so their number is left open.
  induction text generalizing skip with
  | nil => simp only [fillFrom]
  | cons c rest ih =>
      cases skip with
      | succ skip => exact ih skip
      | zero =>
          have hplace := h (c :: rest)
          unfold valueAt? at hplace
          -- The scans go on at the same place, behind the same slot.
          simp only [fillFrom, hplace, ih]

/-- A text that has been dealt with is passed over to its end. -/
theorem fillFrom_length (values : List (List Char × List Char)) (text : List Char) :
    fillFrom values text.length text = [] := by
  induction text with
  | nil => simp only [fillFrom]
  | cons c rest ih => exact ih

end

end Template

/-- Listed slots and values, as characters. -/
def Template.chars (values : List (String × String)) : List (List Char × List Char) :=
  values.map fun value => (value.1.toList, value.2.toList)

section

variable {values others : List (String × String)}

theorem toList_fill (template : String) (values : List (String × String)) :
    (fill template values).toList =
      Template.fillFrom (Template.chars values) 0 template.toList := by
  unfold fill Template.chars
  rw [String.toList_ofList]

theorem valueAt?_chars (values : List (String × String)) (text : List Char) :
    Template.valueAt? (Template.chars values) text =
      (values.find? fun value => value.1.toList.isPrefixOf text).map
        fun value => (value.1.toList, value.2.toList) := by
  unfold Template.valueAt? Template.chars
  rw [List.find?_map]
  rfl

theorem open_chars (h : ∀ value ∈ values, Template.opens value.1.toList = true) :
    Template.Open (Template.chars values) := by
  intro pair hpair
  obtain ⟨value, hvalue, rfl⟩ := List.mem_map.1 hpair
  exact h value hvalue

/-- Values may be listed in any order in which of two slots that meet the same one is listed
    first. -/
theorem fill_rearranged (h : Rearranged (fun a b => Template.Meet a.1 b.1) values others)
    (template : String) : fill template others = fill template values := by
  have hplace : ∀ text, Template.valueAt? (Template.chars others) text =
      Template.valueAt? (Template.chars values) text := by
    intro text
    -- Slots that stand at the same place meet, so the first of them is still the first.
    rw [valueAt?_chars, valueAt?_chars, h.find?_eq fun a _ b _ ha hb => ?_]
    rw [List.isPrefixOf_iff_prefix] at ha hb
    exact List.prefix_or_prefix_of_prefix ha hb
  apply String.toList_injective
  rw [toList_fill, toList_fill, Template.fillFrom_congr hplace]

/-- The values can be listed in any order: every template is filled in the same way. -/
def Interchangeable (values : List (String × String)) : Prop :=
  ∀ others, others.Perm values → ∀ template, fill template others = fill template values

/-- Without slots that meet the order decides nothing. -/
theorem interchangeable_of_apart (h : values.Pairwise fun a b => ¬ Template.Meet a.1 b.1) :
    Interchangeable values := by
  intro others hperm
  exact fill_rearranged (.of_perm hperm.symm h)

/-- Where the first listed slot stands its value is put in. -/
theorem toList_fill_cons {value : String × String}
    (hopens : ∀ listed ∈ value :: values, Template.opens listed.1.toList = true)
    {template : String} (h : value.1.toList <+: template.toList) :
    (fill template (value :: values)).toList =
      value.2.toList ++ Template.fillFrom (Template.chars (value :: values))
        (value.1.toList.length - 1) template.toList.tail := by
  have hvalue : Template.valueAt? (Template.chars (value :: values)) template.toList =
      some (value.1.toList, value.2.toList) :=
    List.find?_cons_of_pos (List.isPrefixOf_iff_prefix.2 h)
  rw [toList_fill]
  cases htemplate : template.toList with
  | nil =>
      -- No slot stands in an empty template, since slots open with braces.
      rw [htemplate, List.prefix_nil] at h
      have hfirst := hopens value List.mem_cons_self
      rw [h] at hfirst
      cases hfirst
  | cons c rest =>
      rw [htemplate] at hvalue
      exact Template.fillFrom_of_value (open_chars hopens) hvalue

/-- A slot that is listed first, taken for a template, gives its value. -/
theorem fill_slot {value : String × String}
    (hopens : ∀ listed ∈ value :: values, Template.opens listed.1.toList = true) :
    fill value.1 (value :: values) = value.2 := by
  apply String.toList_injective
  rw [toList_fill_cons hopens (List.prefix_refl _), ← List.length_tail,
    Template.fillFrom_length, List.append_nil]

/-- If the order decides nothing, values begin alike where slots do. -/
theorem Interchangeable.beginnings (h : Interchangeable values)
    (hopens : ∀ value ∈ values, Template.opens value.1.toList = true) :
    values.Pairwise fun a b =>
      (a.1.toList <+: b.1.toList → a.2.toList <+: b.2.toList) ∧
      (b.1.toList <+: a.1.toList → b.2.toList <+: a.2.toList) := by
  -- Either of two slots can be listed first, and the longer one is the template.
  have hfirst : ∀ a b rest, (a :: b :: rest).Perm values → a.1.toList <+: b.1.toList →
      a.2.toList <+: b.2.toList := by
    intro a b rest hperm hprefix
    have hswapped : (b :: a :: rest).Perm values := (List.Perm.swap a b rest).trans hperm
    have hlong : fill b.1 values = b.2 := by
      rw [← h _ hswapped]
      exact fill_slot fun value hvalue => hopens value (hswapped.mem_iff.1 hvalue)
    rw [← hlong, ← h _ hperm, toList_fill_cons
      (fun value hvalue => hopens value (hperm.mem_iff.1 hvalue)) hprefix]
    exact List.prefix_append _ _
  rw [List.pairwise_iff_forall_sublist]
  intro a b hsublist
  obtain ⟨rest, hrest⟩ := hsublist.exists_perm_append
  exact ⟨hfirst a b rest hrest.symm,
    hfirst b a rest ((List.Perm.swap a b rest).trans hrest.symm)⟩

end

/-- The values for the line of an entry. -/
def entryValues (entry : Entry) : List (String × String) :=
  [(slot "commitShortHash", shortHash entry.commit.hash),
   (slot "commitHash", entry.commit.hash),
   (slot "commitTitle", entry.display),
   (slot "commitAuthor", entry.commit.author.getD "")]

/-- The values for the heading of a category. -/
def headingValues (category : Category) : List (String × String) :=
  [(slot "categoryTitle", category.title), (slot "categoryKey", category.key)]

/-- Values are interchangeable if their slots stand in a list of slots that do not meet. -/
theorem interchangeable_of_slots {values : List (String × String)} {slots : List String}
    (hslots : values.map (·.1) = slots)
    (h : slots.Pairwise fun a b => ¬ Template.Meet a b) : Interchangeable values := by
  rw [← hslots, List.pairwise_map] at h
  exact interchangeable_of_apart h

theorem interchangeable_entryValues (entry : Entry) : Interchangeable (entryValues entry) := by
  have hslots : [slot "commitShortHash", slot "commitHash", slot "commitTitle",
      slot "commitAuthor"].Pairwise fun a b => ¬ Template.Meet a b := by decide
  exact interchangeable_of_slots rfl hslots

theorem interchangeable_headingValues (category : Category) :
    Interchangeable (headingValues category) := by
  have hslots : [slot "categoryTitle", slot "categoryKey"].Pairwise
      fun a b => ¬ Template.Meet a b := by decide
  exact interchangeable_of_slots rfl hslots

/-- Values can be listed in any order in which of two slots that meet the same one is listed
    first, so in any order at all if no two slots meet. The values for entries and headings
    are of that kind. If values of any kind can be listed in any order, one value is the
    beginning of another one wherever its slot is. -/
theorem fill_in_any_order :
    (∀ values : List (String × String),
      (∀ value ∈ values, Template.opens value.1.toList = true) →
        (∀ others, Rearranged (fun a b => Template.Meet a.1 b.1) values others →
          ∀ template, fill template others = fill template values) ∧
        ((values.Pairwise fun a b => ¬ Template.Meet a.1 b.1) → Interchangeable values) ∧
        (Interchangeable values → values.Pairwise fun a b =>
          (a.1.toList <+: b.1.toList → a.2.toList <+: b.2.toList) ∧
          (b.1.toList <+: a.1.toList → b.2.toList <+: a.2.toList))) ∧
    (∀ entry others, others.Perm (entryValues entry) →
      ∀ template, fill template others = entryLine template entry) ∧
    ∀ category others, others.Perm (headingValues category) →
      ∀ template, fill template others = headingLine template category := by
  refine ⟨fun values hopens => ⟨fun others => fill_rearranged, interchangeable_of_apart, ?_⟩,
    interchangeable_entryValues, interchangeable_headingValues⟩
  exact fun h => h.beginnings hopens

/-- Values whose slots do not meet. One value holds the slot of another one, and one slot has
    nothing but braces. -/
def nested : List (String × String) :=
  [(slot "a", slot "b"), (slot "b", "\x7b"), ("\x7b\x7b\x7b", "x")]

/-- Values of which one has a slot that the other one goes on behind. -/
def continued : List (String × String) :=
  [(slot "a", "1"), (slot "a" ++ "\x7d", "2")]

theorem nested_in_any_order :
    (∀ value ∈ nested, Template.opens value.1.toList = true) ∧
      (nested.Pairwise fun a b => ¬ Template.Meet a.1 b.1) ∧
      fill ("\x7b" ++ slot "a" ++ slot "a" ++ "\x7b\x7b") nested.reverse =
        "xa\x7d\x7d" ++ slot "b" ++ "\x7b\x7b" ∧
      (∀ value ∈ continued, Template.opens value.1.toList = true) ∧
      ¬ Interchangeable continued := by
  have hopens : ∀ value ∈ nested, Template.opens value.1.toList = true := by decide
  have hapart : nested.Pairwise fun a b => ¬ Template.Meet a.1 b.1 := by decide
  have hcontinued : ∀ value ∈ continued, Template.opens value.1.toList = true := by decide
  obtain ⟨hvalues, -, -⟩ := fill_in_any_order
  have hfill : fill ("\x7b" ++ slot "a" ++ slot "a" ++ "\x7b\x7b") nested =
      "xa\x7d\x7d" ++ slot "b" ++ "\x7b\x7b" := by decide
  refine ⟨hopens, hapart, ?_, hcontinued, fun h => ?_⟩
  · exact ((hvalues nested hopens).2.1 hapart _ (List.reverse_perm nested) _).trans hfill
  · exact absurd ((hvalues continued hcontinued).2.2 h) (by decide)

end ReleaseNotes
