import ReleaseNotes.Template

/-!
# Literal Substitution

What filling a template comes to, told without the scan that is made.

The plain way to fill a template goes through it by single characters. Where the
text of a slot stands the value is put in, of several slots that fit the one that
is listed first, and where none stands a character is copied. The scan that is
made looks for slots at doubled braces only, and where no slot stands there it
copies both braces at once. As every slot opens with doubled braces it cannot
overlook one at a place that it comes to. But it does not come to every place: a
slot that stands at the second of two braces that were copied together is passed
over.

So two opening braces are read as a slot of their own that stands for itself and
is listed last, and with that slot the plain way gives what the scan gives, for
every template. Without it both give the same as long as every slot that is filled
stands behind an even number of braces, counted from where the last value was put
in. `fillFrom_eq_iff` shows that nothing less will do. In the induction behind it
the two scans stand at the same place before each step, with an even number of
braces copied; an odd number cannot be told from none where no brace follows
(`behindPairs_of_head`), and two braces cannot be told from none either
(`behindPairs_add_two`).

## Main definitions

* `Template.substituteFrom`, `substitute`: The plain way to fill a template.
* `Template.behindPairs`, `SlotsBehindPairs`: Every slot that is filled stands
  behind an even number of braces.

## Theorems

* `Template.fillFrom_eq_substituteFrom`: Doubled braces are a slot of their own.
* `Template.fillFrom_eq_iff`: When the scan gives what the plain way gives.
* `fill_eq_substitute`: Both, for a whole template.
-/

namespace ReleaseNotes

namespace Template

section

variable (values : List (List Char × List Char))

/-- The first listed value whose slot stands at the front of the text. -/
def valueAt? (text : List Char) : Option (List Char × List Char) :=
  values.find? fun value => value.1.isPrefixOf text

/-- The plain scan, which goes on by one character where no slot stands. The
    first `skip` characters have been dealt with already, and are passed over. -/
def substituteFrom : Nat → List Char → List Char
  | _, [] => []
  | skip + 1, _ :: rest => substituteFrom skip rest
  | 0, c :: rest =>
    match valueAt? values (c :: rest) with
    | some (placeholder, value) => value ++ substituteFrom (placeholder.length - 1) rest
    | none => c :: substituteFrom 0 rest

/-- Every slot that the plain scan fills stands behind an even number of braces.
    So many braces were copied directly before the text. -/
def behindPairs : (braces skip : Nat) → List Char → Bool
  | _, _, [] => true
  | _, skip + 1, _ :: rest => behindPairs 0 skip rest
  | braces, 0, c :: rest =>
    match valueAt? values (c :: rest) with
    | some (placeholder, _) => braces % 2 == 0 && behindPairs 0 (placeholder.length - 1) rest
    | none => behindPairs (if c = '\x7b' then braces + 1 else 0) 0 rest

end

/-- Two opening braces, as a slot that stands for itself. -/
def bracePair : List Char × List Char :=
  (['\x7b', '\x7b'], ['\x7b', '\x7b'])

theorem opens_iff {text : List Char} : opens text = true ↔ bracePair.1 <+: text := by
  constructor
  · intro h
    unfold opens at h
    split at h
    · exact ⟨_, rfl⟩
    · cases h
  · rintro ⟨rest, rfl⟩
    rfl

theorem eq_of_opens {c : Char} {rest : List Char} (h : opens (c :: rest) = true) :
    ∃ others, c = '\x7b' ∧ rest = '\x7b' :: others := by
  obtain ⟨others, hothers⟩ := opens_iff.1 h
  obtain ⟨rfl, rfl⟩ := List.cons.inj hothers
  exact ⟨others, rfl, rfl⟩

section

variable {values : List (List Char × List Char)} {skip braces : Nat} {c : Char}
  {text rest : List Char}

/-- All slots open with doubled braces. -/
def Open (values : List (List Char × List Char)) : Prop :=
  ∀ value ∈ values, opens value.1 = true

theorem opens_of_valueAt? (hvalues : Open values) {value : List Char × List Char}
    (h : valueAt? values text = some value) : opens text = true := by
  have hprefix : value.1 <+: text := by
    simpa only [List.isPrefixOf_iff_prefix] using List.find?_some h
  exact opens_iff.2 ((opens_iff.1 (hvalues value (List.mem_of_find?_eq_some h))).trans hprefix)

theorem valueAt?_of_not_opens (hvalues : Open values) (h : opens text = false) :
    valueAt? values text = none := by
  cases hvalue : valueAt? values text with
  | none => rfl
  | some value =>
      rw [opens_of_valueAt? hvalues hvalue] at h
      cases h

/-- With doubled braces as the last slot, a slot is found where one is found
    without them, and besides wherever doubled braces stand. -/
theorem valueAt?_append_bracePair (text : List Char) :
    valueAt? (values ++ [bracePair]) text =
      (valueAt? values text).or (if opens text then some bracePair else none) := by
  have hlast : bracePair.1.isPrefixOf text = opens text := by
    rw [Bool.eq_iff_iff, List.isPrefixOf_iff_prefix, opens_iff]
  unfold valueAt?
  rw [List.find?_append, List.find?_singleton, hlast]

theorem fillFrom_of_value (hvalues : Open values) {value : List Char × List Char}
    (h : valueAt? values (c :: rest) = some value) :
    fillFrom values 0 (c :: rest) = value.2 ++ fillFrom values (value.1.length - 1) rest := by
  unfold valueAt? at h
  rw [fillFrom, if_pos (opens_of_valueAt? hvalues h), h]

theorem fillFrom_of_none (h : valueAt? values ('\x7b' :: '\x7b' :: rest) = none) :
    fillFrom values 0 ('\x7b' :: '\x7b' :: rest) = '\x7b' :: '\x7b' :: fillFrom values 0 rest := by
  have hopens : opens ('\x7b' :: '\x7b' :: rest) = true := rfl
  unfold valueAt? at h
  rw [fillFrom, if_pos hopens, h]
  rfl

theorem fillFrom_of_not_opens (h : opens (c :: rest) = false) :
    fillFrom values 0 (c :: rest) = c :: fillFrom values 0 rest := by
  rw [fillFrom, if_neg (by rw [h]; exact Bool.false_ne_true)]

theorem substituteFrom_of_value {value : List Char × List Char}
    (h : valueAt? values (c :: rest) = some value) :
    substituteFrom values 0 (c :: rest) =
      value.2 ++ substituteFrom values (value.1.length - 1) rest := by
  rw [substituteFrom, h]

theorem substituteFrom_of_none (h : valueAt? values (c :: rest) = none) :
    substituteFrom values 0 (c :: rest) = c :: substituteFrom values 0 rest := by
  rw [substituteFrom, h]

theorem behindPairs_of_value {value : List Char × List Char}
    (h : valueAt? values (c :: rest) = some value) :
    behindPairs values braces 0 (c :: rest) =
      (braces % 2 == 0 && behindPairs values 0 (value.1.length - 1) rest) := by
  rw [behindPairs, h]

theorem behindPairs_of_none (h : valueAt? values (c :: rest) = none) :
    behindPairs values braces 0 (c :: rest) =
      behindPairs values (if c = '\x7b' then braces + 1 else 0) 0 rest := by
  rw [behindPairs, h]

/-- The scan is the plain one with doubled braces as a slot of their own. -/
theorem fillFrom_eq_substituteFrom (hvalues : Open values) (skip : Nat) (text : List Char) :
    fillFrom values skip text = substituteFrom (values ++ [bracePair]) skip text := by
  induction text generalizing skip with
  | nil => rfl
  | cons c rest ih =>
      cases skip with
      | succ skip => exact ih skip
      | zero =>
          have hlast : valueAt? (values ++ [bracePair]) (c :: rest) = _ :=
            valueAt?_append_bracePair (c :: rest)
          cases hvalue : valueAt? values (c :: rest) with
          | some value =>
              rw [hvalue, Option.some_or] at hlast
              rw [fillFrom_of_value hvalues hvalue, substituteFrom_of_value hlast, ih]
          | none =>
              rw [hvalue, Option.none_or] at hlast
              cases hopens : opens (c :: rest) with
              | false =>
                  rw [if_neg (by rw [hopens]; exact Bool.false_ne_true)] at hlast
                  rw [fillFrom_of_not_opens hopens, substituteFrom_of_none hlast, ih]
              | true =>
                  rw [if_pos hopens] at hlast
                  obtain ⟨others, rfl, rfl⟩ := eq_of_opens hopens
                  rw [fillFrom_of_none hvalue, substituteFrom_of_value hlast]
                  -- The second brace is passed over by both.
                  exact congrArg (bracePair.2 ++ ·) (ih 1)

/-- Two braces more before a text change nothing. -/
theorem behindPairs_add_two (braces skip : Nat) (text : List Char) :
    behindPairs values (braces + 2) skip text = behindPairs values braces skip text := by
  induction text generalizing braces skip with
  | nil => rfl
  | cons c rest ih =>
      cases skip with
      | succ skip => rfl
      | zero =>
          cases hvalue : valueAt? values (c :: rest) with
          | some value =>
              rw [behindPairs_of_value hvalue, behindPairs_of_value hvalue, Nat.add_mod_right]
          | none =>
              rw [behindPairs_of_none hvalue, behindPairs_of_none hvalue]
              by_cases hc : c = '\x7b'
              · rw [if_pos hc, if_pos hc]
                exact ih (braces + 1) 0
              · rw [if_neg hc, if_neg hc]

/-- A single brace before a text changes nothing, as no slot stands behind it. -/
theorem behindPairs_of_not_opens (hvalues : Open values) (h : opens (c :: rest) = false) :
    behindPairs values 0 0 (c :: rest) = behindPairs values 0 0 rest := by
  rw [behindPairs_of_none (valueAt?_of_not_opens hvalues h)]
  by_cases hc : c = '\x7b'
  · rw [if_pos hc]
    cases rest with
    | nil => rfl
    | cons d others =>
        -- What comes next is no brace, so it is copied and the count starts again.
        have hd : d ≠ '\x7b' := by
          rintro rfl
          rw [hc] at h
          cases h
        have hopens : opens (d :: others) = false := by
          rw [Bool.eq_false_iff, Ne, opens_iff]
          exact fun hprefix => hd (List.cons_prefix_cons.1 hprefix).1.symm
        have hnone := valueAt?_of_not_opens hvalues hopens
        rw [behindPairs_of_none hnone, behindPairs_of_none hnone, if_neg hd, if_neg hd]
  · rw [if_neg hc]

/-- Where every slot stands behind an even number of braces, the scan gives what
    the plain one gives. Where one does not, values that are not empty and do not
    open with a brace show it. -/
theorem fillFrom_eq_iff (hvalues : Open values) (skip : Nat) (text : List Char) :
    (behindPairs values 0 skip text = true →
      fillFrom values skip text = substituteFrom values skip text) ∧
    ((∀ value ∈ values, value.2 ≠ [] ∧ value.2.head? ≠ some '\x7b') →
      fillFrom values skip text = substituteFrom values skip text →
      behindPairs values 0 skip text = true) := by
  induction text generalizing skip with
  | nil => exact ⟨fun _ => rfl, fun _ _ => rfl⟩
  | cons c rest ih =>
      cases skip with
      | succ skip => exact ih skip
      | zero =>
          cases hvalue : valueAt? values (c :: rest) with
          | some value =>
              rw [fillFrom_of_value hvalues hvalue, substituteFrom_of_value hvalue,
                behindPairs_of_value hvalue, List.append_cancel_left_eq]
              exact ih _
          | none =>
              cases hopens : opens (c :: rest) with
              | false =>
                  rw [fillFrom_of_not_opens hopens, substituteFrom_of_none hvalue,
                    behindPairs_of_not_opens hvalues hopens, List.cons_inj_right]
                  exact ih 0
              | true =>
                  obtain ⟨others, rfl, rfl⟩ := eq_of_opens hopens
                  rw [fillFrom_of_none hvalue, substituteFrom_of_none hvalue,
                    behindPairs_of_none hvalue, if_pos rfl, List.cons_inj_right]
                  cases hsecond : valueAt? values ('\x7b' :: others) with
                  | some value =>
                      -- The slot at the second brace is passed over by the scan.
                      rw [substituteFrom_of_value hsecond, behindPairs_of_value hsecond]
                      refine ⟨fun h => absurd h Bool.false_ne_true, fun htelling h => ?_⟩
                      obtain ⟨hne, hhead⟩ := htelling value (List.mem_of_find?_eq_some hsecond)
                      obtain ⟨d, others', hd⟩ := List.exists_cons_of_ne_nil hne
                      rw [hd] at h hhead
                      exact absurd (congrArg some (List.cons.inj h).1.symm) hhead
                  | none =>
                      rw [substituteFrom_of_none hsecond, behindPairs_of_none hsecond, if_pos rfl,
                        List.cons_inj_right, behindPairs_add_two]
                      exact ih 1

end

end Template

/-- The template filled in the plain way: wherever a slot stands the first value
    that is listed for one is put in, and every other character is copied. -/
def substitute (template : String) (values : List (String × String)) : String :=
  String.ofList (Template.substituteFrom
    (values.map fun value => (value.1.toList, value.2.toList)) 0 template.toList)

/-- Every slot of the template that is filled in the plain way stands behind an
    even number of braces. -/
def SlotsBehindPairs (template : String) (values : List (String × String)) : Prop :=
  Template.behindPairs (values.map fun value => (value.1.toList, value.2.toList)) 0 0
    template.toList = true

/-- A template is filled in the plain way, except that two opening braces are a
    slot that stands for itself and comes last. That makes no difference if every
    slot that is filled stands behind an even number of braces. If one does not,
    values that are not empty and do not open with a brace show the
    difference. -/
theorem fill_eq_substitute (template : String) (values : List (String × String))
    (hvalues : ∀ value ∈ values, Template.opens value.1.toList = true) :
    fill template values = substitute template (values ++ [("\x7b\x7b", "\x7b\x7b")]) ∧
    (SlotsBehindPairs template values → fill template values = substitute template values) ∧
    ((∀ value ∈ values, value.2 ≠ "" ∧ value.2.toList.head? ≠ some '\x7b') →
      fill template values = substitute template values → SlotsBehindPairs template values) := by
  have hopen : Template.Open (values.map fun value => (value.1.toList, value.2.toList)) := by
    intro value hvalue
    obtain ⟨given, hgiven, rfl⟩ := List.mem_map.1 hvalue
    exact hvalues given hgiven
  obtain ⟨hsame, htold⟩ := Template.fillFrom_eq_iff hopen 0 template.toList
  refine ⟨?_, fun h => ?_, fun htelling h => ?_⟩
  · rw [fill, substitute, List.map_append, Template.fillFrom_eq_substituteFrom hopen]
    rfl
  · rw [fill, substitute, hsame h]
  · refine htold ?_ (String.ofList_injective h)
    intro value hvalue
    obtain ⟨given, hgiven, rfl⟩ := List.mem_map.1 hvalue
    exact ⟨fun hnil => (htelling given hgiven).1 (String.toList_eq_nil_iff.1 hnil),
      (htelling given hgiven).2⟩

/-- A title for the templates that ask for one. -/
def crashTitle : List (String × String) :=
  [(slot "commitTitle", "crash")]

/-- A template with one brace too many on both sides of its slot. -/
def tripled : String :=
  "\x7b" ++ slot "commitTitle" ++ "\x7d"

/-- A template with two braces too many on both sides of its slot. -/
def quadrupled : String :=
  "\x7b" ++ tripled ++ "\x7d"

theorem crashTitle_fills_quadrupled :
    (∀ value ∈ crashTitle, Template.opens value.1.toList = true) ∧
      fill quadrupled crashTitle = substitute quadrupled crashTitle ∧
      fill tripled crashTitle ≠ substitute tripled crashTitle := by
  have hvalues : ∀ value ∈ crashTitle, Template.opens value.1.toList = true := by decide
  have hquadrupled : SlotsBehindPairs quadrupled crashTitle := by
    unfold SlotsBehindPairs
    decide
  have htripled : ¬ SlotsBehindPairs tripled crashTitle := by
    unfold SlotsBehindPairs
    decide
  refine ⟨hvalues, (fill_eq_substitute quadrupled _ hvalues).2.1 hquadrupled, fun h => ?_⟩
  exact htripled ((fill_eq_substitute tripled _ hvalues).2.2 (by decide) h)

/-- A slot directly behind a single brace is filled in the plain way. The scan
    passes it over. -/
theorem tripled_slot_passed_over :
    (∀ value ∈ crashTitle, Template.opens value.1.toList = true ∧ 2 < value.1.length) ∧
      fill tripled crashTitle = tripled ∧
      substitute tripled crashTitle = "\x7bcrash\x7d" := by
  decide

end ReleaseNotes
