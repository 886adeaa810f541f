import ReleaseNotes.Proofs.Rearrangement

/-!
# Precedence of Label Rules

What the order decides in which label rules are listed, and which rules are listed to
no effect.

Two rules can only be in each other's way if some title starts with both openings. Then
one of the openings starts with the other. So the rules that fit one title are
comparable in pairs, and the one of them that is listed first stays the first as long as
no two comparable rules overtake each other. That is all a rearrangement has to keep,
and it may move any other rules past each other.

A rule covers those whose openings start with its own: it fits every title that they
fit. A rule that is covered by an earlier one never decides anything, whatever its label
is, and can be left out. A rule that no earlier one covers does decide something, and a
title that it decides is easily named: it is the opening itself, because an earlier rule
that fits the opening covers the rule.

An empty opening covers all rules behind it and is comparable with all rules. Two rules
with the same opening cover each other, and the first one counts.

## Main definitions

* `LabelRule.Covers`: One opening starts with the other.
* `LabelRule.Comparable`: One of two rules covers the other.

## Theorems

* `LabelRule.covers_iff`: What is covered fits no other titles.
* `LabelRule.comparable_of_fits`: Rules that fit one title are comparable.
* `labelFor_rearranged`: Rules that are not comparable may change places.
* `labelFor_without_covered`: A rule behind one that covers it decides nothing.
* `labelFor_opening`: Any other rule decides what is done with its own opening.
* `labelFor_precedence`: What the order of rules decides.
-/

namespace ReleaseNotes

namespace LabelRule

/-- The opening of the other rule starts with the opening of this one. -/
def Covers (rule other : LabelRule) : Prop :=
  rule.opening.toList <+: other.opening.toList

instance (rule other : LabelRule) : Decidable (rule.Covers other) :=
  inferInstanceAs (Decidable (rule.opening.toList <+: other.opening.toList))

/-- One of two openings starts with the other. -/
def Comparable (rule other : LabelRule) : Prop :=
  rule.Covers other ∨ other.Covers rule

instance (rule other : LabelRule) : Decidable (rule.Comparable other) :=
  inferInstanceAs (Decidable (rule.Covers other ∨ other.Covers rule))

theorem fits_iff (rule : LabelRule) (title : String) :
    rule.fits title = true ↔ rule.opening.toList <+: title.toList := by
  unfold fits
  exact List.isPrefixOf_iff_prefix

/-- A rule covers another one if it fits every title that the other one fits. -/
theorem covers_iff {rule other : LabelRule} :
    rule.Covers other ↔ ∀ title, other.fits title = true → rule.fits title = true := by
  simp only [fits_iff]
  constructor
  · intro h title hother
    exact h.trans hother
  · -- The opening of the other rule is itself a title that this rule fits.
    intro h
    exact h other.opening (List.prefix_refl _)

/-- Two openings of one title are comparable. -/
theorem comparable_of_fits {rule other : LabelRule} {title : String}
    (h : rule.fits title = true) (hother : other.fits title = true) :
    rule.Comparable other := by
  rw [fits_iff] at h hother
  exact List.prefix_or_prefix_of_prefix h hother

end LabelRule

/-- Rules that are not comparable may change places. -/
theorem labelFor_rearranged {rules others : List LabelRule}
    (h : Rearranged LabelRule.Comparable rules others) (title : String) :
    labelFor others title = labelFor rules title := by
  unfold labelFor
  rw [h.find?_eq fun a _ b _ ha hb => LabelRule.comparable_of_fits ha hb]

/-- A rule behind one that covers it decides nothing. -/
theorem labelFor_without_covered {before after : List LabelRule} {rule : LabelRule}
    (h : ∃ general ∈ before, general.Covers rule) (title : String) :
    labelFor (before ++ after) title = labelFor (before ++ rule :: after) title := by
  obtain ⟨general, hgeneral, hcovers⟩ := h
  unfold labelFor
  simp only [List.find?_append]
  by_cases hfits : rule.fits title = true
  · -- The search does not come to the rule, since it ends at the one that covers it.
    have hsome : (before.find? (·.fits title)).isSome = true :=
      List.find?_isSome.2 ⟨general, hgeneral, LabelRule.covers_iff.1 hcovers title hfits⟩
    obtain ⟨first, hfirst⟩ := Option.isSome_iff_exists.1 hsome
    rw [hfirst, Option.some_or, Option.some_or]
  · -- The search passes over the rule.
    have hpassed : (rule :: after).find? (·.fits title) = after.find? (·.fits title) :=
      List.find?_cons_of_neg hfits
    rw [hpassed]

/-- A rule that no earlier one covers decides what is done with its own opening. -/
theorem labelFor_opening {before after : List LabelRule} {rule : LabelRule}
    (h : ∀ other ∈ before, ¬ other.Covers rule) :
    labelFor (before ++ rule :: after) rule.opening = some rule.label := by
  refine (labelFor_eq_some_iff _ _ _).2 ⟨rule, ?_, rfl⟩
  exact ⟨before, after, rfl, List.prefix_refl _, h⟩

/-- Rules may be listed in any order in which of two comparable ones the same is listed
    first, and a rule may be left out behind one that covers it: no title gets another
    label. Any other rule has an effect, since it decides which label its own opening
    gets. -/
theorem labelFor_precedence (rules : List LabelRule) :
    (∀ others, Rearranged LabelRule.Comparable rules others →
      ∀ title, labelFor others title = labelFor rules title) ∧
    ∀ before rule after, rules = before ++ rule :: after →
      ((∃ general ∈ before, general.Covers rule) →
        ∀ title, labelFor (before ++ after) title = labelFor rules title) ∧
      ((∀ other ∈ before, ¬ other.Covers rule) →
        labelFor rules rule.opening = some rule.label) := by
  refine ⟨fun others => labelFor_rearranged, ?_⟩
  rintro before rule after rfl
  exact ⟨labelFor_without_covered, labelFor_opening⟩

/-- Rules of which the second fits more titles than the first. The third has the same
    opening as the second, the last one fits all titles. -/
def layered : List LabelRule :=
  [⟨"breaking", "feat: !"⟩, ⟨"feature", "feat:"⟩, ⟨"late", "feat:"⟩, ⟨"bug", "fix:"⟩,
   ⟨"other", ""⟩]

/-- The same rules, with the fourth listed first. -/
def layeredTurned : List LabelRule :=
  [⟨"bug", "fix:"⟩, ⟨"breaking", "feat: !"⟩, ⟨"feature", "feat:"⟩, ⟨"late", "feat:"⟩,
   ⟨"other", ""⟩]

theorem layered_precedence :
    Rearranged LabelRule.Comparable layered layeredTurned ∧
      (∀ title, labelFor layeredTurned title = labelFor layered title) ∧
      (∃ general ∈ [(⟨"breaking", "feat: !"⟩ : LabelRule), ⟨"feature", "feat:"⟩],
        general.Covers ⟨"late", "feat:"⟩) ∧
      (∀ title, labelFor
        [⟨"breaking", "feat: !"⟩, ⟨"feature", "feat:"⟩, ⟨"bug", "fix:"⟩, ⟨"other", ""⟩] title =
          labelFor layered title) ∧
      (∀ other ∈ [(⟨"breaking", "feat: !"⟩ : LabelRule)], ¬ other.Covers ⟨"feature", "feat:"⟩) ∧
      labelFor layered "feat:" = some "feature" := by
  obtain ⟨hrearranged, hrules⟩ := labelFor_precedence layered
  let move : Fin 5 ≃ Fin 5 :=
    { toFun := ![1, 2, 3, 0, 4]
      invFun := ![3, 0, 1, 2, 4]
      left_inv := by unfold Function.LeftInverse; decide
      right_inv := by unfold Function.RightInverse Function.LeftInverse; decide }
  have hturned : Rearranged LabelRule.Comparable layered layeredTurned :=
    ⟨move, by decide, by decide⟩
  have hcovered : ∃ general ∈ [(⟨"breaking", "feat: !"⟩ : LabelRule), ⟨"feature", "feat:"⟩],
      general.Covers ⟨"late", "feat:"⟩ := by decide
  have hnot : ∀ other ∈ [(⟨"breaking", "feat: !"⟩ : LabelRule)],
      ¬ other.Covers ⟨"feature", "feat:"⟩ := by decide
  exact ⟨hturned, hrearranged _ hturned, hcovered, (hrules _ _ _ rfl).1 hcovered, hnot,
    (hrules _ _ _ rfl).2 hnot⟩

end ReleaseNotes
