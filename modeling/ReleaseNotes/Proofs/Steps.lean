import ReleaseNotes.Proofs.Home

/-!
# Steps

What becomes of a commit that is changed step by step, and what the steps report.

Steps of three kinds can follow each other in any order. None of them gets at the hash or
the title. Two kinds are about the label and the third is about the author, and the two do
not meet: what a step does to the label is decided by the label and the title, and what it
does to the author by the step alone. So one equation tells a step (`take_fst`) and one
tells all steps together (`after_eq`). Of the labels that steps have for the title the
first one counts, and none of them does if the commit came with one. Of the authors the
last one counts.

A run is looked at by its stages, which are the commits between the steps. Stage `i` is
what the first `i` steps have left, so the step at place `i` stands between stage `i` and
stage `i + 1`. A step reports an assignment if it has a label to offer and the stage before
it has none. Both can be the case at one place only, since the label is there at all later
stages.

## Main definitions

* `Commit.Step.Offers`: The label that a step has for a title.
* `Commit.Step.IsLabelling`: A step that is about the label.
* `Commit.after`: What a list of steps leaves.
* `Commit.stage`, `Commit.report`: A run, place by place.
* `Commit.AssignsAt`: The one step that sets the label.
* `Commit.Settles`: What is always true of a run.

## Theorems

* `Commit.take_fst`, `Commit.take_snd`: What one step does and reports.
* `Commit.after_eq`: What all steps leave.
* `Commit.getElem?_takeAll`: A run is told by its stages.
* `Commit.report_eq_true_iff`: Which steps report an assignment.
* `Commit.assigns_first`: The first step that has a label assigns it.
* `Commit.steps_settle`: What is always true of a run.
-/

namespace ReleaseNotes

namespace Commit

namespace Step

/-- The label that a step has for commits with this title: the one that it is to assign,
    or the one of the first rule whose opening the title starts with. -/
inductive Offers (title : String) : Step → String → Prop
  | given (label : String) : Offers title (.assign label) label
  | byRule {rules : List LabelRule} {rule : LabelRule}
      (hfirst : IsFirst (fun rule => rule.opening.toList <+: title.toList) rules rule) :
      Offers title (.labelBy rules) rule.label

/-- The step is about the label. -/
def IsLabelling : Step → Prop
  | .author _ => False
  | _ => True

/-- The label that a step comes to for a title. -/
def offer? (title : String) : Step → Option String
  | .assign label => some label
  | .labelBy rules => labelFor rules title
  | .author _ => none

/-- The author that a step leaves where there was this one. -/
def sign (author : Option String) : Step → Option String
  | .author name => if Text.isBlank name then none else some name
  | _ => author

theorem offers_iff (title : String) (step : Step) (label : String) :
    step.Offers title label ↔ step.offer? title = some label := by
  constructor
  · rintro (_ | hfirst)
    · rfl
    · exact (labelFor_eq_some_iff _ _ _).2 ⟨_, hfirst, rfl⟩
  · intro h
    cases step with
    | assign given =>
        obtain rfl := Option.some.inj h
        exact .given given
    | labelBy rules =>
        obtain ⟨rule, hfirst, rfl⟩ := (labelFor_eq_some_iff _ _ _).1 h
        exact .byRule hfirst
    | author name => cases h

/-- Steps about the label leave the author as it is. -/
theorem foldl_sign_of_isLabelling {steps : List Step} (h : ∀ step ∈ steps, step.IsLabelling)
    (author : Option String) : steps.foldl sign author = author := by
  induction steps with
  | nil => rfl
  | cons step steps ih =>
      obtain ⟨hstep, hsteps⟩ := List.forall_mem_cons.1 h
      cases step with
      | assign _ => exact ih hsteps
      | labelBy _ => exact ih hsteps
      | author _ => exact hstep.elim

end Step

/-- A step sets the label where there was none, and the author if it is about that. -/
theorem take_fst (commit : Commit) (step : Step) :
    (commit.take step).1 =
      { commit with
        label := commit.label.or (step.offer? commit.title)
        author := step.sign commit.author } := by
  rcases commit with ⟨hash, title, author, own⟩
  cases step with
  | assign label => cases own <;> rfl
  | labelBy rules => exact applyLabels_fst rules _
  | author name => cases own <;> rfl

/-- A step about the label reports an assignment if there was no label and it has one. -/
theorem take_snd (commit : Commit) (step : Step) (h : step.IsLabelling) :
    (commit.take step).2 = some (commit.label.isNone && (step.offer? commit.title).isSome) := by
  rcases commit with ⟨hash, title, author, own⟩
  cases step with
  | assign label => cases own <;> rfl
  | labelBy rules =>
      simp only [take, applyLabels, assignLabel, Step.offer?]
      cases labelFor rules title <;> cases own <;> rfl
  | author name => exact h.elim

theorem take_snd_eq_true_iff (commit : Commit) (step : Step) :
    (commit.take step).2 = some true ↔
      commit.label = none ∧ (step.offer? commit.title).isSome = true := by
  cases step with
  | author name => simp [take, Step.offer?]
  | assign label => rw [take_snd commit (.assign label) trivial]; simp
  | labelBy rules => rw [take_snd commit (.labelBy rules) trivial]; simp

/-- The commit when all the steps have been taken. -/
def after (commit : Commit) (steps : List Step) : Commit :=
  steps.foldl (fun commit step => (commit.take step).1) commit

/-- The first label counts, unless there was one before, and the last author. -/
theorem after_eq (commit : Commit) (steps : List Step) :
    commit.after steps =
      { commit with
        label := commit.label.or (steps.findSome? (·.offer? commit.title))
        author := steps.foldl Step.sign commit.author } := by
  unfold after
  -- The steps behind the first one are taken with another commit.
  induction steps generalizing commit with
  | nil => rw [List.foldl_nil, List.findSome?_nil, Option.or_none, List.foldl_nil]
  | cons step steps ih =>
      rw [List.foldl_cons, ih, take_fst, List.findSome?_cons, List.foldl_cons, Option.or_assoc]
      cases step.offer? commit.title <;> rfl

/-- The commit when so many of the steps have been taken. -/
def stage (commit : Commit) (steps : List Step) (count : Nat) : Commit :=
  commit.after (steps.take count)

/-- What the step at a place reports. -/
def report (commit : Commit) (steps : List Step) (i : Nat) : Option Bool :=
  (commit.takeAll steps)[i]?.bind (·.2)

section

variable (commit : Commit) {steps : List Step} {step : Step} {i : Nat}

theorem stage_succ (h : steps[i]? = some step) :
    commit.stage steps (i + 1) = ((commit.stage steps i).take step).1 := by
  unfold stage after
  rw [List.take_add_one, h, Option.toList_some, List.foldl_append, List.foldl_cons,
    List.foldl_nil]

/-- What is seen of a run at a place is what the step there makes of the stage before it. -/
theorem getElem?_takeAll (steps : List Step) (i : Nat) :
    (commit.takeAll steps)[i]? = steps[i]?.map (commit.stage steps i).take := by
  induction steps generalizing commit i with
  | nil => rfl
  | cons step steps ih =>
      cases i with
      | zero => rfl
      | succ i => exact ih (commit.take step).1 i

theorem report_eq (h : steps[i]? = some step) :
    commit.report steps i = ((commit.stage steps i).take step).2 := by
  unfold report
  rw [getElem?_takeAll, h, Option.map_some, Option.bind_some]

theorem title_stage (steps : List Step) (i : Nat) :
    (commit.stage steps i).title = commit.title := by
  rw [stage, after_eq]

theorem label_stage (steps : List Step) (i : Nat) :
    (commit.stage steps i).label =
      commit.label.or ((steps.take i).findSome? (·.offer? commit.title)) := by
  rw [stage, after_eq]

/-- A label that is there at one stage is there at all later ones. -/
theorem label_stage_of_le {label : String} {j : Nat} (h : (commit.stage steps i).label = some label)
    (hij : i ≤ j) : (commit.stage steps j).label = some label := by
  -- The steps before the later stage start with those before the earlier one.
  have htake : steps.take j = steps.take i ++ (steps.take j).drop i := by
    conv_lhs => rw [← List.take_append_drop i (steps.take j), List.take_take, Nat.min_eq_left hij]
  rw [label_stage] at h
  rw [label_stage, htake, List.findSome?_append, ← Option.or_assoc, h, Option.some_or]

/-- A step reports an assignment if there is no label at the stage before it and it has
    one for the title. -/
theorem report_eq_true_iff (h : steps[i]? = some step) :
    commit.report steps i = some true ↔
      (commit.stage steps i).label = none ∧ ∃ label, step.Offers commit.title label := by
  simp only [Step.offers_iff, ← Option.isSome_iff_exists]
  rw [commit.report_eq h, take_snd_eq_true_iff, title_stage]

/-- A step reports an assignment if the label is not as it was. -/
theorem report_eq_true_iff_ne (h : steps[i]? = some step) :
    commit.report steps i = some true ↔
      (commit.stage steps (i + 1)).label ≠ (commit.stage steps i).label := by
  rw [commit.report_eq h, commit.stage_succ h, take_snd_eq_true_iff, take_fst]
  cases (commit.stage steps i).label <;>
    cases step.offer? (commit.stage steps i).title <;> simp

/-- A step about the label reports that it did nothing if the label is as it was. -/
theorem report_eq_false_iff (h : steps[i]? = some step) (hstep : step.IsLabelling) :
    commit.report steps i = some false ↔
      (commit.stage steps (i + 1)).label = (commit.stage steps i).label := by
  -- Such a step reports one of the two.
  have hreport : commit.report steps i = some false ↔ ¬ commit.report steps i = some true := by
    rw [commit.report_eq h, take_snd _ _ hstep, Option.some.injEq, Option.some.injEq,
      Bool.not_eq_true]
  rw [hreport, commit.report_eq_true_iff_ne h, Ne, not_not]

theorem exists_step_of_report {done : Bool} (h : commit.report steps i = some done) :
    ∃ step, steps[i]? = some step := by
  cases hstep : steps[i]? with
  | some step => exact ⟨step, rfl⟩
  | none =>
      rw [report, getElem?_takeAll, hstep] at h
      cases h

/-- As long as no step has had a label for the title the commit is without one. -/
theorem label_stage_eq_none (hnone : commit.label = none)
    (h : ∀ step ∈ steps.take i, step.offer? commit.title = none) :
    (commit.stage steps i).label = none := by
  rw [label_stage, hnone, Option.none_or, List.findSome?_eq_none_iff]
  exact h

/-- A commit that came with a label keeps it, and no step reports an assignment. -/
theorem labelled_throughout {label : String} (h : commit.label = some label) (steps : List Step)
    (i : Nat) :
    commit.report steps i ≠ some true ∧ (commit.stage steps i).label = some label := by
  have hlabel : (commit.stage steps i).label = some label :=
    commit.label_stage_of_le (i := 0) h (Nat.zero_le i)
  refine ⟨fun hreport => ?_, hlabel⟩
  -- The stage before a step that reports an assignment is without a label.
  obtain ⟨step, hstep⟩ := commit.exists_step_of_report hreport
  rw [((commit.report_eq_true_iff hstep).1 hreport).1] at hlabel
  cases hlabel

/-- If no step has a label for the title, a commit without one never gets one. -/
theorem unlabelled_throughout (hnone : commit.label = none)
    (h : ∀ step ∈ steps, ∀ label, ¬ step.Offers commit.title label) (i : Nat) :
    commit.report steps i ≠ some true ∧ (commit.stage steps i).label = none := by
  constructor
  · intro hreport
    obtain ⟨step, hstep⟩ := commit.exists_step_of_report hreport
    obtain ⟨-, label, hoffer⟩ := (commit.report_eq_true_iff hstep).1 hreport
    exact h step (List.mem_of_getElem? hstep) label hoffer
  · refine commit.label_stage_eq_none hnone fun step hstep => ?_
    simpa only [Step.offers_iff, ← Option.eq_none_iff_forall_ne_some] using
      h step (List.mem_of_mem_take hstep)

/-- The step at the place is the only one that reports an assignment, and sets this
    label. -/
structure AssignsAt (steps : List Step) (i : Nat) (label : String) : Prop where
  offers : ∃ step, steps[i]? = some step ∧ step.Offers commit.title label
  report_iff : ∀ j, commit.report steps j = some true ↔ j = i
  unlabelled : ∀ j ≤ i, (commit.stage steps j).label = none
  labelled : ∀ j, i < j → (commit.stage steps j).label = some label

/-- The first step that has a label for the title assigns it. -/
theorem assigns_first {before rest : List Step} {label : String} (hnone : commit.label = none)
    (hoffer : step.offer? commit.title = some label)
    (hbefore : ∀ earlier ∈ before, earlier.offer? commit.title = none) :
    commit.AssignsAt (before ++ step :: rest) before.length label := by
  have hstep : (before ++ step :: rest)[before.length]? = some step := by
    rw [List.getElem?_append_right (Nat.le_refl _), Nat.sub_self, List.getElem?_cons_zero]
  have hoffers : step.Offers commit.title label := (Step.offers_iff _ _ _).2 hoffer
  have hunlabelled : ∀ j ≤ before.length,
      (commit.stage (before ++ step :: rest) j).label = none := by
    intro j hj
    refine commit.label_stage_eq_none hnone fun earlier hearlier => hbefore earlier ?_
    rw [List.take_append_of_le_length hj] at hearlier
    exact List.mem_of_mem_take hearlier
  have hset : (commit.stage (before ++ step :: rest) (before.length + 1)).label = some label := by
    rw [commit.stage_succ hstep, take_fst, hunlabelled _ (Nat.le_refl _), Option.none_or,
      title_stage, hoffer]
  have hlabelled : ∀ j, before.length < j →
      (commit.stage (before ++ step :: rest) j).label = some label :=
    fun j hj => commit.label_stage_of_le hset hj
  refine ⟨⟨step, hstep, hoffers⟩, fun j => ⟨fun hreport => ?_, ?_⟩, hunlabelled, hlabelled⟩
  · obtain ⟨other, hother⟩ := commit.exists_step_of_report hreport
    obtain ⟨hlabel, given, hgiven⟩ := (commit.report_eq_true_iff hother).1 hreport
    -- Before the place no step has a label to offer, and behind it the label is there.
    rcases Nat.lt_trichotomy j before.length with hlt | heq | hgt
    · rw [List.getElem?_append_left hlt] at hother
      rw [Step.offers_iff, hbefore other (List.mem_of_getElem? hother)] at hgiven
      cases hgiven
    · exact heq
    · rw [hlabelled j hgt] at hlabel
      cases hlabel
  · rintro rfl
    exact (commit.report_eq_true_iff hstep).2 ⟨hunlabelled _ (Nat.le_refl _), label, hoffers⟩

end

/-- What is always true of a commit and the steps that are taken with it. -/
structure Settles (commit : Commit) (steps : List Step) : Prop where
  /-- Behind each step the next stage is seen, with what the step reports. -/
  seen : ∀ i, (commit.takeAll steps)[i]? =
    steps[i]?.map fun _ => (commit.stage steps (i + 1), commit.report steps i)
  /-- Hash and title never change. -/
  kept : ∀ i, (commit.stage steps i).hash = commit.hash ∧
    (commit.stage steps i).title = commit.title
  /-- A commit that came with a label keeps it, and no step reports an assignment. -/
  labelled : ∀ label, commit.label = some label → ∀ i,
    commit.report steps i ≠ some true ∧ (commit.stage steps i).label = some label
  /-- Any other commit is without a label up to one step that reports an assignment, and has
      the label of that step from then on. If no step has a label to offer, it never gets
      one. -/
  unlabelled : commit.label = none →
    (∃ i label, commit.AssignsAt steps i label) ∨
      (∀ step ∈ steps, ∀ label, ¬ step.Offers commit.title label) ∧
        ∀ i, commit.report steps i ≠ some true ∧ (commit.stage steps i).label = none
  /-- A step reports an assignment if the label is not as it was, and a step about the label
      reports that there was none if it is. -/
  reported : ∀ i step, steps[i]? = some step →
    (commit.report steps i = some true ↔
      (commit.stage steps (i + 1)).label ≠ (commit.stage steps i).label) ∧
    (step.IsLabelling → (commit.report steps i = some false ↔
      (commit.stage steps (i + 1)).label = (commit.stage steps i).label))
  /-- The last step about the author decides who it is, whatever comes before it and
      whatever is done about the label. A blank name is no author. -/
  author : ∀ before name rest, steps = before ++ .author name :: rest →
    (∀ step ∈ rest, step.IsLabelling) →
      (commit.after steps).author = if Text.isBlank name then none else some name
  /-- Without a step about the author it stays the same. -/
  authorKept : (∀ step ∈ steps, step.IsLabelling) → (commit.after steps).author = commit.author

/-- Steps in any order leave hash and title alone, set the label at most once and leave the
    author as the last of them says that is about it. -/
theorem steps_settle (commit : Commit) (steps : List Step) : commit.Settles steps where
  seen i := by
    rw [getElem?_takeAll]
    cases hstep : steps[i]? with
    | none => rfl
    | some step =>
        rw [Option.map_some, Option.map_some, commit.stage_succ hstep, commit.report_eq hstep]
  kept i := by
    rw [stage, after_eq]
    exact ⟨rfl, rfl⟩
  labelled _ h := commit.labelled_throughout h steps
  unlabelled hnone := by
    cases hfirst : steps.findSome? (·.offer? commit.title) with
    | some label =>
        obtain ⟨before, step, rest, rfl, hoffer, hbefore⟩ := List.findSome?_eq_some_iff.1 hfirst
        exact .inl ⟨before.length, label, commit.assigns_first hnone hoffer hbefore⟩
    | none =>
        have hoffers : ∀ step ∈ steps, ∀ label, ¬ step.Offers commit.title label := by
          intro step hmem label hoffer
          rw [Step.offers_iff, List.findSome?_eq_none_iff.1 hfirst step hmem] at hoffer
          cases hoffer
        exact .inr ⟨hoffers, commit.unlabelled_throughout hnone hoffers⟩
  reported _ _ hstep :=
    ⟨commit.report_eq_true_iff_ne hstep, commit.report_eq_false_iff hstep⟩
  author before name rest hsteps hrest := by
    rw [hsteps, after_eq, List.foldl_append, List.foldl_cons, Step.foldl_sign_of_isLabelling hrest]
    rfl
  authorKept h := by
    rw [after_eq, Step.foldl_sign_of_isLabelling h]

example :
    takeAll { hash := "a", title := "fix: x" }
      [.labelBy [⟨"feature", "feat:"⟩], .author "Ann", .labelBy [⟨"bug", "fix:"⟩, ⟨"other", ""⟩],
        .author "\t", .assign "late"] =
      [({ hash := "a", title := "fix: x" }, some false),
       ({ hash := "a", title := "fix: x", author := some "Ann" }, none),
       ({ hash := "a", title := "fix: x", author := some "Ann", label := some "bug" }, some true),
       ({ hash := "a", title := "fix: x", label := some "bug" }, none),
       ({ hash := "a", title := "fix: x", label := some "bug" }, some false)] := by
  decide

end Commit

end ReleaseNotes
