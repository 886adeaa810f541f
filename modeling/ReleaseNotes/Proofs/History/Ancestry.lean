import ReleaseNotes.History.Graph

/-!
# Ancestry

Which commits a commit leads to, said by paths.

A path goes from a commit to one of its parents and on from there. It need not
be unique, as histories part and come together again, and nothing is said about
how it is found. That is the point of it: what a descent finds and what a walk
shows is compared with paths, and neither of the two is mentioned here.

Every commit stands behind its parents, so a path goes to the front of the list
of commits. Where no commit is earlier than a parent of it, it also goes back in
time.

## Main definitions

* `History.LeadsTo`: There is a path from one commit to another.
* `History.LedTo`: There is a path from one of some commits.
* `History.LeadsWithin`: There is a path that does not leave some commits.
* `History.Whole`: All parents of all commits can be read.
* `History.WholeFrom`: All parents of what some commits lead to can be read.
* `History.Forward`: No commit is earlier than a parent of it.

## Theorems

* `History.lt_of_mem_parents`: A parent stands in front of its child.
* `History.LeadsTo.trans`: Paths can be put together.
* `History.LeadsTo.time_le`: A path goes back in time.
* `History.LeadsTo.within_or`: A path stays among commits that are closed, or goes
  to where it cannot come back from.
-/

namespace ReleaseNotes

namespace History

/-- There is a path from one commit to another by way of parents. -/
inductive LeadsTo (history : History) : history.Position → history.Position → Prop
  | refl (i : history.Position) : LeadsTo history i i
  | step {i p j : history.Position} (hp : p ∈ history.parents i) (h : LeadsTo history p j) :
      LeadsTo history i j

/-- One of some commits leads to this one. -/
def LedTo (history : History) (starts : List history.Position) (i : history.Position) : Prop :=
  ∃ start ∈ starts, history.LeadsTo start i

/-- There is a path from one commit to another that does not leave some commits. -/
inductive LeadsWithin (history : History) (commits : List history.Position) :
    history.Position → history.Position → Prop
  | refl {i : history.Position} (hi : i ∈ commits) : LeadsWithin history commits i i
  | step {i p j : history.Position} (hi : i ∈ commits) (hp : p ∈ history.parents i)
      (h : LeadsWithin history commits p j) : LeadsWithin history commits i j

/-- The parents of every commit can be read. -/
def Whole (history : History) : Prop :=
  ∀ i, history.gap? i = none

instance (history : History) : Decidable history.Whole :=
  inferInstanceAs (Decidable (∀ i, history.gap? i = none))

/-- The parents of every commit that one of some commits leads to can be read. -/
def WholeFrom (history : History) (starts : List history.Position) : Prop :=
  ∀ i, history.LedTo starts i → history.gap? i = none

/-- No commit is earlier than a parent of it. -/
def Forward (history : History) : Prop :=
  ∀ i, ∀ p ∈ history.parents i, (history.record p).time ≤ (history.record i).time

instance (history : History) : Decidable history.Forward :=
  inferInstanceAs
    (Decidable (∀ i, ∀ p ∈ history.parents i, (history.record p).time ≤ (history.record i).time))

variable {history : History}

theorem lt_of_mem_parents {i p : history.Position} (hp : p ∈ history.parents i) : p < i := by
  simp only [parents, links, List.mem_filterMap] at hp
  obtain ⟨link, ⟨parent, hparent, hlink⟩, hp⟩ := hp
  cases parent with
  | unreadable fault =>
      cases hlink
      cases hp
  | «at» n =>
      -- The number that is recorded is in front of `i`, and `p` is its position.
      simp only [Option.map_eq_some_iff, position?] at hlink
      obtain ⟨q, hq, rfl⟩ := hlink
      have hqp : q = p := Option.some.inj hp
      split at hq
      · have hn : n < i.val := history.ordered i n hparent
        have hpn : p.val = n := by rw [← hqp, ← Option.some.inj hq]
        exact Fin.lt_def.2 (hpn ▸ hn)
      · cases hq

namespace LeadsTo

theorem single {i p : history.Position} (hp : p ∈ history.parents i) : history.LeadsTo i p :=
  .step hp (.refl p)

theorem trans {i j k : history.Position} (hij : history.LeadsTo i j)
    (hjk : history.LeadsTo j k) : history.LeadsTo i k := by
  induction hij with
  | refl _ => exact hjk
  | step hp _ ih => exact .step hp (ih hjk)

theorem tail {i j p : history.Position} (h : history.LeadsTo i j)
    (hp : p ∈ history.parents j) : history.LeadsTo i p :=
  h.trans (single hp)

/-- A path goes to the front. -/
theorem le {i j : history.Position} (h : history.LeadsTo i j) : j ≤ i := by
  induction h with
  | refl _ => exact Fin.le_refl _
  | step hp _ ih => exact Fin.le_trans ih (Fin.le_of_lt (lt_of_mem_parents hp))

/-- A path goes back in time. -/
theorem time_le (hforward : history.Forward) {i j : history.Position}
    (h : history.LeadsTo i j) : (history.record j).time ≤ (history.record i).time := by
  induction h with
  | refl _ => exact Int.le_refl _
  | step hp _ ih => exact Int.le_trans ih (hforward _ _ hp)

/-- Facts that go from a commit to its parents go along a path. -/
theorem induct {motive : history.Position → Prop} {i j : history.Position}
    (h : history.LeadsTo i j) (hstart : motive i)
    (hstep : ∀ k, history.LeadsTo i k → history.LeadsTo k j → motive k →
      ∀ p ∈ history.parents k, motive p) : motive j := by
  induction h with
  | refl _ => exact hstart
  | @step i p j hp hpj ih =>
      refine ih (hstep i (.refl i) (.step hp hpj) hstart p hp) ?_
      intro k hpk hkj hk q hq
      exact hstep k (.step hp hpk) hkj hk q hq

/-- A path from one of some commits stays among them, if every parent of them is one
    of them or has a property. Otherwise it comes to something with that property,
    which is also said of all that this leads to. -/
theorem within_or {commits : List history.Position} {away : history.Position → Prop}
    (hclosed : ∀ i ∈ commits, ∀ p ∈ history.parents i, p ∈ commits ∨ away p)
    (haway : ∀ i, away i → ∀ p ∈ history.parents i, away p) {i j : history.Position}
    (h : history.LeadsTo i j) (hi : i ∈ commits) : history.LeadsWithin commits i j ∨ away j := by
  induction h with
  | refl i => exact .inl (.refl hi)
  | @step i p j hp hpj ih =>
      rcases hclosed i hi p hp with hmem | hleft
      · exact (ih hmem).imp_left (.step hi hp)
      · exact .inr (hpj.induct hleft fun k _ _ hk => haway k hk)

end LeadsTo

theorem LedTo.tail {starts : List history.Position} {i p : history.Position}
    (h : history.LedTo starts i) (hp : p ∈ history.parents i) : history.LedTo starts p := by
  obtain ⟨start, hstart, hlead⟩ := h
  exact ⟨start, hstart, hlead.tail hp⟩

theorem LedTo.trans {starts : List history.Position} {i j : history.Position}
    (h : history.LedTo starts i) (hij : history.LeadsTo i j) : history.LedTo starts j := by
  obtain ⟨start, hstart, hlead⟩ := h
  exact ⟨start, hstart, hlead.trans hij⟩

theorem ledTo_of_mem {starts : List history.Position} {i : history.Position}
    (h : i ∈ starts) : history.LedTo starts i :=
  ⟨i, h, .refl i⟩

theorem ledTo_singleton {start i : history.Position} :
    history.LedTo [start] i ↔ history.LeadsTo start i := by
  simp [LedTo]

theorem ledTo_append {starts others : List history.Position} {i : history.Position} :
    history.LedTo (starts ++ others) i ↔ history.LedTo starts i ∨ history.LedTo others i := by
  simp [LedTo, or_and_right, exists_or]

theorem Whole.wholeFrom (h : history.Whole) (starts : List history.Position) :
    history.WholeFrom starts :=
  fun i _ => h i

/-- What one commit leads to can be read if what the other one leads to can be
    read, which leads to it. -/
theorem WholeFrom.of_leadsTo {start i : history.Position} (h : history.WholeFrom [start])
    (hlead : history.LeadsTo start i) : history.WholeFrom [i] := by
  intro j hj
  exact h j (ledTo_singleton.2 (hlead.trans (ledTo_singleton.1 hj)))

theorem WholeFrom.append {starts others : List history.Position} (h : history.WholeFrom starts)
    (hothers : history.WholeFrom others) : history.WholeFrom (starts ++ others) := by
  intro i hi
  exact (ledTo_append.1 hi).elim (h i) (hothers i)

end History

end ReleaseNotes
