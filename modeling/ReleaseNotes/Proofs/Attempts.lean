/-!
# Attempts

What a chain of steps comes to, each of which may fail.

A chain succeeds if every step does, with the results of the steps before it handed
on, and otherwise fails as the first step does that fails. These are the lemmas that
take such a chain apart and put it together again, for two steps in a row and for a
step that is made for each element of a list.

## Theorems

* `bind_eq_ok_iff`, `bind_eq_error_iff`: Two steps in a row.
* `mapError_eq_ok_iff`, `mapError_eq_error_iff`: A step with another name for its
  failure.
* `forM_eq_ok_iff`: A step for each element of a list.
* `mapM_mapIdx`: A step for each element of a list, after the elements were changed.
-/

namespace ReleaseNotes

variable {ε ε' α β : Type}

theorem ok_bind (a : α) (rest : α → Except ε β) : (Except.ok a >>= rest) = rest a := rfl

theorem bind_eq_ok_iff {x : Except ε α} {f : α → Except ε β} {b : β} :
    x >>= f = .ok b ↔ ∃ a, x = .ok a ∧ f a = .ok b := by
  cases x with
  | error fault => exact ⟨nofun, fun ⟨_, h, _⟩ => nomatch h⟩
  | ok a => exact ⟨fun h => ⟨a, rfl, h⟩, fun ⟨_, h, hf⟩ => Except.ok.inj h ▸ hf⟩

theorem bind_eq_error_iff {x : Except ε α} {f : α → Except ε β} {fault : ε} :
    x >>= f = .error fault ↔ x = .error fault ∨ ∃ a, x = .ok a ∧ f a = .error fault := by
  cases x with
  | error other =>
      constructor
      · exact fun h => .inl (congrArg Except.error (Except.error.inj h))
      · rintro (h | ⟨_, ⟨⟩, -⟩)
        exact congrArg Except.error (Except.error.inj h)
  | ok a =>
      constructor
      · exact fun h => .inr ⟨a, rfl, h⟩
      · rintro (⟨⟨⟩⟩ | ⟨_, ⟨⟩, h⟩)
        exact h

theorem mapError_eq_ok_iff {x : Except ε α} {f : ε → ε'} {a : α} :
    x.mapError f = .ok a ↔ x = .ok a := by
  cases x with
  | error fault => exact ⟨nofun, nofun⟩
  | ok b => exact ⟨fun h => congrArg Except.ok (Except.ok.inj h),
      fun h => congrArg Except.ok (Except.ok.inj h)⟩

theorem mapError_eq_error_iff {x : Except ε α} {f : ε → ε'} {fault : ε'} :
    x.mapError f = .error fault ↔ ∃ cause, x = .error cause ∧ f cause = fault := by
  cases x with
  | error cause => exact ⟨fun h => ⟨cause, rfl, Except.error.inj h⟩,
      fun ⟨_, h, hf⟩ => congrArg Except.error (Except.error.inj h ▸ hf)⟩
  | ok a => exact ⟨nofun, fun ⟨_, h, _⟩ => nomatch h⟩

/-- Going through a list succeeds if every step does, and only then. -/
theorem forM_eq_ok_iff {step : α → Except ε Unit} {list : List α} :
    list.forM step = .ok () ↔ ∀ a ∈ list, step a = .ok () := by
  induction list with
  | nil => simp only [List.not_mem_nil, false_imp_iff, implies_true, iff_true]; rfl
  | cons a rest ih =>
      rw [List.forall_mem_cons, ← ih]
      show (do step a; rest.forM step) = .ok () ↔ _
      cases step a with
      | error fault => simp only [reduceCtorEq, false_and, iff_false]; exact nofun
      | ok done => exact ⟨fun h => ⟨rfl, h⟩, fun h => h.2⟩

/-- If each element is changed in its place, and the step for it then yields what it
    yielded before with a change of its own, so does going through the list. -/
theorem mapM_mapIdx {step : α → Except ε β} {f : Nat → α → α} {g : Nat → β → β} {list : List α}
    {results : List β}
    (h : ∀ i a, list[i]? = some a → ∀ b, step a = .ok b → step (f i a) = .ok (g i b))
    (hlist : list.mapM step = .ok results) :
    (list.mapIdx f).mapM step = .ok (results.mapIdx g) := by
  induction list generalizing results f g with
  | nil =>
      obtain rfl : [] = results := Except.ok.inj hlist
      rfl
  | cons a rest ih =>
      rw [List.mapM_cons] at hlist
      rcases bind_eq_ok_iff.1 hlist with ⟨b, hb, hlist⟩
      rcases bind_eq_ok_iff.1 hlist with ⟨others, hothers, hresults⟩
      obtain rfl : b :: others = results := Except.ok.inj hresults
      -- The rest of the list is changed as the places from the second on say.
      have hrest := ih (fun i a ha => h (i + 1) a ha) hothers
      rw [List.mapIdx_cons, List.mapM_cons, h 0 a rfl b hb, hrest, List.mapIdx_cons]
      rfl

end ReleaseNotes
