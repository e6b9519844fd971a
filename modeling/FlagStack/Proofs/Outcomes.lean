import Mathlib.Logic.Basic

/-!
# Outcomes of steps that can fail

How a sequence of steps can end: it succeeds if all of its steps do, and fails
with the first of them that fails.  The same for a fold over a list.
-/

namespace FlagStack

section Sequences

variable {ε α β : Type} {x : Except ε α} {f : α → Except ε β}

@[simp] theorem ok_bind
    (a : α) (f : α → Except ε β) :
    (Except.ok a >>= f) = f a := by
  rfl

@[simp] theorem error_bind
    (e : ε) (f : α → Except ε β) :
    ((Except.error e : Except ε α) >>= f) = .error e := by
  rfl

theorem bind_eq_ok_iff
    {b : β} :
    (x >>= f) = .ok b ↔ ∃ a, x = .ok a ∧ f a = .ok b := by
  cases x with
  | error e => exact ⟨fun h => (by cases h), fun ⟨a, ha, _⟩ => (by cases ha)⟩
  | ok a =>
      constructor
      · intro h
        exact ⟨a, rfl, h⟩
      · rintro ⟨a', ha, h⟩
        cases ha
        exact h

theorem bind_eq_error_iff
    {e : ε} :
    (x >>= f) = .error e ↔ x = .error e ∨ ∃ a, x = .ok a ∧ f a = .error e := by
  cases x with
  | error e' =>
      constructor
      · intro h
        cases h
        exact .inl rfl
      · rintro (h | ⟨a, ha, -⟩)
        · cases h
          rfl
        · cases ha
  | ok a =>
      constructor
      · intro h
        exact .inr ⟨a, rfl, h⟩
      · rintro (h | ⟨a', ha, h⟩)
        · cases h
        · cases ha
          exact h

theorem map_eq_ok_iff
    {g : α → β} {b : β} :
    x.map g = .ok b ↔ ∃ a, x = .ok a ∧ g a = b := by
  cases x with
  | error e => simp [Except.map]
  | ok a => simp [Except.map]

/-- Success does not depend on what becomes of errors. -/
theorem mapError_eq_ok_iff
    {ε' : Type} {g : ε → ε'} {a : α} :
    x.mapError g = .ok a ↔ x = .ok a := by
  cases x with
  | error e => exact ⟨fun h => (by cases h), fun h => (by cases h)⟩
  | ok b => exact ⟨fun h => (by cases h; rfl), fun h => (by cases h; rfl)⟩

/-- A step with a state that succeeds hands its result and its state on. -/
theorem bind_of_ok
    {σ : Type} {step : StateT σ (Except ε) α} {next : α → StateT σ (Except ε) β} {s s' : σ}
    {a : α} (h : step s = .ok (a, s')) :
    (step >>= next) s = next a s' := by
  change (step s >>= fun r => next r.1 r.2) = next a s'
  rw [h, ok_bind]

theorem exists_of_bind_eq_ok
    {σ : Type} {step : StateT σ (Except ε) α} {next : α → StateT σ (Except ε) β} {s : σ}
    {r : β × σ} (h : (step >>= next) s = .ok r) :
    ∃ a s', step s = .ok (a, s') ∧ next a s' = .ok r := by
  obtain ⟨⟨a, s'⟩, hstep, hnext⟩ := bind_eq_ok_iff.1 h
  exact ⟨a, s', hstep, hnext⟩

end Sequences

section Folds

variable {ε α β : Type} {step other : β → α → Except ε β} {l : List α}

/-- Two steps that agree where an invariant holds give the same fold. -/
theorem foldlM_congr_of_invariant
    (Inv : β → Prop)
    (hstep : ∀ b, Inv b → ∀ a ∈ l, step b a = other b a)
    (hkeep : ∀ b, Inv b → ∀ a ∈ l, ∀ b', step b a = .ok b' → Inv b')
    {b : β} (h : Inv b) :
    l.foldlM step b = l.foldlM other b := by
  induction l generalizing b with
  | nil => rfl
  | cons a l ih =>
      rw [List.foldlM_cons, List.foldlM_cons, ← hstep b h a (by simp)]
      cases hb : step b a with
      | error e => rfl
      | ok b' =>
          exact ih (fun b hb a ha => hstep b hb a (by simp [ha]))
            (fun b hb a ha => hkeep b hb a (by simp [ha])) (hkeep b h a (by simp) b' hb)

/-- A fold keeps what each of its steps keeps. -/
theorem foldlM_invariant
    (Inv : β → Prop)
    (hkeep : ∀ b, Inv b → ∀ a ∈ l, ∀ b', step b a = .ok b' → Inv b')
    {b b' : β} (h : Inv b) (hrun : l.foldlM step b = .ok b') :
    Inv b' := by
  induction l generalizing b with
  | nil =>
      cases hrun
      exact h
  | cons a l ih =>
      rw [List.foldlM_cons, bind_eq_ok_iff] at hrun
      obtain ⟨next, hnext, hrest⟩ := hrun
      exact ih (fun b hb a ha => hkeep b hb a (by simp [ha]))
        (hkeep b h a (by simp) next hnext) hrest

end Folds
end FlagStack
