/-!
# Results that can fail

How a computation in `Except` comes to succeed: each of its steps does. The lemmas take a successful
computation apart one step at a time.

* `ok_bind`: what follows a step that succeeds.
* `bind_eq_ok_iff`: one step, and what follows it. `bind_eq_error_iff`: the first step that fails.
* `foldlM_cons_eq_ok_iff`: a step for each element of a list. `foldlM_append_eq_ok_iff`: one list behind
  another. `foldlM_invariant`: what the steps keep.
-/

namespace RegisterLang

variable {ε ε' α β : Type}

theorem ok_bind (a : α) (next : α → Except ε β) : (.ok a >>= next) = next a := rfl

theorem bind_eq_ok_iff {x : Except ε α} {next : α → Except ε β} {b : β} :
    (x >>= next) = .ok b ↔ ∃ a, x = .ok a ∧ next a = .ok b := by
  cases x with
  | error e => simp [bind, Except.bind]
  | ok a => simp [bind, Except.bind]

theorem bind_eq_error_iff {x : Except ε α} {next : α → Except ε β} {e : ε} :
    (x >>= next) = .error e ↔ x = .error e ∨ ∃ a, x = .ok a ∧ next a = .error e := by
  cases x with
  | error e => simp [bind, Except.bind]
  | ok a => simp [bind, Except.bind]

theorem foldlM_cons_eq_ok_iff {step : β → α → Except ε β} {a : α} {as : List α} {s last : β} :
    (a :: as).foldlM step s = .ok last
      ↔ ∃ s', step s a = .ok s' ∧ as.foldlM step s' = .ok last := by
  rw [List.foldlM_cons, bind_eq_ok_iff]

theorem foldlM_append_eq_ok_iff {step : β → α → Except ε β} {as bs : List α} {s last : β} :
    (as ++ bs).foldlM step s = .ok last
      ↔ ∃ s', as.foldlM step s = .ok s' ∧ bs.foldlM step s' = .ok last := by
  rw [List.foldlM_append, bind_eq_ok_iff]

/-- What every step keeps is kept from the first to the last. -/
theorem foldlM_invariant {step : β → α → Except ε β} {kept : β → Prop}
    (hstep : ∀ s a s', kept s → step s a = .ok s' → kept s') {as : List α} {s last : β} (hs : kept s)
    (h : as.foldlM step s = .ok last) : kept last := by
  induction as generalizing s with
  | nil =>
    cases h
    exact hs
  | cons a as ih =>
    obtain ⟨s', hfirst, hrest⟩ := foldlM_cons_eq_ok_iff.mp h
    exact ih (hstep s a s' hs hfirst) hrest

theorem mapError_eq_ok_iff {x : Except ε α} {f : ε → ε'} {a : α} :
    x.mapError f = .ok a ↔ x = .ok a := by
  cases x with
  | error e =>
    constructor
    · intro h
      cases h
    · intro h
      cases h
  | ok b =>
    constructor
    · intro h
      cases h
      rfl
    · intro h
      cases h
      rfl

end RegisterLang
