import Mathlib.Logic.Basic

/-! Loops that end because a measure goes down.

A `Loop` has a body, which is `none` where the loop stops, and a measure that every
iteration decreases. `run` is the state in which it stops. The rules do without any
count of iterations: an iteration may be taken off (`run_step`), a stopped loop stays
(`run_done`), and what the body preserves holds at the end (`run_invariant`). -/

structure Loop (σ : Type) where
  step : σ → Option σ
  measure : σ → Nat
  decreases : ∀ {s s' : σ}, step s = some s' → measure s' < measure s

namespace Loop
variable {σ : Type} (l : Loop σ)

def iterate : Nat → σ → σ
  | 0, s => s
  | fuel + 1, s =>
    match l.step s with
    | none => s
    | some s' => iterate fuel s'

/-- The measure is enough iterations. -/
def run (s : σ) : σ := l.iterate (l.measure s) s

variable {l} {s s' : σ}

theorem iterate_done (h : l.step s = none) (fuel : Nat) : l.iterate fuel s = s := by
  cases fuel with
  | zero => rfl
  | succ fuel => rw [iterate, h]

theorem iterate_step (h : l.step s = some s') (fuel : Nat) :
    l.iterate (fuel + 1) s = l.iterate fuel s' := by
  rw [iterate, h]

/-- Beyond the measure, the number of iterations makes no difference. -/
theorem iterate_enough {n m : Nat} (hn : l.measure s ≤ n) (hm : l.measure s ≤ m) :
    l.iterate n s = l.iterate m s := by
  induction n generalizing m s with
  | zero =>
    cases hstep : l.step s with
    | none => rw [iterate_done hstep, iterate_done hstep]
    | some s' =>
      have hdec := l.decreases hstep
      omega
  | succ n ih =>
    cases hstep : l.step s with
    | none => rw [iterate_done hstep, iterate_done hstep]
    | some s' =>
      have hdec := l.decreases hstep
      obtain ⟨m, rfl⟩ := Nat.exists_eq_add_one_of_ne_zero (n := m) (by omega)
      rw [iterate_step hstep, iterate_step hstep]
      exact ih (by omega) (by omega)

theorem run_step (h : l.step s = some s') : l.run s = l.run s' := by
  have hdec := l.decreases h
  calc l.run s = l.iterate (l.measure s + 1) s := iterate_enough (by omega) (by omega)
    _ = l.iterate (l.measure s) s' := iterate_step h _
    _ = l.run s' := iterate_enough (by omega) (by omega)

theorem run_done (h : l.step s = none) : l.run s = s := iterate_done h _

/-- The loop has stopped at the end. -/
theorem step_run (s : σ) : l.step (l.run s) = none := by
  have hends : ∀ fuel s, l.measure s ≤ fuel → l.step (l.iterate fuel s) = none := by
    intro fuel
    induction fuel with
    | zero =>
      intro s hle
      cases hstep : l.step s with
      | none => exact hstep
      | some s' =>
        have hdec := l.decreases hstep
        omega
    | succ fuel ih =>
      intro s hle
      cases hstep : l.step s with
      | none => rwa [iterate_done hstep]
      | some s' =>
        have hdec := l.decreases hstep
        rw [iterate_step hstep]
        exact ih s' (by omega)
  exact hends _ s (Nat.le_refl _)

/-- What the body preserves holds after every iteration. -/
theorem iterate_invariant {P : σ → Prop} (hP : ∀ s s', l.step s = some s' → P s → P s') (h : P s) (n : Nat) :
    P (l.iterate n s) := by
  induction n generalizing s with
  | zero => exact h
  | succ n ih =>
    cases hstep : l.step s with
    | none =>
      rw [iterate_done hstep]
      exact h
    | some s' =>
      rw [iterate_step hstep]
      exact ih (hP s s' hstep h)

theorem run_invariant {P : σ → Prop} (hP : ∀ s s', l.step s = some s' → P s → P s') (h : P s) : P (l.run s) :=
  iterate_invariant hP h _

end Loop
