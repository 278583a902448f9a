import Mathlib.Order.Defs.Unbundled

/-!
# What is bound to happen

`Arrives step goal n s`: from `s`, however the steps are chosen, the goal is reached after at
most `n` of them, and before it is reached there is always a step to be made.
-/
namespace Runs

variable {σ : Type} {step : σ → σ → Prop} {goal : σ → Prop} {s : σ} {n m : Nat}

inductive Arrives (step : σ → σ → Prop) (goal : σ → Prop) : Nat → σ → Prop where
  | now {s : σ} (n : Nat) (reached : goal s) : Arrives step goal n s
  | later {s : σ} {n : Nat} (onward : ∃ t, step s t) (each : ∀ t, step s t → Arrives step goal n t) :
      Arrives step goal (n + 1) s

namespace Arrives

theorem mono (arrives : Arrives step goal n s) (less : n ≤ m) : Arrives step goal m s := by
  induction arrives generalizing m with
  | now _ reached => exact now m reached
  | later onward _ ih =>
    obtain ⟨m, rfl⟩ : ∃ k, m = k + 1 := ⟨m - 1, by omega⟩
    exact later onward fun t made => ih t made (by omega)

/-- A measure that every step short of the goal makes smaller bounds the number of steps. -/
theorem of_measure {I : σ → Prop} (measure : σ → Nat) (progress : ∀ s, I s → ¬ goal s → ∃ t, step s t)
    (keeps : ∀ s t, I s → ¬ goal s → step s t → I t ∧ measure t < measure s) (holds : I s) :
    Arrives step goal (measure s) s := by
  generalize bound : measure s = n
  induction n using Nat.strongRecOn generalizing s with
  | _ n ih =>
    by_cases reached : goal s
    · exact now n reached
    · have descends (t : σ) (made : step s t) : Arrives step goal (n - 1) t ∧ 0 < n := by
        obtain ⟨holds', less⟩ := keeps s t holds reached made
        exact ⟨(ih (measure t) (by omega) holds' rfl).mono (by omega), by omega⟩
      obtain ⟨t, made⟩ := progress s holds reached
      obtain ⟨n, rfl⟩ : ∃ k, n = k + 1 := ⟨n - 1, by have := (descends t made).2; omega⟩
      exact later ⟨t, made⟩ fun t made => (descends t made).1

end Arrives

end Runs
