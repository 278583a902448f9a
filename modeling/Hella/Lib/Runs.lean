/-!
# Runs of a labelled transition system

A run starts in an initial state and makes steps that are admitted by a guard. The
guard sees the state before the step and the step's label.
-/
namespace Runs

variable {σ α : Type}

structure System (σ α : Type) where
  initial : σ → Prop
  step : σ → α → σ → Prop

/-- The states of the runs whose steps the guard admits. -/
inductive Reachable (sys : System σ α) (guard : σ → α → Prop) : σ → Prop where
  | start {s : σ} (initial : sys.initial s) : Reachable sys guard s
  | next {s t : σ} {a : α} (before : Reachable sys guard s) (admitted : guard s a) (step : sys.step s a t) :
      Reachable sys guard t

namespace Reachable

variable {sys : System σ α} {guard other : σ → α → Prop} {s t : σ}

/-- What holds initially and is kept by every admitted step holds throughout. -/
theorem invariant {I : σ → Prop} (initially : ∀ s, sys.initial s → I s)
    (keeps : ∀ s a t, I s → guard s a → sys.step s a t → I t) (reachable : Reachable sys guard s) : I s := by
  induction reachable with
  | start initial => exact initially _ initial
  | next _ admitted step ih => exact keeps _ _ _ ih admitted step

theorem mono (weaker : ∀ s a, guard s a → other s a) (reachable : Reachable sys guard s) : Reachable sys other s := by
  induction reachable with
  | start initial => exact .start initial
  | next _ admitted step ih => exact .next ih (weaker _ _ admitted) step

end Reachable

end Runs
