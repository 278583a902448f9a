import Hella.Control.Course
import Hella.Control.Joins

/-!
# The barrier of a fork/join pair

Each path of a fork arrives with an entry of the join. In a properly nested plan with
distinct keys the variable of the pair is the number of entries still to come, and the
join's successor is entered right at the last one.
-/
namespace Hella

open Exec Text ForkJoin

/-- A fork/join pair with `n` paths after a history, by the entries of the join. -/
structure Barrier (f j : String) (n : Nat) (trace : List Act) : Prop where
  /-- the fork is taken at most once, and no path arrives before -/
  once : forked f trace ≤ 1
  none_early : forked f trace = 0 → entered j trace = 0
  /-- while the pair is active, its variable is the number of paths still to arrive -/
  counts : forked f trace = 1 → entered j trace < n →
    (varsOf trace).lookup (pairVar f j) = some (toString (n - entered j trace))
  no_more : entered j trace ≤ n
  /-- once all have arrived the variable is gone -/
  gone : entered j trace = n → (varsOf trace).lookup (pairVar f j) = none

section Entries

variable {wf : Workflow} {plan : Nested wf} {results : String → JobPlanNodeState → Prop} {trace before after : List Act}
  {phase : Phase} {p : String × String × Nat}

/-- An entry of a join that is still to be counted. -/
def Phase.uncounted (j : String) (phase : Phase) : Nat := tick (phase = .entered j ∨ phase = .counting j)

@[simp] theorem Phase.uncounted_outside (j : String) : Phase.outside.uncounted j = 0 := rfl

@[simp] theorem Phase.uncounted_released (name j : String) : (Phase.released name).uncounted j = 0 := rfl

@[simp] theorem Phase.uncounted_entered (name j : String) : (Phase.entered name).uncounted j = tick (name = j) := by
  simp [Phase.uncounted]

@[simp] theorem Phase.uncounted_counting (name j : String) : (Phase.counting name).uncounted j = tick (name = j) := by
  simp [Phase.uncounted]

theorem Phase.Admits.uncounted {name : String} (admits : phase.Admits name) (j : String) : phase.uncounted j = 0 := by
  obtain rfl | rfl := admits <;> rfl

theorem Counted.shows {f j : String} {n : Nat} (counted : Counted f j n trace)
    (same : entered j trace = arrivals j trace) : Barrier f j n trace := by
  refine ⟨counted.once, ?_, ?_, ?_, ?_⟩ <;> rw [same]
  · exact counted.none_early
  · exact counted.counts
  · exact counted.no_more
  · exact counted.gone

end Entries

namespace Diamond

end Diamond

end Hella
