import Hella.Engine.JobEvents
import Hella.Lib.Monitor

/-!
# Wake-ups of the storehouse

`push` and `pop` wait in one wait set and wake one thread of it with `notify`. A producer
that finds the consumer waiting may wake another producer instead. With twice as many
producers as places that can go on until the storehouse is full and everybody waits.
-/
namespace Hella

open Monitor

namespace JobEventStorehouse

/-- The producers `some i` call `push`, the consumer `none` calls `pop`. -/
def methods (ι : Type) : Methods (Option ι) JobEventStorehouse where
  waits
    | some _, h => h.isFull = true
    | none, h => h.pop = none
  acts
    | some _, h, h' => ∃ product, h' = h.push product
    | none, h, h' => ∃ product, h.pop = some (product, h')

/-- The array has this length, and `top` is an index of it or its end. -/
structure Fits (n : Nat) (h : JobEventStorehouse) : Prop where
  length : h.products.length = n
  top : h.top ≤ n

section

variable {n : Nat} {h h' : JobEventStorehouse}

theorem Fits.isFull_iff (fits : h.Fits n) : h.isFull = true ↔ h.top = n := by
  rw [isFull, beq_iff_eq, fits.length]

theorem pop_eq_none : h.pop = none ↔ h.top = 0 := by
  unfold pop
  split <;> simp_all

theorem Fits.push (fits : h.Fits n) (room : h.top ≠ n) (product : ChainedEvent) : (h.push product).Fits n := by
  have top := fits.top
  exact ⟨(List.length_set ..).trans fits.length, show h.top + 1 ≤ n by omega⟩

theorem Fits.pop (fits : h.Fits n) {product : Option ChainedEvent} (popped : h.pop = some (product, h')) :
    h'.Fits n ∧ h.top = h'.top + 1 := by
  have top := fits.top
  unfold JobEventStorehouse.pop at popped
  split at popped
  next => cases popped
  next rest one =>
    obtain ⟨-, rfl⟩ := Prod.mk.inj (Option.some.inj popped)
    exact ⟨⟨(List.length_set ..).trans fits.length, show rest ≤ n by omega⟩, one⟩

theorem buffer (ι : Type) (n : Nat) : Buffer (methods ι) (Fits n) top n where
  bounded fits := fits.top
  full fits := fits.isFull_iff
  empty _ := pop_eq_none
  put := by
    rintro h _ i fits room ⟨product, rfl⟩
    exact ⟨fits.push room product, rfl⟩
  take := by
    rintro h h' fits _ ⟨product, popped⟩
    exact fits.pop popped
  puts _ _ _ := ⟨_, ⟨none, 0⟩, rfl⟩
  takes := by
    intro h _ some_
    cases popped : h.pop with
    | none => exact absurd (pop_eq_none.mp popped) some_
    | some result => exact ⟨result.2, result.1, popped⟩

theorem construct_fits (positive : 0 < n) : (construct n).Fits n ∧ (construct n).top = 0 := by
  have size : (construct n).products.length = n := by
    simp [construct, positive]
  exact ⟨⟨size, Nat.zero_le n⟩, rfl⟩

end

/-- No wake-up of a storehouse is lost exactly if there are fewer than two producers to
each of its places. -/
theorem no_lostWakeUp_iff (ι : Type) [Fintype ι] [DecidableEq ι] (n : Nat) (positive : 0 < n) :
    (∀ s, Reachable (methods ι) (construct n) s → ¬ LostWakeUp (methods ι) s) ↔ Fintype.card ι < 2 * n := by
  obtain ⟨fits, empty⟩ := construct_fits positive
  constructor
  · intro awake
    by_contra many
    obtain ⟨s, reachable, lost⟩ := Buffer.asleep (buffer ι n) positive (Nat.le_of_not_lt many) fits empty
    exact awake s reachable lost
  · intro few s reachable
    exact Buffer.awake (buffer ι n) positive few fits reachable

/-- Three producers, two places. -/
theorem no_lostWakeUp_three :
    Fintype.card (Fin 3) < 2 * 2 ∧ ∀ s, Reachable (methods (Fin 3)) (construct 2) s →
      ¬ LostWakeUp (methods (Fin 3)) s :=
  ⟨by decide, (no_lostWakeUp_iff (Fin 3) 2 (by decide)).mpr (by decide)⟩

/-- Two producers, one place. -/
theorem lostWakeUp_two : ∃ s, Reachable (methods (Fin 2)) (construct 1) s ∧ LostWakeUp (methods (Fin 2)) s :=
  Buffer.asleep (buffer (Fin 2) 1) Nat.one_pos (by simp) (construct_fits Nat.one_pos).1 rfl

end JobEventStorehouse

end Hella
