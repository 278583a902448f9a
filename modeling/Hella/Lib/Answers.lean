import Mathlib.Data.List.Basic
import Mathlib.Data.Nat.Find

/-!
# Answers to numbered requests

An oracle answers the `n`-th request with `f n`. It `Gives` a list of answers from
some request on if it answers the requests from there with the list. Finitely many
answers at a time, block after block without end, make one oracle.
-/
namespace Answers

variable {α : Type}

/-- The requests from `n` on are answered with the list. -/
def Gives (f : Nat → α) : Nat → List α → Prop
  | _, [] => True
  | n, a :: rest => f n = a ∧ Gives f (n + 1) rest

variable {f : Nat → α} {n : Nat}

theorem gives_append {first second : List α} :
    Gives f n (first ++ second) ↔ Gives f n first ∧ Gives f (n + first.length) second := by
  induction first generalizing n with
  | nil => simp [Gives]
  | cons a rest ih =>
    have shift : n + 1 + rest.length = n + (a :: rest).length := by
      rw [List.length_cons]
      omega
    simp only [List.cons_append, Gives, ih, shift, and_assoc]

theorem Gives.replicate {a : α} {count k : Nat} (gives : Gives f n (List.replicate count a)) (inside : k < count) :
    f (n + k) = a := by
  induction count generalizing n k with
  | zero => omega
  | succ count ih =>
    cases k with
    | zero => exact gives.1
    | succ k =>
      have later := ih gives.2 (by omega : k < count)
      rwa [Nat.add_right_comm] at later

theorem gives_of_getElem {answers : List α} (given : ∀ k a, answers[k]? = some a → f (n + k) = a) :
    Gives f n answers := by
  induction answers generalizing n with
  | nil => trivial
  | cons a rest ih =>
    refine ⟨given 0 a rfl, ih fun k b there => ?_⟩
    have later := given (k + 1) b there
    rwa [← Nat.add_assoc, Nat.add_right_comm] at later

/-- The blocks with another one in the first place. -/
def startingWith (first : List α) (blocks : Nat → List α) : Nat → List α
  | 0 => first
  | i + 1 => blocks (i + 1)

/-- The first blocks, one after the other. -/
def front (blocks : Nat → List α) : Nat → List α
  | 0 => []
  | i + 1 => front blocks i ++ blocks i

theorem front_extends (blocks : Nat → List α) {i j : Nat} (before : i ≤ j) : front blocks i <+: front blocks j := by
  induction before with
  | refl => exact List.prefix_rfl
  | step _ ih => exact ih.trans (List.prefix_append _ _)

/-- Some oracle gives all the blocks. -/
theorem exists_oracle [Inhabited α] (blocks : Nat → List α) :
    ∃ f : Nat → α, ∀ i, Gives f (front blocks i).length (blocks i) := by
  classical
  -- an answer is read off the first front that is long enough for it
  let f (n : Nat) : α :=
    if long : ∃ i, n < (front blocks i).length then (front blocks (Nat.find long)).getD n default else default
  have reads (i n : Nat) (a : α) (there : (front blocks i)[n]? = some a) : f n = a := by
    have inside : n < (front blocks i).length := (List.getElem?_eq_some_iff.mp there).1
    have long : ∃ i, n < (front blocks i).length := ⟨i, inside⟩
    have same : (front blocks (Nat.find long))[n]? = some a := by
      have first := List.prefix_iff_getElem?.mp (front_extends blocks (Nat.find_min' long inside))
      rw [List.getElem?_eq_getElem (Nat.find_spec long), ← first n (Nat.find_spec long)]
      exact there
    simp only [f, dif_pos long, List.getD_eq_getElem?_getD, same, Option.getD_some]
  refine ⟨f, fun i => ?_⟩
  have all : Gives f 0 (front blocks (i + 1)) := gives_of_getElem fun k a there => by
    rw [Nat.zero_add]
    exact reads (i + 1) k a there
  have last := (gives_append.mp all).2
  rwa [Nat.zero_add] at last

end Answers
