import Hella.Lib.Exec
import Mathlib.Order.WellFounded

/-!
# Bounded nesting

A recursive program cut off at some depth throws a throwable no catch clause of its
own takes. A larger depth can only replace such an end by a proper one: the shallower
program `Approximates` the deeper. So there are two cases for a state: from some depth
on every program does the same, or each one is cut off.
-/
namespace Exec

variable {ε σ α β : Type} {class_ : ε → Bool}

/-- The run ends in a throwable outside the class. -/
def Escapes (class_ : ε → Bool) (x : EStateM ε σ α) (s : σ) : Prop := ∃ e t, x s = .error e t ∧ class_ e = false

/-- Unless something escapes from the first program, it does what the second does. -/
def Approximates (class_ : ε → Bool) (x y : EStateM ε σ α) : Prop := ∀ s, Escapes class_ x s ∨ x s = y s

namespace Escapes

variable {x : EStateM ε σ α} {f : α → EStateM ε σ β} {s t : σ}

theorem bind (first : Escapes class_ x s) : Escapes class_ (x >>= f) s := by
  obtain ⟨e, t, thrown, outside⟩ := first
  exact ⟨e, t, bind_error thrown, outside⟩

theorem bind_ok {a : α} (returned : x s = .ok a t) (rest : Escapes class_ (f a) t) : Escapes class_ (x >>= f) s := by
  obtain ⟨e, u, thrown, outside⟩ := rest
  exact ⟨e, u, (Exec.bind_ok returned).trans thrown, outside⟩

theorem of_bind (escapes : Escapes class_ (x >>= f) s) :
    Escapes class_ x s ∨ ∃ a t, x s = .ok a t ∧ Escapes class_ (f a) t := by
  obtain ⟨e, u, thrown, outside⟩ := escapes
  rcases bind_throws thrown with first | ⟨a, t, returned, rest⟩
  · exact .inl ⟨e, u, first, outside⟩
  · exact .inr ⟨a, t, returned, e, u, rest, outside⟩

theorem catching {handler : ε → EStateM ε σ α} (body : Escapes class_ x s) :
    Escapes class_ (Exec.catching class_ x handler) s := by
  obtain ⟨e, t, thrown, outside⟩ := body
  exact ⟨e, t, by simp [Exec.catching, thrown, outside], outside⟩

/-- Nothing escapes from a handler, so what escapes comes from the body. -/
theorem of_catching {handler : ε → EStateM ε σ α} (safe : ∀ e t, class_ e = true → ¬ Escapes class_ (handler e) t)
    (escapes : Escapes class_ (Exec.catching class_ x handler) s) : Escapes class_ x s := by
  obtain ⟨e, t, thrown, outside⟩ := escapes
  unfold Exec.catching at thrown
  split at thrown
  · cases thrown
  next e' u inner =>
    split at thrown
    next inside => exact absurd ⟨e, t, thrown, outside⟩ (safe e' u inside)
    next =>
      cases thrown
      exact ⟨e, t, inner, outside⟩

theorem pure {a : α} : ¬ Escapes class_ (Pure.pure a : EStateM ε σ α) s := by
  rintro ⟨e, t, thrown, -⟩
  cases thrown

end Escapes

namespace Approximates

variable {x y z : EStateM ε σ α} {f g : α → EStateM ε σ β}

theorem refl (x : EStateM ε σ α) : Approximates class_ x x := fun _ => .inr rfl

theorem escapes {s : σ} (approximates : Approximates class_ x y) (deeper : Escapes class_ y s) :
    Escapes class_ x s := by
  rcases approximates s with cut | same
  · exact cut
  · obtain ⟨e, t, thrown, outside⟩ := deeper
    exact ⟨e, t, same.trans thrown, outside⟩

theorem proper {s : σ} (approximates : Approximates class_ x y) (shallow : ¬ Escapes class_ x s) :
    ¬ Escapes class_ y s :=
  fun deeper => shallow (approximates.escapes deeper)

theorem eq {s : σ} (approximates : Approximates class_ x y) (proper : ¬ Escapes class_ x s) : y s = x s :=
  ((approximates s).resolve_left proper).symm

theorem ok {s t : σ} {a : α} (approximates : Approximates class_ x y) (returned : x s = .ok a t) : y s = .ok a t := by
  rcases approximates s with ⟨e, u, thrown, -⟩ | same
  · cases returned.symm.trans thrown
  · exact same.symm.trans returned

theorem bind (first : Approximates class_ x y) (rest : ∀ a, Approximates class_ (f a) (g a)) :
    Approximates class_ (x >>= f) (y >>= g) := by
  intro s
  rcases first s with cut | same
  · exact .inl cut.bind
  · simp only [bind_apply, ← same]
    cases result : x s with
    | error e t => exact .inr rfl
    | ok a t =>
      rcases rest a t with cut | same'
      · exact .inl (cut.bind_ok result)
      · exact .inr same'

theorem catching (body : Approximates class_ x y) (handler : ε → EStateM ε σ α) :
    Approximates class_ (Exec.catching class_ x handler) (Exec.catching class_ y handler) := by
  intro s
  rcases body s with cut | same
  · exact .inl cut.catching
  · right
    unfold Exec.catching
    rw [same]

theorem forM {body body' : α → EStateM ε σ PUnit} (turn : ∀ a, Approximates class_ (body a) (body' a))
    (items : List α) : Approximates class_ (items.forM body) (items.forM body') := by
  induction items with
  | nil => exact refl _
  | cons a rest ih => exact bind (turn a) fun _ => ih

end Approximates

/-- From some depth on the programs end properly, and all in the same way. -/
def Settles (class_ : ε → Bool) (program : Nat → EStateM ε σ α) (s : σ) : Prop :=
  ∃ room, ¬ Escapes class_ (program room) s ∧ ∀ depth ≥ room, program depth s = program room s

theorem settles_of_proper {program : Nat → EStateM ε σ α} {s : σ} {depth : Nat}
    (deeper : ∀ m n, m ≤ n → Approximates class_ (program m) (program n))
    (proper : ¬ Escapes class_ (program depth) s) :
    Settles class_ program s := ⟨depth, proper, fun n more => (deeper depth n more).eq proper⟩

theorem Settles.not_escapes {program : Nat → EStateM ε σ α} {s : σ} (settles : Settles class_ program s) :
    ¬ ∀ depth, Escapes class_ (program depth) s := by
  obtain ⟨room, proper, -⟩ := settles
  exact fun cut => proper (cut room)

end Exec
