import Mathlib.Order.Defs.Unbundled

/-!
# Imperative code with exceptions

Programs are `EStateM ε σ`: an exception keeps the state reached when it was
thrown, as in Java. `catching` is a catch clause for one class of throwables and
`zoom` runs a program on a part of the state. `Triple` is partial correctness
with a separate postcondition for a throw; `Keeps` is its case of one condition
that holds before and after, however the program ends.
-/
namespace Exec

variable {ε σ τ α β : Type}

/-- The state a run ends in, whether it returned or threw. -/
def after : EStateM.Result ε σ α → σ
  | .ok _ s => s
  | .error _ s => s

@[simp] theorem after_ok (a : α) (s : σ) : after (.ok a s : EStateM.Result ε σ α) = s := rfl

@[simp] theorem after_error (e : ε) (s : σ) : after (.error e s : EStateM.Result ε σ α) = s := rfl

/-- The value a run returned. -/
def answer? : EStateM.Result ε σ α → Option α
  | .ok a _ => some a
  | .error _ _ => none

theorem ok_of_answer? {x : EStateM ε σ α} {s : σ} {a : α} (answered : answer? (x s) = some a) :
    x s = .ok a (after (x s)) := by
  cases same : x s with
  | ok b t =>
    rw [same] at answered
    cases answered
    rfl
  | error e t =>
    rw [same] at answered
    cases answered

/-- A catch clause: throwables outside `class_` pass through. -/
def catching (class_ : ε → Bool) (body : EStateM ε σ α) (handler : ε → EStateM ε σ α) :
    EStateM ε σ α := fun s =>
  match body s with
  | .ok a t => .ok a t
  | .error e t => if class_ e then handler e t else .error e t

/-- Run a program on the part of the state selected by `get` and written by `set`. -/
def zoom (get : σ → τ) (set : σ → τ → σ) (body : EStateM ε τ α) : EStateM ε σ α := fun s =>
  match body (get s) with
  | .ok a t => .ok a (set s t)
  | .error e t => .error e (set s t)

theorem catching_ok {class_ : ε → Bool} {body : EStateM ε σ α} {handler : ε → EStateM ε σ α} {s t : σ} {a : α}
    (returned : body s = .ok a t) : catching class_ body handler s = .ok a t := by
  simp only [catching, returned]

theorem catching_error {class_ : ε → Bool} {body : EStateM ε σ α} {handler : ε → EStateM ε σ α} {s t : σ} {e : ε}
    (thrown : body s = .error e t) (inside : class_ e = true) : catching class_ body handler s = handler e t := by
  simp only [catching, thrown, inside, if_true]

/-- A value comes from the body or from the handler. -/
theorem catching_returns {class_ : ε → Bool} {body : EStateM ε σ α} {handler : ε → EStateM ε σ α} {s t : σ} {a : α}
    (returned : catching class_ body handler s = .ok a t) :
    body s = .ok a t ∨ ∃ e u, body s = .error e u ∧ class_ e = true ∧ handler e u = .ok a t := by
  unfold catching at returned
  split at returned
  next a u ended =>
    cases returned
    exact .inl ended
  next e u thrown =>
    split at returned
    next inside => exact .inr ⟨e, u, thrown, inside, returned⟩
    · cases returned

@[simp] theorem pure_apply (a : α) (s : σ) : (pure a : EStateM ε σ α) s = .ok a s := rfl

@[simp] theorem throw_apply (e : ε) (s : σ) : (throw e : EStateM ε σ α) s = .error e s := rfl

@[simp] theorem get_apply (s : σ) : (get : EStateM ε σ σ) s = .ok s s := rfl

@[simp] theorem modify_apply (f : σ → σ) (s : σ) :
    (modify f : EStateM ε σ PUnit) s = .ok ⟨⟩ (f s) := rfl

@[simp] theorem modifyGet_apply (f : σ → α × σ) (s : σ) :
    (modifyGet f : EStateM ε σ α) s = .ok (f s).1 (f s).2 := rfl

theorem bind_apply (x : EStateM ε σ α) (f : α → EStateM ε σ β) (s : σ) :
    (x >>= f) s = match x s with
      | .ok a t => f a t
      | .error e t => .error e t := by
  cases same : x s <;> simp [bind, EStateM.bind, same]

theorem bind_ok {x : EStateM ε σ α} {f : α → EStateM ε σ β} {s t : σ} {a : α}
    (first : x s = .ok a t) : (x >>= f) s = f a t := by rw [bind_apply, first]

theorem bind_error {x : EStateM ε σ α} {f : α → EStateM ε σ β} {s t : σ} {e : ε}
    (first : x s = .error e t) : (x >>= f) s = .error e t := by rw [bind_apply, first]

/-- Whether the value is looked at makes no difference to the state. -/
theorem after_discard (x : EStateM ε σ α) (s : σ) : after ((discard x : EStateM ε σ PUnit) s) = after (x s) := by
  change after (EStateM.map (fun _ => PUnit.unit) x s) = _
  unfold EStateM.map
  cases x s <;> rfl

theorem bind_throws {x : EStateM ε σ α} {f : α → EStateM ε σ β} {s u : σ} {e : ε} (thrown : (x >>= f) s = .error e u) :
    x s = .error e u ∨ ∃ a t, x s = .ok a t ∧ f a t = .error e u := by
  rw [bind_apply] at thrown
  split at thrown
  next a t returned => exact .inr ⟨a, t, returned, thrown⟩
  next e t thrown' =>
    cases thrown
    exact .inl thrown'

theorem bind_returns {x : EStateM ε σ α} {f : α → EStateM ε σ β} {s u : σ} {b : β} (returned : (x >>= f) s = .ok b u) :
    ∃ a t, x s = .ok a t ∧ f a t = .ok b u := by
  rw [bind_apply] at returned
  split at returned
  next a t first => exact ⟨a, t, first, returned⟩
  · cases returned

/-! ### Triples -/

def Triple (P : σ → Prop) (x : EStateM ε σ α) (Q : α → σ → Prop) (E : ε → σ → Prop) : Prop :=
  ∀ s, P s → match x s with
    | .ok a t => Q a t
    | .error e t => E e t

namespace Triple

variable {P P' : σ → Prop} {Q Q' : α → σ → Prop} {R : β → σ → Prop} {E E' : ε → σ → Prop}
  {x : EStateM ε σ α} {f : α → EStateM ε σ β}

theorem ok {s t : σ} {a : α} (triple : Triple P x Q E) (pre : P s) (returned : x s = .ok a t) :
    Q a t := by simpa only [returned] using triple s pre

theorem error {s t : σ} {e : ε} (triple : Triple P x Q E) (pre : P s)
    (thrown : x s = .error e t) : E e t := by simpa only [thrown] using triple s pre

theorem conseq (triple : Triple P' x Q' E') (pre : ∀ s, P s → P' s)
    (post : ∀ a s, Q' a s → Q a s) (except : ∀ e s, E' e s → E e s) : Triple P x Q E := by
  intro s holds
  have result := triple s (pre s holds)
  split at result
  · exact post _ _ result
  · exact except _ _ result

theorem pure {a : α} (holds : ∀ s, P s → Q a s) : Triple P (Pure.pure a : EStateM ε σ α) Q E :=
  fun s pre => holds s pre

theorem throw {e : ε} (holds : ∀ s, P s → E e s) :
    Triple P (MonadExcept.throw e : EStateM ε σ α) Q E :=
  fun s pre => holds s pre

theorem bind (first : Triple P x Q E) (rest : ∀ a, Triple (Q a) (f a) R E) :
    Triple P (x >>= f) R E := by
  intro s pre
  have result := first s pre
  rw [bind_apply]
  split at result
  next a t returned => simpa only [returned] using rest a t result
  next e t thrown => simpa only [thrown] using result

theorem getting {Q : σ → σ → Prop} (holds : ∀ s, P s → Q s s) :
    Triple P (get : EStateM ε σ σ) Q E := fun s pre => holds s pre

theorem modifying {g : σ → σ} {Q : PUnit → σ → Prop} (holds : ∀ s, P s → Q ⟨⟩ (g s)) :
    Triple P (modify g : EStateM ε σ PUnit) Q E := fun s pre => holds s pre

/-- A caught throwable goes on in the handler, any other leaves as it came. -/
theorem catching {F : ε → σ → Prop} {class_ : ε → Bool} {handler : ε → EStateM ε σ α}
    (body : Triple P x Q F) (caught : ∀ e, class_ e = true → Triple (F e) (handler e) Q E)
    (passing : ∀ e s, class_ e = false → F e s → E e s) :
    Triple P (Exec.catching class_ x handler) Q E := by
  intro s pre
  have result := body s pre
  unfold Exec.catching
  split at result
  next a t returned => simpa only [returned] using result
  next e t thrown =>
    cases same : class_ e with
    | true => simpa only [thrown, same, if_true] using caught e same t result
    | false => simpa only [thrown, same, Bool.false_eq_true, if_false] using passing e t same result

/-- The invariant of a loop speaks about the elements still to come. -/
theorem forM {I : List α → σ → Prop} {body : α → EStateM ε σ PUnit}
    (turn : ∀ a rest, Triple (I (a :: rest)) (body a) (fun _ => I rest) E) (items : List α) :
    Triple (I items) (items.forM body) (fun _ => I []) E := by
  induction items with
  | nil => exact pure fun _ holds => holds
  | cons a rest ih => exact bind (turn a rest) fun _ => ih

theorem trivial : Triple P x (fun _ _ => True) (fun _ _ => True) := by
  intro s _
  split <;> exact True.intro

theorem of_false : Triple (fun _ => False) x Q E := fun _ absurd => absurd.elim

theorem of_imp {p : Prop} (given : p → Triple P x Q E) (known : ∀ s, P s → p) : Triple P x Q E :=
  fun s pre => given (known s pre) s pre

theorem pointwise (holds : ∀ s, P s → Triple (· = s) x Q E) : Triple P x Q E :=
  fun s pre => holds s pre s rfl

theorem and {Q' : α → σ → Prop} (one : Triple P x Q E) (other : Triple P' x Q' E') :
    Triple (fun s => P s ∧ P' s) x (fun a s => Q a s ∧ Q' a s) (fun e s => E e s ∧ E' e s) := by
  intro s pre
  have first := one s pre.1
  have second := other s pre.2
  cases same : x s <;> simp only [same] at first second <;> exact ⟨first, second⟩

/-- What is said of the end whether the program returned or threw. -/
theorem after {Q : σ → Prop} {s : σ} (triple : Triple P x (fun _ => Q) fun _ => Q) (pre : P s) :
    Q (Exec.after (x s)) := by
  have result := triple s pre
  cases same : x s <;> simpa [same] using result

theorem of_after {Q : σ → Prop} (holds : ∀ s, P s → Q (Exec.after (x s))) : Triple P x (fun _ => Q) fun _ => Q := by
  intro s pre
  have result := holds s pre
  cases same : x s <;> simpa [same] using result

end Triple

/-! ### Invariants -/

def Keeps (I : σ → Prop) (x : EStateM ε σ α) : Prop := Triple I x (fun _ => I) (fun _ => I)

namespace Keeps

variable {I : σ → Prop} {x : EStateM ε σ α} {f : α → EStateM ε σ β}

theorem after {s : σ} (keeps : Keeps I x) (holds : I s) : I (Exec.after (x s)) := Triple.after keeps holds

theorem of_after (holds : ∀ s, I s → I (Exec.after (x s))) : Keeps I x := Triple.of_after holds

theorem pure (a : α) : Keeps I (Pure.pure a : EStateM ε σ α) := Triple.pure fun _ holds => holds

theorem throw (e : ε) : Keeps I (MonadExcept.throw e : EStateM ε σ α) :=
  Triple.throw fun _ holds => holds

theorem getting : Keeps I (get : EStateM ε σ σ) := Triple.getting fun _ holds => holds

theorem modifying {g : σ → σ} (holds : ∀ s, I s → I (g s)) :
    Keeps I (modify g : EStateM ε σ PUnit) := Triple.modifying holds

theorem bind (first : Keeps I x) (rest : ∀ a, Keeps I (f a)) : Keeps I (x >>= f) :=
  Triple.bind first rest

theorem catching {class_ : ε → Bool} {handler : ε → EStateM ε σ α} (body : Keeps I x)
    (caught : ∀ e, class_ e = true → Keeps I (handler e)) :
    Keeps I (Exec.catching class_ x handler) :=
  Triple.catching body caught fun _ _ _ holds => holds

theorem forM {body : α → EStateM ε σ PUnit} {items : List α} (turn : ∀ a ∈ items, Keeps I (body a)) :
    Keeps I (items.forM body) := by
  induction items with
  | nil => exact pure PUnit.unit
  | cons a rest ih =>
    exact bind (turn a (by simp)) fun _ => ih fun b member => turn b (by simp [member])

theorem zoom {J : τ → Prop} {get : σ → τ} {set : σ → τ → σ} {body : EStateM ε τ α}
    (keeps : Keeps J body) (read : ∀ s, I s → J (get s)) (write : ∀ s t, I s → J t → I (set s t)) :
    Keeps I (Exec.zoom get set body) := by
  intro s holds
  have result := keeps (get s) (read s holds)
  unfold Exec.zoom
  cases same : body (get s) <;> simp only [same] at result ⊢ <;> exact write s _ holds result

end Keeps

/-- The invariant is all that the code needs of what holds before. -/
theorem Keeps.under {I P : σ → Prop} {x : EStateM ε σ α} (keeps : Keeps I x) (given : ∀ s, P s → I s) :
    Triple P x (fun _ => I) fun _ => I :=
  keeps.conseq given (fun _ _ holds => holds) fun _ _ holds => holds

theorem Keeps.discard {I : σ → Prop} {x : EStateM ε σ α} (keeps : Keeps I x) :
    Keeps I (Functor.discard x : EStateM ε σ PUnit) := by
  apply Keeps.of_after
  intro s holds
  rw [after_discard]
  exact keeps.after holds

/-! ### Invariants and what may be thrown -/

/-- The invariant is kept and every throwable is in `A`. -/
def Guarded (I : σ → Prop) (A : ε → Prop) (x : EStateM ε σ α) : Prop := Triple I x (fun _ => I) fun e s => I s ∧ A e

namespace Guarded

variable {I : σ → Prop} {A B : ε → Prop} {x : EStateM ε σ α} {f : α → EStateM ε σ β}

theorem keeps (guarded : Guarded I A x) : Keeps I x :=
  guarded.conseq (fun _ holds => holds) (fun _ _ holds => holds) fun _ _ holds => holds.1

theorem mono (guarded : Guarded I A x) (weaker : ∀ e, A e → B e) : Guarded I B x :=
  guarded.conseq (fun _ holds => holds) (fun _ _ holds => holds) fun e _ holds => ⟨holds.1, weaker e holds.2⟩

theorem pure (a : α) : Guarded I A (Pure.pure a : EStateM ε σ α) := Triple.pure fun _ holds => holds

theorem throw {e : ε} (allowed : A e) : Guarded I A (MonadExcept.throw e : EStateM ε σ α) :=
  Triple.throw fun _ holds => ⟨holds, allowed⟩

theorem getting : Guarded I A (get : EStateM ε σ σ) := Triple.getting fun _ holds => holds

theorem modifying {g : σ → σ} (holds : ∀ s, I s → I (g s)) : Guarded I A (modify g : EStateM ε σ PUnit) :=
  Triple.modifying holds

theorem bind (first : Guarded I A x) (rest : ∀ a, Guarded I A (f a)) : Guarded I A (x >>= f) := Triple.bind first rest

/-- Only what the clause does not catch gets out. -/
theorem catching {class_ : ε → Bool} {handler : ε → EStateM ε σ α} (body : Guarded I A x)
    (caught : ∀ e, class_ e = true → Guarded I B (handler e)) (passing : ∀ e, A e → class_ e = false → B e) :
    Guarded I B (Exec.catching class_ x handler) :=
  Triple.catching body (fun e inside => (caught e inside).conseq (fun _ holds => holds.1) (fun _ _ holds => holds)
    fun _ _ holds => holds) fun e _ outside holds => ⟨holds.1, passing e holds.2 outside⟩

theorem forM {body : α → EStateM ε σ PUnit} {items : List α} (turn : ∀ a ∈ items, Guarded I A (body a)) :
    Guarded I A (items.forM body) := by
  induction items with
  | nil => exact pure PUnit.unit
  | cons a rest ih => exact bind (turn a (by simp)) fun _ => ih fun b member => turn b (by simp [member])

theorem zoom {J : τ → Prop} {get : σ → τ} {set : σ → τ → σ} {body : EStateM ε τ α}
    (guarded : Guarded J A body) (read : ∀ s, I s → J (get s)) (write : ∀ s t, I s → J t → I (set s t)) :
    Guarded I A (Exec.zoom get set body) := by
  intro s holds
  have result := guarded (get s) (read s holds)
  unfold Exec.zoom
  cases same : body (get s) <;> simp only [same] at result ⊢
  · exact write s _ holds result
  · exact ⟨write s _ holds result.1, result.2⟩

/-- What can throw nothing returns. -/
theorem returns {s : σ} (guarded : Guarded I (fun _ => False) x) (holds : I s) : ∃ a t, x s = .ok a t ∧ I t := by
  have result := guarded s holds
  cases same : x s <;> simp only [same] at result
  · exact ⟨_, _, rfl, result⟩
  · exact result.2.elim

end Guarded

/-! ### Total correctness -/

/-- From `s` the program returns, with a value and a state as described. -/
def Returns (x : EStateM ε σ α) (s : σ) (Q : α → σ → Prop) : Prop := ∃ a t, x s = .ok a t ∧ Q a t

namespace Returns

variable {x : EStateM ε σ α} {f : α → EStateM ε σ β} {s : σ} {Q Q' : α → σ → Prop} {R : β → σ → Prop}

theorem pure {a : α} (holds : Q a s) : Returns (Pure.pure a : EStateM ε σ α) s Q := ⟨a, s, rfl, holds⟩

theorem getting {Q : σ → σ → Prop} (holds : Q s s) : Returns (get : EStateM ε σ σ) s Q := ⟨s, s, rfl, holds⟩

theorem modifying {g : σ → σ} {Q : PUnit → σ → Prop} (holds : Q ⟨⟩ (g s)) :
    Returns (modify g : EStateM ε σ PUnit) s Q := ⟨⟨⟩, g s, rfl, holds⟩

theorem after {Q : σ → Prop} (returns : Returns x s fun _ => Q) : Q (Exec.after (x s)) := by
  obtain ⟨a, t, returned, holds⟩ := returns
  rw [returned, after_ok]
  exact holds

theorem conseq (returns : Returns x s Q') (post : ∀ a t, Q' a t → Q a t) : Returns x s Q := by
  obtain ⟨a, t, returned, holds⟩ := returns
  exact ⟨a, t, returned, post a t holds⟩

theorem bind (first : Returns x s Q) (rest : ∀ a t, Q a t → Returns (f a) t R) : Returns (x >>= f) s R := by
  obtain ⟨a, t, returned, holds⟩ := first
  obtain ⟨b, u, returned', holds'⟩ := rest a t holds
  exact ⟨b, u, (bind_ok returned).trans returned', holds'⟩

/-- Code that reads the state first. -/
theorem reading {f : σ → EStateM ε σ β} (rest : Returns (f s) s R) : Returns (get >>= f) s R := rest

theorem catching {class_ : ε → Bool} {handler : ε → EStateM ε σ α} (body : Returns x s Q) :
    Returns (Exec.catching class_ x handler) s Q := by
  obtain ⟨a, t, returned, holds⟩ := body
  exact ⟨a, t, by simp [Exec.catching, returned], holds⟩

/-- A throwable of the class goes on in the handler. -/
theorem caught {class_ : ε → Bool} {handler : ε → EStateM ε σ α} {e : ε} {t : σ} (thrown : x s = .error e t)
    (inside : class_ e = true) (handled : Returns (handler e) t Q) : Returns (Exec.catching class_ x handler) s Q := by
  obtain ⟨a, u, returned, holds⟩ := handled
  exact ⟨a, u, by simp [Exec.catching, thrown, inside, returned], holds⟩

theorem zoom {get : τ → σ} {set : τ → σ → τ} {t : τ} (returns : Returns x (get t) Q) :
    Returns (Exec.zoom get set x) t fun a u => ∃ s, u = set t s ∧ Q a s := by
  obtain ⟨a, s, returned, holds⟩ := returns
  exact ⟨a, set t s, by simp [Exec.zoom, returned], s, rfl, holds⟩

/-- The invariant of a loop speaks about the elements still to come. -/
theorem forM {I : List α → σ → Prop} {body : α → EStateM ε σ PUnit}
    (turn : ∀ a rest s, I (a :: rest) s → Returns (body a) s fun _ => I rest) (items : List α)
    (holds : I items s) : Returns (items.forM body) s fun _ => I [] := by
  induction items generalizing s with
  | nil => exact pure holds
  | cons a rest ih => exact bind (turn a rest s holds) fun _ _ post => ih post

end Returns

/-! ### Two programs -/

/-- What `x` returns, `y` returns as well. -/
def Imitated (x y : EStateM ε σ α) : Prop := ∀ s a t, x s = .ok a t → y s = .ok a t

namespace Imitated

variable {x y : EStateM ε σ α} {f g : α → EStateM ε σ β}

theorem refl (x : EStateM ε σ α) : Imitated x x := fun _ _ _ returned => returned

theorem throw (e : ε) : Imitated (MonadExcept.throw e : EStateM ε σ α) y := by
  intro s a t returned
  cases returned

theorem bind (first : Imitated x y) (rest : ∀ a, Imitated (f a) (g a)) : Imitated (x >>= f) (y >>= g) := by
  intro s b u returned
  rw [bind_apply] at returned
  split at returned
  next a t returned' =>
    rw [bind_ok (first s a t returned')]
    exact rest a t b u returned
  · cases returned

theorem forM {body body' : α → EStateM ε σ PUnit} (turn : ∀ a, Imitated (body a) (body' a)) (items : List α) :
    Imitated (items.forM body) (items.forM body') := by
  induction items with
  | nil => exact refl _
  | cons a rest ih => exact bind (turn a) fun _ => ih

end Imitated

end Exec
