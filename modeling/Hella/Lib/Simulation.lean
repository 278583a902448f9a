import Hella.Lib.Exec

/-!
# Programs that simulate a transition system

A `Path` is a run with its labels. A program that is run on one item after the other
simulates a transition system if every turn, with the item and the answer as the label, is a
step of the system between states that are related to its own.
-/
namespace Runs

variable {σ τ α β ε : Type} {step : τ → α → τ → Prop} {s t u : τ} {labels more : List α}

/-- A run with its labels, the oldest first. -/
inductive Path (step : τ → α → τ → Prop) : τ → List α → τ → Prop where
  | nil (s : τ) : Path step s [] s
  | cons {s t u : τ} {a : α} {labels : List α} (first : step s a t) (rest : Path step t labels u) :
      Path step s (a :: labels) u

namespace Path

theorem append (one : Path step s labels t) (other : Path step t more u) : Path step s (labels ++ more) u := by
  induction one with
  | nil => exact other
  | cons first _ ih => exact cons first (ih other)

theorem split (path : Path step s (labels ++ more) u) : ∃ t, Path step s labels t ∧ Path step t more u := by
  induction labels generalizing s with
  | nil => exact ⟨s, nil s, path⟩
  | cons a labels ih =>
    cases path with
    | cons first rest =>
      obtain ⟨t, before, after⟩ := ih rest
      exact ⟨t, cons first before, after⟩

/-- What every step keeps whose label is one of these holds at the end. -/
theorem invariant {I : τ → Prop} (path : Path step s labels t) (keeps : ∀ a ∈ labels, ∀ s t, I s → step s a t → I t)
    (holds : I s) : I t := by
  induction path with
  | nil => exact holds
  | cons first _ ih =>
    apply ih fun a member => keeps a (List.mem_cons_of_mem _ member)
    exact keeps _ List.mem_cons_self _ _ holds first

/-- What each step keeps or breaks with holds at the end, or there has been a break. -/
theorem invariant_or {I Q : τ → Prop} (path : Path step s labels t) (keeps : ∀ s a t, I s → step s a t → I t ∨ Q t)
    (holds : I s) : I t ∨ ∃ before after mid, labels = before ++ after ∧ Path step s before mid ∧
      Path step mid after t ∧ Q mid := by
  induction path with
  | nil => exact .inl holds
  | @cons s mid t a labels first rest ih =>
    rcases keeps s a mid holds first with kept | broken
    · rcases ih kept with last | ⟨before, after, other, rfl, until_, from_, here⟩
      · exact .inl last
      · exact .inr ⟨a :: before, after, other, rfl, cons first until_, from_, here⟩
    · exact .inr ⟨[a], labels, mid, rfl, cons first (nil mid), rest, broken⟩

/-- A simulation of the steps is one of the runs. -/
theorem simulates {R : σ → τ → Prop} {concrete : σ → α → σ → Prop} {c d : σ} (path : Path concrete c labels d)
    (square : ∀ a ∈ labels, ∀ c s d, R c s → concrete c a d → ∃ t, step s a t ∧ R d t) (related : R c s) :
    ∃ t, Path step s labels t ∧ R d t := by
  induction path generalizing s with
  | nil => exact ⟨s, nil s, related⟩
  | cons first _ ih =>
    obtain ⟨t, made, next⟩ := square _ List.mem_cons_self _ _ _ related first
    obtain ⟨u, rest, last⟩ := ih (fun a member => square a (List.mem_cons_of_mem _ member)) next
    exact ⟨u, cons made rest, last⟩

theorem step_of_mem {a : α} (path : Path step s labels t) (member : a ∈ labels) : ∃ u v, step u a v := by
  induction path with
  | nil => cases member
  | cons first _ ih =>
    rcases List.mem_cons.mp member with rfl | later
    · exact ⟨_, _, first⟩
    · exact ih later

/-- A run on which a condition holds before and after every step. -/
abbrev Throughout (I : τ → Prop) (step : τ → α → τ → Prop) : τ → List α → τ → Prop :=
  Path fun s a t => step s a t ∧ I s ∧ I t

theorem Throughout.first {I : τ → Prop} (path : Throughout I step s labels t) (last : I t) : I s := by
  cases path with
  | nil => exact last
  | cons first _ => exact first.2.1

theorem Throughout.path {I : τ → Prop} (throughout : Throughout I step s labels t) : Path step s labels t := by
  induction throughout with
  | nil s => exact nil s
  | cons first _ ih => exact cons first.1 ih

/-- Either the condition holds throughout, or a last step brings it about. -/
theorem throughout_or {I : τ → Prop} (path : Path step s labels t) (holds : I t) :
    Throughout I step s labels t ∨ ∃ before a after u v, labels = before ++ a :: after ∧
      Path step s before u ∧ ¬ I u ∧ step u a v ∧ Throughout I step v after t := by
  induction path with
  | nil s => exact .inl (nil s)
  | @cons s mid t a labels first rest ih =>
    rcases ih holds with always | ⟨before, b, after, u, v, rfl, path, missing, step, always⟩
    · by_cases already : I s
      · exact .inl (cons ⟨first, already, Throughout.first always holds⟩ always)
      · exact .inr ⟨[], a, labels, s, mid, rfl, nil s, already, first, always⟩
    · exact .inr ⟨a :: before, b, after, u, v, rfl, cons first path, missing, step, always⟩

/-- Either the condition goes on to hold throughout, or a first step breaks it. -/
theorem throughout_or_breaks {I : τ → Prop} (path : Path step s labels t) (holds : I s) :
    Throughout I step s labels t ∨ ∃ before a after u v, labels = before ++ a :: after ∧
      Throughout I step s before u ∧ I u ∧ step u a v ∧ ¬ I v ∧ Path step v after t := by
  induction path with
  | nil s => exact .inl (nil s)
  | @cons s mid t a labels first rest ih =>
    by_cases kept : I mid
    · rcases ih kept with always | ⟨before, b, after, u, v, rfl, always, last, step, broken, path⟩
      · exact .inl (cons ⟨first, holds, kept⟩ always)
      · exact .inr ⟨a :: before, b, after, u, v, rfl, cons ⟨first, holds, kept⟩ always, last, step, broken, path⟩
    · exact .inr ⟨[], a, labels, s, mid, rfl, nil s, holds, first, kept, rest⟩

end Path

end Runs

namespace Exec.Returns

open Runs

variable {σ τ α β ε : Type}

/-- Every turn of the program is a step from the related state. -/
theorem mapM {R : σ → τ → Prop} {step : τ → α × β → τ → Prop} {body : α → EStateM ε σ β}
    (turn : ∀ a s x, R s x → Returns (body a) s fun b t => ∃ y, step x (a, b) y ∧ R t y)
    (items : List α) {s : σ} {x : τ}
    (related : R s x) :
    Returns (items.mapM body) s fun answers t =>
      answers.length = items.length ∧ ∃ y, Path step x (items.zip answers) y ∧ R t y := by
  induction items generalizing s x with
  | nil => exact pure ⟨rfl, x, .nil x, related⟩
  | cons a items ih =>
    rw [List.mapM_cons]
    apply (turn a s x related).bind
    rintro b t ⟨y, first, related'⟩
    apply (ih related').bind
    rintro answers u ⟨length, z, rest, related''⟩
    exact pure ⟨congrArg Nat.succ length, z, .cons first rest, related''⟩

end Exec.Returns
