import Mathlib.Data.List.Chain
import Mathlib.Data.List.Nodup

/-!
# Sequences without their repetitions

From a sequence of readings each one is taken that differs from the one taken last. What is
taken has no value twice exactly if no reading comes back after another one.
-/
namespace Stutter

variable {α : Type}

/-- A value that is there twice among neighbours that differ has another one in between. -/
theorem between {a : α} {list : List α} (chain : list.IsChain (· ≠ ·)) (twice : [a, a].Sublist list) :
    ∃ b, a ≠ b ∧ [a, b, a].Sublist list := by
  induction list with
  | nil => cases twice
  | cons c rest ih =>
    cases twice with
    | cons _ twice =>
      obtain ⟨b, differs, inside⟩ := ih chain.tail twice
      exact ⟨b, differs, inside.cons c⟩
    | cons_cons _ once =>
      cases rest with
      | nil => cases once
      | cons b rest =>
        have differs : a ≠ b := (List.isChain_cons_cons.mp chain).1
        refine ⟨b, differs, ?_⟩
        cases once with
        | cons _ once => exact (once.cons_cons b).cons_cons a
        | cons_cons _ _ => exact absurd rfl differs

variable [DecidableEq α]

/-- The readings that differ from the one before them. -/
def changes (last : α) : List α → List α
  | [] => []
  | a :: rest => if a = last then changes last rest else a :: changes a rest

/-- The readings from the first change on. -/
def fromChange (last : α) (readings : List α) : List α := readings.dropWhile fun a => decide (a = last)

variable {last a b : α} {readings sub : List α}

theorem changes_same (readings : List α) : changes last (last :: readings) = changes last readings := if_pos rfl

theorem changes_other (other : a ≠ last) : changes last (a :: readings) = a :: changes a readings := if_neg other

theorem changes_sublist (last : α) (readings : List α) :
    (changes last readings).Sublist (fromChange last readings) := by
  induction readings generalizing last with
  | nil => exact List.Sublist.refl _
  | cons a rest ih =>
    by_cases same : a = last
    · subst same
      rw [changes_same, fromChange, List.dropWhile_cons_of_pos (by simp)]
      exact ih a
    · rw [changes_other same, fromChange, List.dropWhile_cons_of_neg (by simpa using same)]
      exact ((ih a).trans (List.dropWhile_sublist _)).cons_cons a

/-- A reading that differs from the last one is taken, sooner or later. -/
theorem mem_changes (other : a ≠ last) (member : a ∈ readings) : a ∈ changes last readings := by
  induction readings generalizing last with
  | nil => cases member
  | cons b rest ih =>
    rcases List.mem_cons.mp member with rfl | later
    · rw [changes_other other]
      exact List.mem_cons_self ..
    · by_cases same : b = last
      · subst same
        rw [changes_same]
        exact ih other later
      · rw [changes_other same]
        by_cases now : a = b
        · exact now ▸ List.mem_cons_self ..
        · exact List.mem_cons_of_mem _ (ih now later)

theorem mem_changes_iff : a ∈ changes last readings ↔ a ∈ fromChange last readings := by
  constructor
  · exact fun member => (changes_sublist last readings).subset member
  · intro member
    induction readings with
    | nil => cases member
    | cons b rest ih =>
      by_cases same : b = last
      · subst same
        rw [fromChange, List.dropWhile_cons_of_pos (by simp)] at member
        rw [changes_same]
        exact ih member
      · rw [fromChange, List.dropWhile_cons_of_neg (by simpa using same)] at member
        rw [changes_other same]
        by_cases now : a = b
        · exact now ▸ List.mem_cons_self ..
        · exact List.mem_cons_of_mem _ (mem_changes now ((List.mem_cons.mp member).resolve_left now))

theorem isChain_changes (last : α) (readings : List α) : (last :: changes last readings).IsChain (· ≠ ·) := by
  induction readings generalizing last with
  | nil => exact .singleton _
  | cons a rest ih =>
    by_cases same : a = last
    · subst same
      rw [changes_same]
      exact ih a
    · rw [changes_other same]
      exact List.isChain_cons_cons.mpr ⟨fun back => same back.symm, ih a⟩

/-- A reading is taken, and those after it that differ from their neighbours are found again in
what is taken later. -/
theorem sublist_cons {rest : List α} (later : ∀ sub, sub.Sublist rest → (a :: sub).IsChain (· ≠ ·) →
    sub.Sublist (changes a rest))
    (inside : sub.Sublist (a :: rest)) (chain : sub.IsChain (· ≠ ·)) : sub.Sublist (a :: changes a rest) := by
  cases inside with
  | cons_cons _ inside => exact (later _ inside chain).cons_cons a
  | cons _ inside =>
    cases sub with
    | nil => exact List.nil_sublist _
    | cons b sub =>
      by_cases now : a = b
      · subst now
        exact (later sub ((List.sublist_cons_self _ _).trans inside) chain).cons_cons a
      · exact (later (b :: sub) inside (List.isChain_cons_cons.mpr ⟨now, chain⟩)).cons a

/-- Readings that differ from their neighbours are taken from different stretches, so what is
taken has them in it. -/
theorem sublist_changes (inside : sub.Sublist readings) (chain : (last :: sub).IsChain (· ≠ ·)) :
    sub.Sublist (changes last readings) := by
  induction readings generalizing last sub with
  | nil =>
    rw [List.sublist_nil.mp inside]
    exact List.nil_sublist _
  | cons a rest ih =>
    by_cases same : a = last
    · subst same
      rw [changes_same]
      -- the first reading does not show the last value again
      cases inside with
      | cons _ inside => exact ih inside chain
      | cons_cons _ _ => exact absurd rfl (List.isChain_cons_cons.mp chain).1
    · rw [changes_other same]
      exact sublist_cons (fun _ inside chain => ih inside chain) inside chain.tail

theorem sublist_changes_of_fromChange (inside : sub.Sublist (fromChange last readings)) (chain : sub.IsChain (· ≠ ·)) :
    sub.Sublist (changes last readings) := by
  induction readings with
  | nil => exact inside
  | cons a rest ih =>
    by_cases same : a = last
    · subst same
      rw [fromChange, List.dropWhile_cons_of_pos (by simp)] at inside
      rw [changes_same]
      exact ih inside
    · rw [fromChange, List.dropWhile_cons_of_neg (by simpa using same)] at inside
      rw [changes_other same]
      exact sublist_cons (fun _ inside chain => sublist_changes inside chain) inside chain

theorem nodup_changes_iff : (changes last readings).Nodup ↔
    ∀ a b, [a, b, a].Sublist (fromChange last readings) → a = b := by
  constructor
  · intro nodup a b inside
    by_contra differs
    have chain : [a, b, a].IsChain (· ≠ ·) := by simp [differs, Ne.symm differs]
    have twice := nodup.sublist (sublist_changes_of_fromChange inside chain)
    simp at twice
  · intro never
    rw [List.nodup_iff_sublist]
    intro a twice
    obtain ⟨b, differs, inside⟩ := between (isChain_changes last readings).tail twice
    exact differs (never a b (inside.trans (changes_sublist last readings)))

end Stutter
