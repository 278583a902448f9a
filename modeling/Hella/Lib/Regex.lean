import Mathlib.Data.List.Basic

/-!
# Sequences of character classes

Regular expressions that are a sequence of character classes, each taken once, any number
of times with the fewest tried first, or at least once with the most tried first. The
matcher backtracks in the order of `java.util.regex`; `matchAt_isSome_iff` says that it
finds a match exactly where the sequence has one, and `replaceAll` cuts out what a leftmost
search finds.
-/
namespace Regex

variable {α : Type}

inductive Quantifier where
  | once
  /-- `*?` -/
  | reluctant
  /-- `+` -/
  | greedy
  deriving DecidableEq, Repr

structure Piece (α : Type) where
  cls : α → Bool
  quantifier : Quantifier := .once

abbrev Pattern (α : Type) := List (Piece α)

/-! ### The texts of a pattern -/

inductive Matches : Pattern α → List α → Prop where
  | nil : Matches [] []
  | once {cls pieces c text} (first : cls c = true) (later : Matches pieces text) :
    Matches (⟨cls, .once⟩ :: pieces) (c :: text)
  | reluctant {cls pieces front text} (all : ∀ c ∈ front, cls c = true) (later : Matches pieces text) :
    Matches (⟨cls, .reluctant⟩ :: pieces) (front ++ text)
  | greedy {cls pieces front text} (some_ : front ≠ []) (all : ∀ c ∈ front, cls c = true)
    (later : Matches pieces text) :
    Matches (⟨cls, .greedy⟩ :: pieces) (front ++ text)

namespace Matches

variable {first second pattern : Pattern α} {text : List α}

/-- The parts of a sequence match one behind the other. -/
theorem split (matched : Matches (first ++ second) text) :
    ∃ front back, text = front ++ back ∧ Matches first front ∧ Matches second back := by
  induction first generalizing text with
  | nil => exact ⟨[], text, rfl, .nil, matched⟩
  | cons piece first ih =>
    cases matched with
    | once single later =>
      obtain ⟨front, back, rfl, one, two⟩ := ih later
      exact ⟨_ :: front, back, rfl, .once single one, two⟩
    | reluctant all later =>
      obtain ⟨front, back, rfl, one, two⟩ := ih later
      exact ⟨_ ++ front, back, (List.append_assoc ..).symm, .reluctant all one, two⟩
    | greedy some_ all later =>
      obtain ⟨front, back, rfl, one, two⟩ := ih later
      exact ⟨_ ++ front, back, (List.append_assoc ..).symm, .greedy some_ all one, two⟩

theorem single {cls : α → Bool} (matched : Matches [⟨cls, .once⟩] text) : ∃ c, text = [c] ∧ cls c = true := by
  cases matched with
  | once takes later =>
    cases later
    exact ⟨_, rfl, takes⟩

/-- A character that none of the classes takes is not in the text. -/
theorem forall_mem {P : α → Prop} (classes : ∀ piece ∈ pattern, ∀ c, piece.cls c = true → P c)
    (matched : Matches pattern text) : ∀ c ∈ text, P c := by
  induction matched with
  | nil => simp
  | once single _ ih =>
    intro c member
    rcases List.mem_cons.mp member with rfl | later
    · exact classes _ (List.mem_cons_self ..) _ single
    · exact ih (fun piece inside => classes piece (List.mem_cons_of_mem _ inside)) c later
  | reluctant all _ ih | greedy _ all _ ih =>
    intro c member
    rcases List.mem_append.mp member with now | later
    · exact classes _ (List.mem_cons_self ..) _ (all c now)
    · exact ih (fun piece inside => classes piece (List.mem_cons_of_mem _ inside)) c later

end Matches

/-! ### The matcher -/

/-- Goes on as soon as it can and takes another character only when that fails. -/
def takeFewest (cls : α → Bool) (next : List α → Option (List α)) : List α → Option (List α)
  | [] => next []
  | c :: rest =>
    match next (c :: rest) with
    | some left => some left
    | none => if cls c then takeFewest cls next rest else none

/-- Takes as many characters as it can and gives them back one by one. -/
def takeMost (cls : α → Bool) (next : List α → Option (List α)) : List α → Option (List α)
  | [] => next []
  | c :: rest =>
    if cls c then
      match takeMost cls next rest with
      | some left => some left
      | none => next (c :: rest)
    else next (c :: rest)

/-- What is left of the text behind the first match that is tried, if there is one. -/
def matchAt : Pattern α → List α → Option (List α)
  | [], text => some text
  | ⟨cls, .once⟩ :: pieces, text =>
    match text with
    | [] => none
    | c :: rest => if cls c then matchAt pieces rest else none
  | ⟨cls, .reluctant⟩ :: pieces, text => takeFewest cls (matchAt pieces) text
  | ⟨cls, .greedy⟩ :: pieces, text =>
    match text with
    | [] => none
    | c :: rest => if cls c then takeMost cls (matchAt pieces) rest else none

section Matcher

variable {cls : α → Bool} {next : List α → Option (List α)} {text left : List α}

theorem takeFewest_sound (found : takeFewest cls next text = some left) :
    ∃ front back, text = front ++ back ∧ (∀ c ∈ front, cls c = true) ∧ next back = some left := by
  induction text with
  | nil => exact ⟨[], [], rfl, by simp, found⟩
  | cons c rest ih =>
    rw [takeFewest] at found
    split at found
    next now =>
      obtain rfl := Option.some.inj found
      exact ⟨[], c :: rest, rfl, by simp, now⟩
    next =>
      split at found
      next takes =>
        obtain ⟨front, back, rfl, all, later⟩ := ih found
        exact ⟨c :: front, back, rfl, List.forall_mem_cons.mpr ⟨takes, all⟩, later⟩
      next => cases found

theorem takeMost_sound (found : takeMost cls next text = some left) :
    ∃ front back, text = front ++ back ∧ (∀ c ∈ front, cls c = true) ∧ next back = some left := by
  induction text generalizing left with
  | nil => exact ⟨[], [], rfl, by simp, found⟩
  | cons c rest ih =>
    rw [takeMost] at found
    split at found
    next takes =>
      split at found
      next more =>
        obtain rfl := Option.some.inj found
        obtain ⟨front, back, rfl, all, later⟩ := ih more
        exact ⟨c :: front, back, rfl, List.forall_mem_cons.mpr ⟨takes, all⟩, later⟩
      next => exact ⟨[], c :: rest, rfl, by simp, found⟩
    next => exact ⟨[], c :: rest, rfl, by simp, found⟩

theorem takeFewest_isSome {front back : List α} (all : ∀ c ∈ front, cls c = true) (later : (next back).isSome = true) :
    (takeFewest cls next (front ++ back)).isSome = true := by
  induction front with
  | nil =>
    cases back with
    | nil => exact later
    | cons c rest =>
      obtain ⟨left, found⟩ := Option.isSome_iff_exists.mp later
      simp [takeFewest, found]
  | cons c front ih =>
    obtain ⟨takes, all⟩ := List.forall_mem_cons.mp all
    rw [List.cons_append, takeFewest]
    split
    · rfl
    · rw [if_pos takes]
      exact ih all

theorem takeMost_isSome {front back : List α} (all : ∀ c ∈ front, cls c = true) (later : (next back).isSome = true) :
    (takeMost cls next (front ++ back)).isSome = true := by
  induction front with
  | nil =>
    cases back with
    | nil => exact later
    | cons c rest =>
      rw [List.nil_append, takeMost]
      split
      · split
        · rfl
        · exact later
      · exact later
  | cons c front ih =>
    obtain ⟨takes, all⟩ := List.forall_mem_cons.mp all
    obtain ⟨left, found⟩ := Option.isSome_iff_exists.mp (ih all)
    rw [List.cons_append, takeMost, if_pos takes, found]
    rfl

end Matcher

section Patterns

variable {pattern : Pattern α} {text left : List α}

/-- What is found is a text of the pattern. -/
theorem matchAt_sound (found : matchAt pattern text = some left) :
    ∃ front, text = front ++ left ∧ Matches pattern front := by
  induction pattern generalizing text with
  | nil => exact ⟨[], Option.some.inj found, .nil⟩
  | cons piece pattern ih =>
    -- the quantifier says how much of the text the piece takes; the rest is the induction hypothesis
    obtain ⟨cls, quantifier⟩ := piece
    cases quantifier with
    | once =>
      cases text with
      | nil => cases found
      | cons c rest =>
        rw [matchAt] at found
        split at found
        next takes =>
          obtain ⟨front, rfl, later⟩ := ih found
          exact ⟨c :: front, rfl, .once takes later⟩
        next => cases found
    -- the fewest that let the rest match
    | reluctant =>
      obtain ⟨taken, back, rfl, all, later⟩ := takeFewest_sound found
      obtain ⟨front, rfl, matched⟩ := ih later
      exact ⟨taken ++ front, (List.append_assoc ..).symm, .reluctant all matched⟩
    | greedy =>
      cases text with
      | nil => cases found
      | cons c rest =>
        rw [matchAt] at found
        split at found
        -- the first is required, and then as many as there are
        next takes =>
          obtain ⟨taken, back, rfl, all, later⟩ := takeMost_sound found
          obtain ⟨front, rfl, matched⟩ := ih later
          refine ⟨c :: taken ++ front, by simp, .greedy (List.cons_ne_nil _ _) ?_ matched⟩
          exact List.forall_mem_cons.mpr ⟨takes, all⟩
        next => cases found

/-- No match is missed. -/
theorem matchAt_complete {front : List α} (matched : Matches pattern front) (back : List α) :
    (matchAt pattern (front ++ back)).isSome = true := by
  induction matched with
  | nil => rfl
  | once takes _ ih =>
    rw [List.cons_append, matchAt, if_pos takes]
    exact ih
  | reluctant all _ ih =>
    rw [List.append_assoc]
    exact takeFewest_isSome all ih
  | @greedy cls pieces front text some_ all _ ih =>
    obtain ⟨c, front, rfl⟩ := List.exists_cons_of_ne_nil some_
    obtain ⟨takes, all⟩ := List.forall_mem_cons.mp all
    rw [List.append_assoc, List.cons_append, matchAt, if_pos takes]
    exact takeMost_isSome all ih

theorem matchAt_isSome_iff : (matchAt pattern text).isSome = true ↔ ∃ front back, text = front ++ back ∧
    Matches pattern front := by
  constructor
  · intro found
    obtain ⟨left, found⟩ := Option.isSome_iff_exists.mp found
    obtain ⟨front, same, matched⟩ := matchAt_sound found
    exact ⟨front, left, same, matched⟩
  · rintro ⟨front, back, rfl, matched⟩
    exact matchAt_complete matched back

theorem matchAt_eq_none_iff : matchAt pattern text = none ↔ ∀ front back, text = front ++ back →
    ¬ Matches pattern front := by
  rw [← Option.not_isSome_iff_eq_none, matchAt_isSome_iff]
  push Not
  rfl

end Patterns

/-! ### Cutting the matches out -/

/-- The text without the matches that a search from the left finds one behind the other. The
number is how much of the text the last one still covers. An empty match takes nothing. -/
def cutOut (pattern : Pattern α) : Nat → List α → List α
  | _, [] => []
  | covered + 1, _ :: rest => cutOut pattern covered rest
  | 0, c :: rest =>
    match matchAt pattern (c :: rest) with
    | none => c :: cutOut pattern 0 rest
    | some left =>
      match (c :: rest).length - left.length with
      | 0 => c :: cutOut pattern 0 rest
      | covered + 1 => cutOut pattern covered rest

/-- `Matcher.replaceAll("")`. -/
def replaceAll (pattern : Pattern α) (text : List α) : List α := cutOut pattern 0 text

section Replacing

variable {pattern : Pattern α} {text left : List α}

theorem cutOut_eq (covered : Nat) (text : List α) :
    cutOut pattern covered text = replaceAll pattern (text.drop covered) := by
  induction text generalizing covered with
  | nil => cases covered <;> rfl
  | cons c rest ih =>
    cases covered with
    | zero => rfl
    | succ covered => exact ih covered

theorem replaceAll_of_none {c : α} {rest : List α} (none_ : matchAt pattern (c :: rest) = none) :
    replaceAll pattern (c :: rest) = c :: replaceAll pattern rest := by
  rw [replaceAll, cutOut, none_]
  rfl

/-- A match that is not empty is passed over. -/
theorem replaceAll_of_match {c : α} {front : List α} (found : matchAt pattern (c :: front ++ left) = some left) :
    replaceAll pattern (c :: front ++ left) = replaceAll pattern left := by
  have size : (c :: (front ++ left)).length - left.length = front.length + 1 := by
    simp only [List.length_cons, List.length_append]
    omega
  rw [List.cons_append] at found ⊢
  rw [replaceAll, cutOut, found]
  simp only [size]
  rw [cutOut_eq, List.drop_left]

/-- To show something of a text and of what `replaceAll` makes of it, go from match to match. -/
theorem replaceAll_induction {P : List α → List α → Prop} (proper : ¬ Matches pattern []) (nil : P [] [])
    (keep : ∀ c rest, matchAt pattern (c :: rest) = none → P rest (replaceAll pattern rest) →
      P (c :: rest) (c :: replaceAll pattern rest))
    (cut : ∀ front left, Matches pattern front → P left (replaceAll pattern left) →
      P (front ++ left) (replaceAll pattern left)) (text : List α) : P text (replaceAll pattern text) := by
  induction size : text.length using Nat.strongRecOn generalizing text with
  | ind n ih =>
    cases text with
    | nil => exact nil
    | cons c rest =>
      -- no match here: the character stays, and the search goes on after it
      cases found : matchAt pattern (c :: rest) with
      | none =>
        rw [replaceAll_of_none found]
        exact keep c rest found (ih rest.length (by simp [← size]) rest rfl)
      | some left =>
        obtain ⟨front, same, matched⟩ := matchAt_sound found
        -- a proper pattern takes at least one character, so the search goes on in a shorter text
        cases front with
        | nil => exact absurd matched proper
        | cons d front =>
          rw [same] at found size ⊢
          have shorter : left.length < n := by
            rw [← size, List.length_append, List.length_cons]
            omega
          rw [replaceAll_of_match found]
          exact cut (d :: front) left matched (ih left.length shorter left rfl)

/-- Where nothing matches nothing is cut out. -/
theorem replaceAll_eq_self (none_ : ∀ front back, text = front ++ back → matchAt pattern back = none) :
    replaceAll pattern text = text := by
  induction text with
  | nil => rfl
  | cons c rest ih =>
    rw [replaceAll_of_none (none_ [] (c :: rest) rfl)]
    rw [ih fun front back same => none_ (c :: front) back (congrArg (c :: ·) same)]

/-- No character comes in. -/
theorem replaceAll_subset (proper : ¬ Matches pattern []) (text : List α) : replaceAll pattern text ⊆ text :=
  replaceAll_induction (P := fun text result => result ⊆ text) proper (List.Subset.refl _)
    (fun _ _ _ ih => List.cons_subset_cons _ ih) (fun _ _ _ ih => List.subset_append_of_subset_right _ ih) text

end Replacing

end Regex
