import Mathlib.Data.Fintype.Card
import Mathlib.Data.List.Nodup
import Mathlib.Tactic.Common

/-!
# Slots of a pool

A pool keeps its resources in a list of slots, each under a key and either busy or free.
Slots are exchanged one at a time. With distinct keys the keys of the busy slots say which
resources are lent, and how many there are.
-/
namespace Slots

variable {α κ : Type} {key : α → κ} {busy : α → Bool} {l l' : List α} {x y z : α} {k : κ}

/-! ### Exchanging a slot -/

/-- The slot `y` has taken the place of `x`. -/
def Exchanged (x y : α) (l l' : List α) : Prop := ∃ before after, l = before ++ x :: after ∧ l' = before ++ y :: after

theorem exchanged_modify (f : α → α) {i : Nat} (here : l[i]? = some x) : Exchanged x (f x) l (l.modify i f) := by
  obtain ⟨inside, rfl⟩ := List.getElem?_eq_some_iff.mp here
  refine ⟨l.take i, l.drop (i + 1), ?_, ?_⟩
  · rw [List.getElem_cons_drop, List.take_append_drop]
  · rw [List.modify_eq_take_cons_drop inside]

theorem map_modify (f : α → α) (keeps : ∀ x, key (f x) = key x) (l : List α) (i : Nat) :
    (l.modify i f).map key = l.map key := by
  apply List.ext_getElem?
  intro j
  rw [List.getElem?_map, List.getElem?_map, List.getElem?_modify]
  split
  · cases l[j]? with
    | none => rfl
    | some x => exact congrArg some (keeps x)
  · exact congrArg _ Option.map_id'

namespace Exchanged

variable (exchanged : Exchanged x y l l')

include exchanged

theorem mem : x ∈ l := by
  obtain ⟨before, after, rfl, -⟩ := exchanged
  exact List.mem_append_right _ List.mem_cons_self

theorem ne_nil : l' ≠ [] := by
  obtain ⟨before, after, -, rfl⟩ := exchanged
  simp

theorem key_mem (among : k ∈ l'.map key) : k = key y ∨ k ∈ l.map key := by
  obtain ⟨before, after, rfl, rfl⟩ := exchanged
  simp only [List.map_append, List.map_cons, List.mem_append, List.mem_cons] at among ⊢
  rcases among with left | rfl | right
  · exact .inr (.inl left)
  · exact .inl rfl
  · exact .inr (.inr (.inr right))

/-- The keys stay distinct if the new slot keeps the key or brings one of its own. -/
theorem distinct (distinct : (l.map key).Nodup) (own : key y = key x ∨ key y ∉ l.map key) : (l'.map key).Nodup := by
  obtain ⟨before, after, rfl, rfl⟩ := exchanged
  rw [List.map_append, List.map_cons] at distinct own ⊢
  rw [List.nodup_middle, List.nodup_cons] at distinct ⊢
  constructor
  · rcases own with same | fresh
    · rw [same]
      exact distinct.1
    · intro old
      apply fresh
      rcases List.mem_append.mp old with left | right
      · exact List.mem_append_left _ left
      · exact List.mem_append_right _ (List.mem_cons_of_mem _ right)
  · exact distinct.2

theorem mem_iff (distinct : (l.map key).Nodup) : z ∈ l' ↔ z = y ∨ z ∈ l ∧ key z ≠ key x := by
  obtain ⟨before, after, rfl, rfl⟩ := exchanged
  rw [List.map_append, List.map_cons, List.nodup_middle, List.nodup_cons, ← List.map_append] at distinct
  -- a slot of another place has another key
  have other (among : z ∈ before ∨ z ∈ after) : key z ≠ key x := by
    intro same
    apply distinct.1
    rw [← same]
    exact List.mem_map_of_mem (List.mem_append.mpr among)
  simp only [List.mem_append, List.mem_cons]
  constructor
  · rintro (left | rfl | right)
    · exact .inr ⟨.inl left, other (.inl left)⟩
    · exact .inl rfl
    · exact .inr ⟨.inr (.inr right), other (.inr right)⟩
  · rintro (rfl | ⟨left | rfl | right, different⟩)
    · exact .inr (.inl rfl)
    · exact .inl left
    · exact absurd rfl different
    · exact .inr (.inr right)

end Exchanged

/-! ### Lent keys -/

/-- The key of a busy slot. -/
def Lent (key : α → κ) (busy : α → Bool) (l : List α) (k : κ) : Prop := ∃ x ∈ l, key x = k ∧ busy x = true

theorem Exchanged.lent_iff (exchanged : Exchanged x y l l') (distinct : (l.map key).Nodup) :
    Lent key busy l' k ↔ key y = k ∧ busy y = true ∨ Lent key busy l k ∧ k ≠ key x := by
  unfold Lent
  simp only [exchanged.mem_iff distinct]
  constructor
  · rintro ⟨z, rfl | ⟨old, different⟩, rfl, is⟩
    · exact .inl ⟨rfl, is⟩
    · exact .inr ⟨⟨z, old, rfl, is⟩, different⟩
  · rintro (⟨rfl, is⟩ | ⟨⟨z, old, rfl, is⟩, different⟩)
    · exact ⟨y, .inl rfl, rfl, is⟩
    · exact ⟨z, .inr ⟨old, different⟩, rfl, is⟩

theorem lent_concat_free (free : busy x = false) : Lent key busy (l ++ [x]) k ↔ Lent key busy l k := by
  unfold Lent
  constructor
  · rintro ⟨z, member, rfl, is⟩
    rcases List.mem_append.mp member with old | new
    · exact ⟨z, old, rfl, is⟩
    · obtain rfl := List.mem_singleton.mp new
      rw [free] at is
      cases is
  · rintro ⟨z, old, rfl, is⟩
    exact ⟨z, List.mem_append_left _ old, rfl, is⟩

/-- A slot whose key is lent is busy. -/
theorem busy_of_lent (distinct : (l.map key).Nodup) (member : x ∈ l) (lent : Lent key busy l (key x)) :
    busy x = true := by
  obtain ⟨y, among, same, is⟩ := lent
  obtain rfl := List.inj_on_of_nodup_map distinct among member same
  exact is

/-- There are as many busy slots as owners, if exactly the lent keys have an owner. -/
theorem countP_eq_card {ι : Type} [Fintype ι] {owns : ι → Option κ} (distinct : (l.map key).Nodup)
    (single : ∀ i j k, owns i = some k → owns j = some k → i = j)
    (lent : ∀ k, Lent key busy l k ↔ ∃ i, owns i = some k) :
    l.countP busy = (Finset.univ.filter fun i => (owns i).isSome).card := by
  classical
  have nodup : ((l.filter busy).map key).Nodup := (List.filter_sublist.map key).nodup distinct
  have among (k : κ) : k ∈ ((l.filter busy).map key).toFinset ↔ Lent key busy l k := by
    simp only [List.mem_toFinset, List.mem_map, List.mem_filter, Lent]
    constructor
    · rintro ⟨x, ⟨member, is⟩, rfl⟩
      exact ⟨x, member, rfl, is⟩
    · rintro ⟨x, member, rfl, is⟩
      exact ⟨x, ⟨member, is⟩, rfl⟩
  calc l.countP busy = ((l.filter busy).map key).toFinset.card := by
        rw [List.toFinset_card_of_nodup nodup, List.length_map, List.countP_eq_length_filter]
    _ = (Finset.univ.filter fun i => (owns i).isSome).card := by
        symm
        -- each owner stands for its key
        apply Finset.card_bij fun i member => (owns i).get (Finset.mem_filter.mp member).2
        · intro i member
          rw [among, lent]
          exact ⟨i, (Option.some_get _).symm⟩
        · intro i member j member' same
          apply single i j ((owns i).get (Finset.mem_filter.mp member).2) (Option.some_get _).symm
          rw [same]
          exact (Option.some_get _).symm
        · intro k member
          obtain ⟨i, owner⟩ := (lent k).mp ((among k).mp member)
          exact ⟨i, by simp [owner], by simp [owner]⟩

/-! ### An index into a list that loses what it visits -/

def everyOther : List α → List α
  | [] => []
  | [x] => [x]
  | x :: _ :: rest => x :: everyOther rest

theorem length_everyOther (l : List α) : (everyOther l).length = (l.length + 1) / 2 := by
  fun_induction everyOther l with
  | case1 => simp
  | case2 => simp
  | case3 x _ rest ih =>
    simp only [List.length_cons, ih]
    omega

theorem everyOther_perm_iff (l : List α) : (everyOther l).Perm l ↔ l.length ≤ 1 := by
  constructor
  · intro perm
    have same := perm.length_eq
    rw [length_everyOther] at same
    omega
  · intro short
    match l, short with
    | [], _ => exact .refl _
    | [_], _ => exact .refl _

/-- After the element with index `i` has gone, the index `i + 1` is one further. -/
theorem everyOther_drop {i : Nat} (here : l[i]? = some x) :
    everyOther (l.drop i) = x :: everyOther ((l.eraseIdx i).drop (i + 1)) := by
  obtain ⟨inside, rfl⟩ := List.getElem?_eq_some_iff.mp here
  have next : (l.eraseIdx i).drop (i + 1) = (l.drop (i + 1)).drop 1 := by
    have before : (l.take i).length = i := List.length_take_of_le inside.le
    rw [List.eraseIdx_eq_take_drop_succ, List.drop_append, before, List.drop_eq_nil_of_le (by omega)]
    simp
  rw [next, ← List.getElem_cons_drop inside]
  match l.drop (i + 1) with
  | [] => rfl
  | _ :: _ => rfl

end Slots
