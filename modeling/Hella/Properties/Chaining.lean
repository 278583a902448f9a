import Hella.Engine.JobEvents
import Mathlib.Data.List.ReduceOption

/-!
# Chained events over a shutdown

`delAllNoConsumptionJobEvent` deletes whatever is stored when it comes to run. As long as
this is no more than its own load has read, every event is popped, in the storehouse, in
the table, or on its way between the two.
-/
namespace Hella

open Runs Text

namespace JobEventStorehouse

variable {h t : JobEventStorehouse} {product : ChainedEvent}

/-- The events that can be popped, from the bottom. -/
def stack (h : JobEventStorehouse) : List ChainedEvent := (h.products.take h.top).reduceOption

/-- `top` is inside the array and every slot below it is taken. -/
structure Filled (h : JobEventStorehouse) : Prop where
  bound : h.top ≤ h.products.length
  taken : ∀ slot ∈ h.products.take h.top, slot ≠ none

theorem filled_construct (resourceSize : Int) : (construct resourceSize).Filled := by
  refine ⟨Nat.zero_le _, fun slot member => ?_⟩
  simp [construct] at member

theorem isFull_iff : h.isFull = false ↔ h.top ≠ h.products.length := by simp [isFull]

theorem take_push (filled : h.Filled) (room : h.isFull = false) :
    (h.push product).products.take (h.push product).top = h.products.take h.top ++ [some product] := by
  have bound : h.top < h.products.length := Nat.lt_of_le_of_ne filled.bound (isFull_iff.mp room)
  change (h.products.set h.top (some product)).take (h.top + 1) = _
  rw [List.take_add_one, List.take_set_of_le (Nat.le_refl _), List.getElem?_set_self bound]
  rfl

theorem stack_push (filled : h.Filled) (room : h.isFull = false) : (h.push product).stack = h.stack ++ [product] := by
  rw [stack, take_push filled room, List.reduceOption_append]
  rfl

theorem filled_push (filled : h.Filled) (room : h.isFull = false) : (h.push product).Filled := by
  constructor
  · have bound := filled.bound
    have notFull := isFull_iff.mp room
    simp only [push, List.length_set]
    omega
  · intro slot member
    rw [take_push filled room, List.mem_append, List.mem_singleton] at member
    rcases member with below | rfl
    · exact filled.taken slot below
    · simp

/-- A pop takes the last event of the stack. -/
theorem pop_spec {popped : Option ChainedEvent} (filled : h.Filled) (there : h.pop = some (popped, t)) :
    h.stack = t.stack ++ popped.toList ∧ t.Filled := by
  obtain ⟨products, top⟩ := h
  cases top with
  | zero => simp [pop] at there
  | succ top =>
    simp only [pop, Option.some.injEq, Prod.mk.injEq] at there
    obtain ⟨rfl, rfl⟩ := there
    have bound : top < products.length := filled.bound
    have below : (products.set top none).take top = products.take top := List.take_set_of_le (Nat.le_refl _)
    constructor
    · simp only [stack]
      rw [below, List.take_add_one, List.reduceOption_append, List.getElem?_eq_getElem bound]
      cases products[top] <;> rfl
    · constructor
      · simp only [List.length_set]
        exact Nat.le_of_lt bound
      · intro slot member
        rw [below] at member
        exact filled.taken slot (List.take_subset_take_left products (Nat.le_succ top) member)

theorem filled_popAll : h.popAll.2.Filled := by
  refine ⟨Nat.zero_le _, fun slot member => ?_⟩
  simp [popAll] at member

theorem mem_popAll (named : product.name.isSome = true) (member : product ∈ h.stack) : product ∈ h.popAll.1 := by
  rw [stack, List.reduceOption_mem_iff] at member
  refine List.mem_filter.mpr ⟨?_, named⟩
  exact List.reduceOption_mem_iff.mpr (List.mem_of_mem_take member)

end JobEventStorehouse

namespace JobEvents

variable {s t : JobEvents} {a : Action} {e : ChainedEvent} {list : List NoConsumptionJobEvent}

/-! ### Where an event is -/

/-- The event can be popped, waits to be stored, or waits to be pushed. -/
def Travels (s : JobEvents) (e : ChainedEvent) : Prop :=
  e ∈ s.storeHouse.stack ∨ e ∈ s.saving ∨ ∃ l ∈ s.loads, ∃ row ∈ l.rest, row.event = e

/-- The event is in a row that is not in the list. -/
def StoredBut (s : JobEvents) (list : List NoConsumptionJobEvent) (e : ChainedEvent) : Prop :=
  ∃ row ∈ s.table, row ∉ list ∧ row.event = e

/-- The event is in the storehouse, in the table, or in the rest of a load. -/
def InPlace (s : JobEvents) (e : ChainedEvent) : Prop :=
  e ∈ s.storeHouse.stack ∨ (∃ row ∈ s.table, row.event = e) ∨ ∃ l ∈ s.loads, ∃ row ∈ l.rest, row.event = e

/-- The event does not depend on the rows of the list. -/
def SafeBut (s : JobEvents) (list : List NoConsumptionJobEvent) (e : ChainedEvent) : Prop :=
  e ∈ s.popped ∨ s.Travels e ∨ s.StoredBut list e

/-- A load that deletes the table has read all of it. -/
def DeletesOwn (s : JobEvents) : Action → Prop
  | .delAllNoConsumptionJobEvent n => ∀ l, s.loads[n]? = some l → s.table ⊆ l.list
  | _ => True

structure Sound (s : JobEvents) : Prop where
  filled : s.storeHouse.Filled
  rows : ∀ row ∈ s.table, isBlank (some row.name) = false ∧ row.id ≤ s.lastID
  lists : ∀ l ∈ s.loads, l.rest ⊆ l.list ∧
    ∀ row ∈ l.list, isBlank (some row.name) = false ∧ row.id ≤ s.lastID
  /-- what was pushed does not depend on the rows it was read from -/
  loaded : ∀ l ∈ s.loads, ∀ row ∈ l.list, s.SafeBut l.list row.event
  owed : ∀ e ∈ s.produced, isBlank e.name = false → s.SafeBut [] e

theorem sound_of_initial (initial : Initial s) : s.Sound where
  filled := by
    obtain ⟨resourceSize, same⟩ := initial.storeHouse
    rw [same]
    exact JobEventStorehouse.filled_construct resourceSize
  rows := initial.rows
  lists l member := by
    rw [initial.loads] at member
    cases member
  loaded l member := by
    rw [initial.loads] at member
    cases member
  owed e member _ := by
    rw [initial.produced, List.mem_map] at member
    obtain ⟨row, inside, rfl⟩ := member
    exact .inr (.inr ⟨row, inside, by simp, rfl⟩)

/-! ### One step -/

theorem Sound.getEvent {l : JobEventLoad} {row : NoConsumptionJobEvent} (sound : s.Sound) (member : l ∈ s.loads)
    (inside : row ∈ l.rest) : row.getEvent = some row.event := by
  have nonblank := ((sound.lists l member).2 row ((sound.lists l member).1 inside)).1
  rw [NoConsumptionJobEvent.getEvent, nonblank]
  rfl

/-- An event keeps its place or moves on to the next one. -/
theorem Step.travels (step : Step s a t) (sound : s.Sound) (own : s.DeletesOwn a) (nonblank : isBlank e.name = false)
    (travels : s.Travels e) : e ∈ t.popped ∨ t.Travels e ∨ ∃ row ∈ t.table, row.id = s.lastID + 1 ∧ row.event = e := by
  cases step with
  | produces room fresh =>
    right; left
    rcases travels with stacked | other
    · left
      rw [JobEventStorehouse.stack_push sound.filled room]
      exact List.mem_append_left _ stacked
    · exact .inr other
  | pops there =>
    rcases travels with stacked | other
    · rw [(JobEventStorehouse.pop_spec sound.filled there).1, List.mem_append] at stacked
      rcases stacked with below | top
      · exact .inr (.inl (.inl below))
      · exact .inl (List.mem_append_right _ top)
    · exact .inr (.inl (.inr other))
  | reads =>
    right; left
    rcases travels with stacked | saving | ⟨l, member, row, inside, same⟩
    · exact .inl stacked
    · exact .inr (.inl saving)
    · exact .inr (.inr ⟨l, List.mem_append_left _ member, row, inside, same⟩)
  | @pushes n l row rest event there next some_ room =>
    right; left
    rcases travels with stacked | saving | ⟨l', member, row', inside, same⟩
    · left
      rw [JobEventStorehouse.stack_push sound.filled room]
      exact List.mem_append_left _ stacked
    · exact .inr (.inl saving)
    · obtain ⟨m, found⟩ := List.mem_iff_getElem?.mp member
      by_cases this : n = m
      · subst this
        obtain rfl : l = l' := Option.some.inj (there.symm.trans found)
        rw [next, List.mem_cons] at inside
        rcases inside with rfl | later
        · -- this row is the one that is pushed
          left
          rw [JobEventStorehouse.stack_push sound.filled room]
          rw [sound.getEvent member (by rw [next]; simp), same] at some_
          simp [Option.some.inj some_]
        · refine .inr (.inr ⟨{ l with rest := rest }, List.mem_iff_getElem?.mpr ⟨n, ?_⟩, row', later, same⟩)
          rw [List.getElem?_set_self (List.getElem?_eq_some_iff.mp there).1]
      · refine .inr (.inr ⟨l', List.mem_iff_getElem?.mpr ⟨m, ?_⟩, row', inside, same⟩)
        rw [List.getElem?_set_ne this]
        exact found
  | @breaks n l row rest there next null =>
    have event : row.getEvent = some row.event := sound.getEvent (List.mem_of_getElem? there) (by rw [next]; simp)
    rw [null] at event
    cases event
  | @deletes n l there done =>
    right; left
    rcases travels with stacked | saving | ⟨l', member, row, inside, same⟩
    · exact .inl stacked
    · exact .inr (.inl saving)
    · obtain ⟨m, found⟩ := List.mem_iff_getElem?.mp member
      -- the load that deletes has nothing left to push
      have other : m ≠ n := by
        rintro rfl
        obtain rfl : l = l' := Option.some.inj (there.symm.trans found)
        rw [done] at inside
        cases inside
      exact .inr (.inr ⟨l', List.mem_eraseIdx_iff_getElem?.mpr ⟨m, other, found⟩, row, inside, same⟩)
  | drains =>
    right; left
    rcases travels with stacked | saving | loading
    · right; left
      refine List.mem_append_right _ (JobEventStorehouse.mem_popAll ?_ stacked)
      cases named : e.name with
      | none => simp [named, isBlank] at nonblank
      | some name => rfl
    · exact .inr (.inl (List.mem_append_left _ saving))
    · exact .inr (.inr loading)
  | @stores event rest name next named _ =>
    rcases travels with stacked | saving | loading
    · exact .inr (.inl (.inl stacked))
    · rw [next, List.mem_cons] at saving
      rcases saving with rfl | later
      · refine .inr (.inr ⟨_, List.mem_append_right _ (List.mem_singleton.mpr rfl), rfl, ?_⟩)
        simp [NoConsumptionJobEvent.event, ← named]
      · exact .inr (.inl (.inr (.inl later)))
    · exact .inr (.inl (.inr (.inr loading)))
  | @skips event rest next blank =>
    right; left
    rcases travels with stacked | saving | loading
    · exact .inl stacked
    · rw [next, List.mem_cons] at saving
      rcases saving with rfl | later
      · rw [nonblank] at blank
        cases blank
      · exact .inr (.inl later)
    · exact .inr (.inr loading)

theorem Step.lastID_le (step : Step s a t) : s.lastID ≤ t.lastID := by
  cases step with
  | stores => exact Nat.le_succ _
  | _ => exact Nat.le_refl _

theorem Step.popped_subset (step : Step s a t) : s.popped ⊆ t.popped := by
  cases step with
  | pops => exact List.subset_append_left _ _
  | _ => exact List.Subset.refl _

/-- A row stays, or a load deletes the table. -/
theorem Step.table (step : Step s a t) : s.table ⊆ t.table ∨
    ∃ n l, a = .delAllNoConsumptionJobEvent n ∧ s.loads[n]? = some l ∧ l.rest = [] := by
  cases step with
  | deletes there done => exact .inr ⟨_, _, rfl, there, done⟩
  | stores => exact .inl (List.subset_append_left _ _)
  | _ => exact .inl (List.Subset.refl _)

/-- An event that does not depend on old rows stays so. -/
theorem Step.safeBut (step : Step s a t) (sound : s.Sound) (own : s.DeletesOwn a)
    (old : ∀ row ∈ list, row.id ≤ s.lastID) (nonblank : isBlank e.name = false) (safe : s.SafeBut list e) :
    t.SafeBut list e := by
  have travelling : s.Travels e → t.SafeBut list e := by
    intro travels
    rcases step.travels sound own nonblank travels with popped | there | ⟨row, member, new, same⟩
    · exact .inl popped
    · exact .inr (.inl there)
    · refine .inr (.inr ⟨row, member, fun inside => ?_, same⟩)
      have late := old row inside
      omega
  rcases safe with popped | travels | ⟨row, member, outside, same⟩
  · exact .inl (step.popped_subset popped)
  · exact travelling travels
  · rcases step.table with stays | ⟨n, l, rfl, there, done⟩
    · exact .inr (.inr ⟨row, stays member, outside, same⟩)
    · -- the load that deletes the row has read it, so the event has gone on since
      have mine := own l there
      rcases sound.loaded l (List.mem_of_getElem? there) row
        (mine member) with popped | travels | ⟨other, left_, away, _⟩
      · rw [same] at popped
        exact .inl (step.popped_subset popped)
      · rw [same] at travels
        exact travelling travels
      · exact (away (mine left_)).elim

theorem Step.rows (step : Step s a t) (sound : s.Sound) :
    ∀ row ∈ t.table, isBlank (some row.name) = false ∧ row.id ≤ t.lastID := by
  intro row member
  cases step with
  | deletes => cases member
  | stores next named nonblank =>
    rcases List.mem_append.mp member with old | new
    · exact ⟨(sound.rows row old).1, Nat.le_succ_of_le (sound.rows row old).2⟩
    · obtain rfl := List.mem_singleton.mp new
      exact ⟨nonblank, Nat.le_refl _⟩
  | _ => exact sound.rows row member

theorem Step.filled (step : Step s a t) (sound : s.Sound) : t.storeHouse.Filled := by
  cases step with
  | produces room _ => exact JobEventStorehouse.filled_push sound.filled room
  | pops there => exact (JobEventStorehouse.pop_spec sound.filled there).2
  | pushes _ _ _ room => exact JobEventStorehouse.filled_push sound.filled room
  | drains => exact JobEventStorehouse.filled_popAll
  | _ => exact sound.filled

/-- A load has read a list before, or it has just read the table. -/
theorem Step.load (step : Step s a t) {l : JobEventLoad} (member : l ∈ t.loads) :
    (∃ l' ∈ s.loads, l.list = l'.list ∧ l.rest ⊆ l'.rest) ∨
      (l = ⟨s.table, s.table⟩ ∧ t.table = s.table ∧ t.lastID = s.lastID) := by
  cases step with
  | reads =>
    rcases List.mem_append.mp member with old | new
    · exact .inl ⟨l, old, rfl, List.Subset.refl _⟩
    · exact .inr ⟨List.mem_singleton.mp new, rfl, rfl⟩
  | @pushes n l' row rest event there next =>
    rcases List.mem_or_eq_of_mem_set member with old | rfl
    · exact .inl ⟨l, old, rfl, List.Subset.refl _⟩
    · refine .inl ⟨l', List.mem_of_getElem? there, rfl, ?_⟩
      rw [next]
      exact List.subset_cons_self _ _
  | breaks => exact .inl ⟨l, List.mem_of_mem_eraseIdx member, rfl, List.Subset.refl _⟩
  | deletes => exact .inl ⟨l, List.mem_of_mem_eraseIdx member, rfl, List.Subset.refl _⟩
  | _ => exact .inl ⟨l, member, rfl, List.Subset.refl _⟩

/-- An event is new only when it is pushed. -/
theorem Step.owed (step : Step s a t) (sound : s.Sound) (member : e ∈ t.produced) :
    e ∈ s.produced ∨ t.Travels e := by
  cases step with
  | produces room fresh =>
    rcases List.mem_append.mp member with old | new
    · exact .inl old
    · right; left
      rw [JobEventStorehouse.stack_push sound.filled room, List.mem_singleton.mp new]
      simp
  | _ => exact .inl member

theorem Step.sound (step : Step s a t) (own : s.DeletesOwn a) (sound : s.Sound) : t.Sound where
  filled := step.filled sound
  rows := step.rows sound
  lists l member := by
    have later := step.lastID_le
    rcases step.load member with ⟨l', before, list, rest⟩ | ⟨rfl, -, same⟩
    · obtain ⟨within, rows⟩ := sound.lists l' before
      rw [list]
      exact ⟨List.Subset.trans rest within, fun row inside => ⟨(rows row inside).1, (rows row inside).2.trans later⟩⟩
    · rw [same]
      exact ⟨List.Subset.refl _, sound.rows⟩
  loaded l member row inside := by
    rcases step.load member with ⟨l', before, list, -⟩ | ⟨rfl, -, -⟩
    · rw [list] at inside ⊢
      have rows := (sound.lists l' before).2
      exact step.safeBut sound own (fun row inside => (rows row inside).2) (rows row inside).1
        (sound.loaded l' before row inside)
    · -- the load itself has still to push the row
      exact .inr (.inl (.inr (.inr ⟨_, member, row, inside, rfl⟩)))
  owed e member nonblank := by
    rcases step.owed sound member with before | travels
    · exact step.safeBut sound own (by simp) nonblank (sound.owed e before nonblank)
    · exact .inr (.inl travels)

/-! ### Whole runs -/

/-- No chained event is lost in a run whose loads delete only what they have read, and
then a load has also pushed what it deletes. An event is in the hands of a shutdown only
between `popAll` and its own insert. -/
theorem chained_kept (reachable : Reachable system DeletesOwn s) :
    (∀ e ∈ s.produced, isBlank e.name = false → e ∉ s.popped → s.InPlace e ∨ e ∈ s.saving) ∧
      ∀ n t, s.DeletesOwn (.delAllNoConsumptionJobEvent n) → Step s (.delAllNoConsumptionJobEvent n) t →
        ∀ row ∈ s.table, ∃ l ∈ s.loads, row ∈ l.list ∧ row ∉ l.rest := by
  constructor
  · have sound : s.Sound := by
      apply Reachable.invariant (I := Sound) _ _ reachable
      · exact fun s initial => sound_of_initial initial
      · exact fun s a t sound own step => step.sound own sound
    intro e member nonblank unpopped
    rcases sound.owed e member nonblank with popped | (stacked | saving | loading) | ⟨row, stored, -, same⟩
    · exact (unpopped popped).elim
    · exact .inl (.inl stacked)
    · exact .inr saving
    · exact .inl (.inr (.inr loading))
    · exact .inl (.inr (.inl ⟨row, stored, same⟩))
  · intro n t own step row stored
    cases step with
    | @deletes _ l there done =>
      refine ⟨l, List.mem_of_getElem? there, own l there stored, ?_⟩
      rw [done]
      exact List.not_mem_nil

/-! ### A load and a shutdown -/

/-- An engine starts with one event stored. -/
def restarted : JobEvents where
  storeHouse := .construct 0
  table := [⟨1, "a", 0⟩]
  lastID := 1
  produced := [⟨some "a", 0⟩]

theorem initial_restarted : Initial restarted where
  storeHouse := ⟨0, rfl⟩
  rows := by decide
  loads := rfl
  saving := rfl
  produced := rfl
  popped := rfl

/-- The stored event is loaded and the table is emptied; one more is produced, and a shutdown has
stored the first of the two. -/
theorem chained_kept_restarted : ∃ s, Reachable system DeletesOwn s ∧
    s.table.map (·.event) = [⟨some "a", 0⟩] ∧ s.saving = [⟨some "b", 1⟩] ∧
    ∀ e ∈ s.produced, isBlank e.name = false → e ∉ s.popped → s.InPlace e ∨ e ∈ s.saving := by
  have start : Reachable system DeletesOwn restarted := .start initial_restarted
  have read : Reachable system DeletesOwn _ := .next (a := .findAll) start trivial (.reads (by decide))
  have pushed : Reachable system DeletesOwn _ := .next (a := .load 0) read trivial (.pushes rfl rfl rfl rfl)
  have deleted : Reachable system DeletesOwn _ :=
    .next (a := .delAllNoConsumptionJobEvent 0) pushed ?_ (.deletes rfl rfl)
  · have produced : Reachable system DeletesOwn _ :=
      .next (a := .produceJobEvent ⟨some "b", 1⟩) deleted trivial (.produces (by decide) (by decide))
    have drained : Reachable system DeletesOwn _ := .next (a := .popAll) produced trivial .drains
    have stored : Reachable system DeletesOwn _ :=
      .next (a := .saveJobEvent) drained trivial (.stores rfl rfl (by decide))
    exact ⟨_, stored, rfl, rfl, (chained_kept stored).1⟩
  · intro l there
    cases there
    exact List.Subset.refl _

/-- An event is produced while a load runs, a shutdown stores it, and the load deletes it. -/
theorem shutdown_loses : ∃ s, Reachable system (fun _ _ => True) s ∧
    ∃ e ∈ s.produced, isBlank e.name = false ∧ e ∉ s.popped ∧ ¬ s.InPlace e ∧ e ∉ s.saving := by
  have go : ∀ {s t : JobEvents} {a : Action}, Reachable system (fun _ _ => True) s → Step s a t →
      Reachable system (fun _ _ => True) t := fun before step => .next before trivial step
  have start : Reachable system (fun _ _ => True) restarted := .start initial_restarted
  have read := go start (.reads (by decide))
  have produced := go read (a := .produceJobEvent ⟨some "b", 1⟩) (.produces (by decide) (by decide))
  have pushed := go produced (a := .load 0) (.pushes rfl rfl rfl rfl)
  have drained := go pushed .drains
  have stored := go drained (.stores rfl rfl (by decide))
  have stored' := go stored (.stores rfl rfl (by decide))
  have deleted := go stored' (a := .delAllNoConsumptionJobEvent 0) (.deletes rfl rfl)
  refine ⟨_, deleted, ⟨some "b", 1⟩, by decide, by decide, by decide, ?_, by decide⟩
  unfold InPlace
  decide

end JobEvents

end Hella
