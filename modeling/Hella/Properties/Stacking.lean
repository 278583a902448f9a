import Hella.Engine.JobEvents
import Mathlib.Data.List.ReduceOption

/-!
# The storehouse is a stack

`pop` goes by `top`, `popAll` looks at every slot of the array. As long as every event has
a name the two agree: the slots below `top` hold the events in the order in which they
were pushed, and the slots from `top` on are free.
-/
namespace Hella

/-- A call of the storehouse that has returned, with what it was given or what it returned. -/
inductive StorehouseCall where
  | push (product : ChainedEvent)
  | pop (pro : Option ChainedEvent)
  /-- `none` is null -/
  | popAll (names : Option (List String))
  deriving DecidableEq, Repr

namespace StorehouseCall

def pushed : StorehouseCall → List (Option String)
  | push product => [product.name]
  | _ => []

/-- The names that the call has handed out. -/
def released : StorehouseCall → List (Option String)
  | pop (some pro) => [pro.name]
  | popAll (some names) => names.map some
  | _ => []

end StorehouseCall

/-- What the calls do to a stack, which is written in the order of the pushes. -/
inductive Stacks : List ChainedEvent → List StorehouseCall → List ChainedEvent → Prop where
  | nil {stack} : Stacks stack [] stack
  | push {stack product calls rest} (later : Stacks (stack ++ [product]) calls rest) :
    Stacks stack (.push product :: calls) rest
  /-- the event pushed last of those that are still there -/
  | pop {stack product calls rest} (later : Stacks stack calls rest) :
    Stacks (stack ++ [product]) (.pop (some product) :: calls) rest
  | popAll {stack names calls rest} (all : names.map some = stack.map (·.name)) (later : Stacks [] calls rest) :
    Stacks stack (.popAll (some names) :: calls) rest

namespace Stacks

variable {stack : List ChainedEvent} {calls : List StorehouseCall}

theorem append {after rest : List ChainedEvent} {first second : List StorehouseCall} (one : Stacks stack first after)
    (two : Stacks after second rest) : Stacks stack (first ++ second) rest := by
  induction one with
  | nil => exact two
  | push _ ih => exact .push (ih two)
  | pop _ ih => exact .pop (ih two)
  | popAll all _ ih => exact .popAll all (ih two)

/-- What the calls of a stack release and leave behind is what it held and what they pushed. -/
theorem conserve {after : List ChainedEvent} (stacked : Stacks stack calls after) :
    (stack.map (·.name) ++ calls.flatMap StorehouseCall.pushed).Perm
      (calls.flatMap StorehouseCall.released ++ after.map (·.name)) := by
  induction stacked with
  | nil => simp
  | push _ ih => simpa [StorehouseCall.pushed, StorehouseCall.released] using ih
  | @pop stack product calls _ _ ih =>
    simp only [List.map_append, List.flatMap_cons, StorehouseCall.pushed, StorehouseCall.released, List.nil_append,
      List.map_cons, List.map_nil, List.append_assoc, List.cons_append]
    exact (List.perm_middle).trans (ih.cons _)
  | popAll all _ ih =>
    simp only [List.flatMap_cons, StorehouseCall.pushed, StorehouseCall.released, List.nil_append, all,
      List.append_assoc]
    exact ih.append_left _

end Stacks

namespace JobEventStorehouse

/-- What `popAll` returns: an array of no slots is answered with null. -/
def popAllNames (h : JobEventStorehouse) : Option (List String) :=
  if h.products.length = 0 then none else some (h.popAll.1.filterMap (·.name))

/-- A call that has come through: `push` has found room and `pop` has found an event. -/
inductive Completes : JobEventStorehouse → StorehouseCall → JobEventStorehouse → Prop where
  | push {h : JobEventStorehouse} {product : ChainedEvent} (room : h.isFull = false) :
    Completes h (.push product) (h.push product)
  | pop {h t : JobEventStorehouse} {pro : Option ChainedEvent} (there : h.pop = some (pro, t)) :
    Completes h (.pop pro) t
  | popAll {h} : Completes h (.popAll h.popAllNames) h.popAll.2

inductive Run : JobEventStorehouse → List StorehouseCall → JobEventStorehouse → Prop where
  | nil {h} : Run h [] h
  | cons {h call t calls u} (first : Completes h call t) (rest : Run t calls u) : Run h (call :: calls) u

/-- The events in the array, from the bottom. -/
def contained (h : JobEventStorehouse) : List ChainedEvent := h.products.reduceOption

/-- `top` is inside the array, and exactly the slots below it are taken. -/
structure Packed (h : JobEventStorehouse) : Prop where
  bound : 0 ≤ h.top ∧ h.top ≤ h.products.length
  taken : ∀ i (inside : i < h.products.length), h.products[i] ≠ none ↔ i < h.top

variable {h t : JobEventStorehouse} {stack : List ChainedEvent} {calls : List StorehouseCall} {n : Nat}

/-! ### The array as a stack -/

/-- The array begins with the events of the stack, and the rest of its `n` slots is free. -/
structure Represents (n : Nat) (stack : List ChainedEvent) (h : JobEventStorehouse) : Prop where
  top : h.top = stack.length
  bound : stack.length ≤ n
  products : h.products = stack.map some ++ List.replicate (n - stack.length) none

namespace Represents

theorem length (rep : Represents n stack h) : h.products.length = n := by
  have bound := rep.bound
  rw [rep.products, List.length_append, List.length_map, List.length_replicate]
  omega

theorem contained (rep : Represents n stack h) : h.contained = stack := by
  rw [JobEventStorehouse.contained, rep.products, List.reduceOption_append, List.reduceOption_replicate_none,
    List.append_nil, List.reduceOption, List.filterMap_map]
  exact List.filterMap_some

theorem packed (rep : Represents n stack h) : h.Packed := by
  constructor
  · rw [rep.length, rep.top]
    exact ⟨Nat.zero_le _, rep.bound⟩
  · intro i inside
    rw [rep.top]
    simp only [rep.products]
    by_cases below : i < stack.length
    · rw [List.getElem_append_left (by rwa [List.length_map]), List.getElem_map]
      simp [below]
    · rw [List.getElem_append_right (by rw [List.length_map]; omega), List.getElem_replicate]
      simp [below]

theorem construct (resourceSize : Int) :
    ∃ n, 0 < n ∧ Represents n [] (JobEventStorehouse.construct resourceSize) := by
  by_cases positive : resourceSize > 0
  · refine ⟨resourceSize.toNat, by omega, rfl, Nat.zero_le _, ?_⟩
    simp [JobEventStorehouse.construct, positive]
  · refine ⟨defaultSize, by decide, rfl, Nat.zero_le _, ?_⟩
    simp [JobEventStorehouse.construct, positive]

/-- The slot at `top` is the first free one. -/
theorem push (rep : Represents n stack h) (room : h.isFull = false) (product : ChainedEvent) :
    Represents n (stack ++ [product]) (h.push product) := by
  have notFull : h.top ≠ h.products.length := by simpa [isFull] using room
  rw [rep.top, rep.length] at notFull
  have bound := rep.bound
  obtain ⟨free, size⟩ : ∃ free, n - stack.length = free + 1 := ⟨n - stack.length - 1, by omega⟩
  have rest : n - (stack ++ [product]).length = free := by
    rw [List.length_append, List.length_singleton]
    omega
  constructor
  · simp [JobEventStorehouse.push, rep.top]
  · rw [List.length_append, List.length_singleton]
    omega
  · rw [rest]
    simp [JobEventStorehouse.push, rep.top, rep.products, size, List.replicate_succ]

/-- `pop` frees the last slot that is taken. -/
theorem pop (rep : Represents n stack h) {pro : Option ChainedEvent} (there : h.pop = some (pro, t)) :
    ∃ below product, stack = below ++ [product] ∧ pro = some product ∧ Represents n below t := by
  obtain ⟨products, top⟩ := h
  obtain ⟨top_, bound, slots⟩ := rep
  dsimp only at top_ slots
  subst top_ slots
  cases stack using List.reverseRecOn with
  | nil => simp [JobEventStorehouse.pop] at there
  | append_singleton below product =>
    refine ⟨below, product, rfl, ?_⟩
    rw [List.length_append, List.length_singleton] at bound
    have free : n - below.length = n - (below ++ [product]).length + 1 := by
      rw [List.length_append, List.length_singleton]
      omega
    simp only [JobEventStorehouse.pop, List.length_append, List.length_singleton, Option.some.injEq, Prod.mk.injEq]
      at there
    obtain ⟨rfl, rfl⟩ := there
    constructor
    · simp
    · refine ⟨rfl, by omega, ?_⟩
      simp [free, List.replicate_succ]

/-- With a name on every event no slot is passed over. -/
theorem popAll (rep : Represents n stack h) (named : ∀ product ∈ stack, product.name.isSome = true) :
    Represents n [] h.popAll.2 := by
  refine ⟨rfl, Nat.zero_le _, ?_⟩
  have cleared : stack.map (fun product => (some product).filter (·.name.isNone)) =
    List.replicate stack.length none := by
    rw [List.eq_replicate_iff, List.length_map]
    refine ⟨rfl, fun slot member => ?_⟩
    obtain ⟨product, inside, rfl⟩ := List.mem_map.mp member
    have name := named product inside
    simp [Option.filter, Option.isNone_eq_false_iff.mpr name]
  have bound := rep.bound
  have slots : h.popAll.2.products = List.replicate stack.length none ++ List.replicate (n - stack.length) none := by
    simp only [JobEventStorehouse.popAll, rep.products, List.map_append, List.map_map, List.map_replicate]
    exact congrArg (· ++ _) cleared
  rw [slots, List.replicate_append_replicate, List.length_nil, List.map_nil, List.nil_append]
  congr 1
  omega

theorem popAllNames (rep : Represents n stack h) (slots : 0 < n)
    (named : ∀ product ∈ stack, product.name.isSome = true) :
    ∃ names, h.popAllNames = some names ∧ names.map some = stack.map (·.name) := by
  have some_slot : h.products.length ≠ 0 := by
    rw [rep.length]
    omega
  refine ⟨_, if_neg some_slot, ?_⟩
  have all : h.popAll.1 = stack := by
    change h.contained.filter (·.name.isSome) = stack
    rw [rep.contained, List.filter_eq_self]
    exact named
  rw [all]
  clear all rep
  induction stack with
  | nil => rfl
  | cons product stack ih =>
    obtain ⟨name, same⟩ := Option.isSome_iff_exists.mp (named product (List.mem_cons_self ..))
    rw [List.filterMap_cons_some same, List.map_cons, List.map_cons, same]
    rw [ih fun other member => named other (List.mem_cons_of_mem _ member)]

end Represents

/-! ### Whole runs -/

/-- The events that the calls of a run have pushed all have a name. -/
def Named (calls : List StorehouseCall) : Prop := ∀ product, .push product ∈ calls → product.name.isSome = true

theorem Named.tail {call : StorehouseCall} (named : Named (call :: calls)) : Named calls :=
  fun product member => named product (List.mem_cons_of_mem _ member)

/-- One call does to the array what it does to the stack. -/
theorem Represents.step (rep : Represents n stack h) (slots : 0 < n) {call : StorehouseCall}
    (named : ∀ product ∈ stack, product.name.isSome = true) (call_named : Named [call]) (done : Completes h call t) :
    ∃ after, Stacks stack [call] after ∧ Represents n after t ∧ ∀ product ∈ after, product.name.isSome = true := by
  cases done with
  | push room =>
    refine ⟨_, .push .nil, rep.push room _, fun product member => ?_⟩
    rcases List.mem_append.mp member with below | last
    · exact named product below
    · rw [List.mem_singleton.mp last]
      exact call_named _ (List.mem_singleton_self _)
  | pop there =>
    obtain ⟨below, product, rfl, rfl, remains⟩ := rep.pop there
    exact ⟨below, .pop .nil, remains, fun other member => named other (List.mem_append_left _ member)⟩
  | popAll =>
    obtain ⟨names, same, all⟩ := rep.popAllNames slots named
    rw [same]
    exact ⟨[], .popAll all .nil, rep.popAll named, fun _ member => absurd member List.not_mem_nil⟩

theorem Represents.run (rep : Represents n stack h) (slots : 0 < n)
    (named : ∀ product ∈ stack, product.name.isSome = true) (calls_named : Named calls) (ran : Run h calls t) :
    ∃ after, Stacks stack calls after ∧ Represents n after t := by
  induction ran generalizing stack with
  | nil => exact ⟨stack, .nil, rep⟩
  | cons done _ ih =>
    have first : Named [_] := fun product member =>
      calls_named product (List.mem_singleton.mp member ▸ List.mem_cons_self ..)
    obtain ⟨between, one, still, names⟩ := rep.step slots named first done
    obtain ⟨after, rest, ends⟩ := ih still names calls_named.tail
    exact ⟨after, one.append rest, ends⟩

/-- In every run the array holds a stack: `pop` returns the last event, `popAll` all of them
in the order of the pushes, and no name is lost or comes out twice. -/
theorem packed_of_run (resourceSize : Int) (named : Named calls) (ran : Run (construct resourceSize) calls h) :
    h.Packed ∧ Stacks [] calls h.contained ∧
      (calls.flatMap StorehouseCall.pushed).Perm
        (calls.flatMap StorehouseCall.released ++ h.contained.map (·.name)) := by
  obtain ⟨n, slots, empty⟩ := Represents.construct resourceSize
  obtain ⟨after, stacked, rep⟩ := empty.run slots (fun _ member => absurd member List.not_mem_nil) named ran
  rw [rep.contained]
  refine ⟨rep.packed, stacked, ?_⟩
  have conserve := stacked.conserve
  rwa [List.map_nil, List.nil_append] at conserve

/-- Two events, the second of which is popped, and a third. -/
def oneLeft : List StorehouseCall :=
  [.push ⟨some "a", 0⟩, .push ⟨some "b", 1⟩, .pop (some ⟨some "b", 1⟩), .push ⟨some "c", 2⟩]

theorem packed_of_run_oneLeft :
    ∃ h, Run (construct 2) oneLeft h ∧ h.Packed ∧ Stacks [] oneLeft h.contained ∧
      h.popAllNames = some ["a", "c"] := by
  refine ⟨_, .cons (.push rfl) (.cons (.push rfl) (.cons (.pop rfl) (.cons (.push rfl) .nil))), ?_⟩
  have named : Named oneLeft := by
    intro product member
    simp only [oneLeft, List.mem_cons, StorehouseCall.push.injEq, reduceCtorEq, List.not_mem_nil, false_or, or_false]
      at member
    obtain rfl | rfl | rfl := member <;> rfl
  obtain ⟨packed, stacked, -⟩ := packed_of_run 2 named
    (.cons (.push rfl) (.cons (.push rfl) (.cons (.pop rfl) (.cons (.push rfl) .nil))))
  exact ⟨packed, stacked, rfl⟩

end JobEventStorehouse

end Hella
