import Mathlib.Data.List.Count
import Mathlib.Data.List.Nodup
import Mathlib.Tactic.Linarith

/-!
# Flows through nested forks

A `Flow` is a plan built from steps and from forks that end in their own join.
Control is counted: `give x` is how often `x` has handed control on, and `feed` how
often a node has been handed control by the others. If every node takes no more than
it was handed (`Bounded`), a flow that is entered once takes every step at most
once, in the order of the plan, and lets control out only when all of it is done.
-/
namespace ForkJoin

/-- One if the condition holds. -/
def tick (p : Prop) [Decidable p] : Nat := if p then 1 else 0

@[simp] theorem tick_true {p : Prop} [Decidable p] (holds : p) : tick p = 1 := if_pos holds

@[simp] theorem tick_false {p : Prop} [Decidable p] (fails : ¬ p) : tick p = 0 := if_neg fails

/-- `both` puts paths side by side; they all lead to the same node. -/
inductive Flow (α : Type) where
  | done
  | step (a : α) (rest : Flow α)
  | fork (f j : α) (paths rest : Flow α)
  | both (left right : Flow α)
  deriving DecidableEq, Repr

namespace Flow

variable {α : Type}

/-- The first node of each path, `next` being what comes after the flow. -/
@[simp] def entries (next : α) : Flow α → List α
  | done => [next]
  | step a _ => [a]
  | fork f _ _ _ => [f]
  | both left right => left.entries next ++ right.entries next

/-- The number of paths. -/
@[simp] def width : Flow α → Nat
  | done | step _ _ | fork _ _ _ _ => 1
  | both left right => left.width + right.width

@[simp] def names : Flow α → List α
  | done => []
  | step a rest => a :: rest.names
  | fork f j paths rest => f :: j :: (paths.names ++ rest.names)
  | both left right => left.names ++ right.names

@[simp] def steps : Flow α → List α
  | done => []
  | step a rest => a :: rest.steps
  | fork _ _ paths rest => paths.steps ++ rest.steps
  | both left right => left.steps ++ right.steps

/-- The forks with their joins and the number of paths between. -/
@[simp] def pairs : Flow α → List (α × α × Nat)
  | done => []
  | step _ rest => rest.pairs
  | fork f j paths rest => (f, j, paths.width) :: (paths.pairs ++ rest.pairs)
  | both left right => left.pairs ++ right.pairs

/-- Only a fork is followed by more than one path. -/
@[simp] def Proper : Flow α → Prop
  | done => True
  | step _ rest => rest.width = 1 ∧ rest.Proper
  | fork _ _ paths rest => paths.Proper ∧ rest.width = 1 ∧ rest.Proper
  | both left right => left.Proper ∧ right.Proper

/-- A step that has to be taken before another one. -/
@[simp] def Before (x y : α) : Flow α → Prop
  | done => False
  | step a rest => x = a ∧ y ∈ rest.steps ∨ rest.Before x y
  | fork _ _ paths rest => x ∈ paths.steps ∧ y ∈ rest.steps ∨ paths.Before x y ∨ rest.Before x y
  | both left right => left.Before x y ∨ right.Before x y

theorem length_entries (next : α) (b : Flow α) : (b.entries next).length = b.width := by
  induction b with
  | done | step | fork => rfl
  | both left right ihLeft ihRight => simp [ihLeft, ihRight]

theorem width_pos (b : Flow α) : 0 < b.width := by
  induction b with
  | done | step | fork => exact Nat.one_pos
  | both left right ihLeft ihRight => exact Nat.add_pos_left ihLeft _

theorem steps_subset (b : Flow α) : b.steps ⊆ b.names := by
  induction b with
  | done => simp
  | step a rest ih => simpa using List.subset_cons_of_subset a ih
  | fork f j paths rest ihPaths ihRest =>
    intro y member
    rcases List.mem_append.mp member with inner | later
    · simp [ihPaths inner]
    · simp [ihRest later]
  | both left right ihLeft ihRight =>
    intro y member
    rcases List.mem_append.mp member with one | other
    · simp [ihLeft one]
    · simp [ihRight other]

theorem pairs_subset {b : Flow α} {p : α × α × Nat} (member : p ∈ b.pairs) :
    p.1 ∈ b.names ∧ p.2.1 ∈ b.names ∧ 0 < p.2.2 := by
  induction b with
  | done => simp at member
  | step a rest ih =>
    obtain ⟨fork, join, some_path⟩ := ih member
    exact ⟨by simp [fork], by simp [join], some_path⟩
  | fork f j paths rest ihPaths ihRest =>
    rcases List.mem_cons.mp member with rfl | member
    · exact ⟨by simp, by simp, width_pos paths⟩
    rcases List.mem_append.mp member with inner | later
    · obtain ⟨fork, join, some_path⟩ := ihPaths inner
      exact ⟨by simp [fork], by simp [join], some_path⟩
    · obtain ⟨fork, join, some_path⟩ := ihRest later
      exact ⟨by simp [fork], by simp [join], some_path⟩
  | both left right ihLeft ihRight =>
    rcases List.mem_append.mp member with one | other
    · obtain ⟨fork, join, some_path⟩ := ihLeft one
      exact ⟨by simp [fork], by simp [join], some_path⟩
    · obtain ⟨fork, join, some_path⟩ := ihRight other
      exact ⟨by simp [fork], by simp [join], some_path⟩

theorem Before.mem {b : Flow α} {x y : α} (before : b.Before x y) : x ∈ b.steps ∧ y ∈ b.steps := by
  induction b with
  | done => exact before.elim
  | step a rest ih =>
    rcases before with ⟨rfl, later⟩ | before
    · exact ⟨by simp, by simp [later]⟩
    · exact ⟨by simp [ih before], by simp [ih before]⟩
  | fork f j paths rest ihPaths ihRest =>
    rcases before with ⟨first, later⟩ | before | before
    · exact ⟨by simp [first], by simp [later]⟩
    · exact ⟨by simp [ihPaths before], by simp [ihPaths before]⟩
    · exact ⟨by simp [ihRest before], by simp [ihRest before]⟩
  | both left right ihLeft ihRight =>
    rcases before with before | before
    · exact ⟨by simp [ihLeft before], by simp [ihLeft before]⟩
    · exact ⟨by simp [ihRight before], by simp [ihRight before]⟩

/-! The names of the parts of a flow, and what comes after them, are names of the flow or
come after it. -/

theorem subset_step (next a : α) (rest : Flow α) : next :: rest.names ⊆ next :: (step a rest).names :=
  List.cons_subset_cons next (List.subset_cons_self a rest.names)

theorem subset_fork_paths (next f j : α) (paths rest : Flow α) :
    j :: paths.names ⊆ next :: (fork f j paths rest).names := by
  intro y member
  rcases List.mem_cons.mp member with rfl | inside
  · simp
  · simp [inside]

theorem subset_fork_rest (next f j : α) (paths rest : Flow α) :
    next :: rest.names ⊆ next :: (fork f j paths rest).names := by
  apply List.cons_subset_cons
  intro y inside
  simp [inside]

theorem subset_left (next : α) (left right : Flow α) : next :: left.names ⊆ next :: (both left right).names :=
  List.cons_subset_cons next (List.subset_append_left ..)

theorem subset_right (next : α) (left right : Flow α) : next :: right.names ⊆ next :: (both left right).names :=
  List.cons_subset_cons next (List.subset_append_right ..)

theorem entries_subset (next : α) (b : Flow α) : b.entries next ⊆ next :: b.names := by
  induction b with
  | done | step | fork => simp
  | both left right ihLeft ihRight =>
    intro y member
    rcases List.mem_append.mp member with one | other
    · exact subset_left next left right (ihLeft one)
    · exact subset_right next left right (ihRight other)

theorem mem_ite_nil {p : Prop} [Decidable p] {y : α} {items : List α} (member : y ∈ if p then items else []) :
    y ∈ items := by
  split at member
  · exact member
  · simp at member

/-! ### Feeding -/

section Feed

variable [DecidableEq α] (give : α → Nat)

/-- How often `y` has been handed control if the flow was entered `e` times. -/
@[simp] def feed (y : α) : α → Nat → Flow α → Nat
  | next, e, done => e * tick (next = y)
  | next, e, step a rest => e * tick (a = y) + rest.feed y next (give a)
  | next, e, fork f j paths rest =>
    e * tick (f = y) + paths.feed y j (give f) + rest.feed y next (give j)
  | next, e, both left right => left.feed y next e + right.feed y next e

/-- How often control has left the flow. -/
@[simp] def out : Nat → Flow α → Nat
  | e, done => e
  | _, step a rest => rest.out (give a)
  | _, fork _ j _ rest => rest.out (give j)
  | e, both left right => left.out e + right.out e

/-- Where `x` hands control to. -/
@[simp] def successors (x : α) (next : α) : Flow α → List α
  | done => []
  | step a rest => (if x = a then rest.entries next else []) ++ rest.successors x next
  | fork f j paths rest =>
    (if x = f then paths.entries j else []) ++ (if x = j then rest.entries next else []) ++
      paths.successors x j ++ rest.successors x next
  | both left right => left.successors x next ++ right.successors x next

theorem successors_subset (x next : α) (b : Flow α) : b.successors x next ⊆ next :: b.names := by
  induction b generalizing next with
  | done => simp
  | step a rest ih =>
    intro y member
    apply subset_step next a rest
    rcases List.mem_append.mp member with first | later
    · exact entries_subset next rest (mem_ite_nil first)
    · exact ih next later
  | fork f j paths rest ihPaths ihRest =>
    intro y member
    simp only [successors, List.mem_append] at member
    -- the fork leads into its paths, and the join into what comes after it
    rcases member with ((atFork | atJoin) | inner) | later
    · exact subset_fork_paths next f j paths rest (entries_subset j paths (mem_ite_nil atFork))
    · exact subset_fork_rest next f j paths rest (entries_subset next rest (mem_ite_nil atJoin))
    · exact subset_fork_paths next f j paths rest (ihPaths j inner)
    · exact subset_fork_rest next f j paths rest (ihRest next later)
  | both left right ihLeft ihRight =>
    intro y member
    rcases List.mem_append.mp member with one | other
    · exact subset_left next left right (ihLeft next one)
    · exact subset_right next left right (ihRight next other)

theorem successors_of_not_mem {x : α} (next : α) (b : Flow α) (outside : x ∉ b.names) :
    b.successors x next = [] := by
  induction b generalizing next with
  | done => rfl
  | step a rest ih =>
    have different : x ≠ a := fun same => outside (by simp [same])
    simp [different, ih next fun member => outside (by simp [member])]
  | fork f j paths rest ihPaths ihRest =>
    have notFork : x ≠ f := fun same => outside (by simp [same])
    have notJoin : x ≠ j := fun same => outside (by simp [same])
    simp [notFork, notJoin, ihPaths j fun member => outside (by simp [member]),
      ihRest next fun member => outside (by simp [member])]
  | both left right ihLeft ihRight =>
    simp [ihLeft next fun member => outside (by simp [member]), ihRight next fun member => outside (by simp [member])]

/-! What follows a node of a fork whose names are distinct. -/

section Distinct

variable {f j x : α} {paths rest : Flow α}

theorem successors_fork (next : α) (distinct : (fork f j paths rest).names.Nodup) :
    (fork f j paths rest).successors f next = paths.entries j := by
  obtain ⟨freshFork, -⟩ := List.nodup_cons.mp distinct
  simp only [List.mem_cons, List.mem_append, not_or] at freshFork
  simp [freshFork.1, successors_of_not_mem j paths freshFork.2.1, successors_of_not_mem next rest freshFork.2.2]

theorem successors_join (next : α) (distinct : (fork f j paths rest).names.Nodup) :
    (fork f j paths rest).successors j next = rest.entries next := by
  obtain ⟨freshFork, distinct⟩ := List.nodup_cons.mp distinct
  obtain ⟨freshJoin, -⟩ := List.nodup_cons.mp distinct
  simp only [List.mem_cons, List.mem_append, not_or] at freshFork freshJoin
  simp [Ne.symm freshFork.1, successors_of_not_mem j paths freshJoin.1, successors_of_not_mem next rest freshJoin.2]

/-- What follows inside the paths ends at the join. -/
theorem successors_paths (next : α) (distinct : (fork f j paths rest).names.Nodup) (inside : x ∈ paths.names) :
    (fork f j paths rest).successors x next = paths.successors x j := by
  obtain ⟨freshFork, distinct⟩ := List.nodup_cons.mp distinct
  obtain ⟨freshJoin, distinct⟩ := List.nodup_cons.mp distinct
  simp only [List.mem_cons, List.mem_append, not_or] at freshFork freshJoin
  have notFork : x ≠ f := fun same => freshFork.2.1 (same ▸ inside)
  have notJoin : x ≠ j := fun same => freshJoin.1 (same ▸ inside)
  have apart := (List.nodup_append'.mp distinct).2.2
  simp [notFork, notJoin, successors_of_not_mem next rest (apart inside)]

theorem successors_rest (next : α) (distinct : (fork f j paths rest).names.Nodup) (later : x ∈ rest.names) :
    (fork f j paths rest).successors x next = rest.successors x next := by
  obtain ⟨freshFork, distinct⟩ := List.nodup_cons.mp distinct
  obtain ⟨freshJoin, distinct⟩ := List.nodup_cons.mp distinct
  simp only [List.mem_cons, List.mem_append, not_or] at freshFork freshJoin
  have notFork : x ≠ f := fun same => freshFork.2.2 (same ▸ later)
  have notJoin : x ≠ j := fun same => freshJoin.2 (same ▸ later)
  have apart := (List.nodup_append'.mp distinct).2.2
  simp [notFork, notJoin, successors_of_not_mem j paths fun inside => apart inside later]

end Distinct

theorem feed_of_not_mem {y next : α} (other : next ≠ y) (e : Nat) (b : Flow α) (outside : y ∉ b.names) :
    b.feed give y next e = 0 := by
  induction b generalizing next e with
  | done => simp [other]
  | step a rest ih =>
    have different : a ≠ y := fun same => outside (by simp [same])
    simp [different, ih other _ fun member => outside (by simp [member])]
  | fork f j paths rest ihPaths ihRest =>
    have notFork : f ≠ y := fun same => outside (by simp [same])
    have notJoin : j ≠ y := fun same => outside (by simp [same])
    simp [notFork, ihPaths notJoin _ fun member => outside (by simp [member]),
      ihRest other _ fun member => outside (by simp [member])]
  | both left right ihLeft ihRight =>
    simp [ihLeft other _ fun member => outside (by simp [member]),
      ihRight other _ fun member => outside (by simp [member])]

/-- Nothing is fed where nobody hands on. -/
theorem feed_zero {give : α → Nat} (nobody : ∀ x, give x = 0) (y next : α) (b : Flow α) :
    b.feed give y next 0 = 0 := by
  induction b generalizing next with
  | done => simp
  | step a rest ih => simp [nobody, ih]
  | fork f j paths rest ihPaths ihRest => simp [nobody, ihPaths, ihRest]
  | both left right ihLeft ihRight => simp [ihLeft, ihRight]

theorem feed_next {next : α} (e : Nat) (b : Flow α) (outside : next ∉ b.names) :
    b.feed give next next e = b.out give e := by
  induction b generalizing e with
  | done => simp
  | step a rest ih =>
    have different : a ≠ next := fun same => outside (by simp [same])
    simp [different, ih _ fun member => outside (by simp [member])]
  | fork f j paths rest ihPaths ihRest =>
    have notFork : f ≠ next := fun same => outside (by simp [same])
    have notJoin : j ≠ next := fun same => outside (by simp [same])
    simp [notFork, feed_of_not_mem give notJoin (give f) paths fun member => outside (by simp [member]),
      ihRest _ fun member => outside (by simp [member])]
  | both left right ihLeft ihRight =>
    simp [ihLeft _ fun member => outside (by simp [member]), ihRight _ fun member => outside (by simp [member])]

theorem count_singleton_tick (a y : α) : [a].count y = tick (a = y) := by
  unfold tick
  split <;> simp_all

/-- Entering the flow once more feeds the first nodes once more. -/
theorem feed_succ (y next : α) (e : Nat) (b : Flow α) :
    b.feed give y next (e + 1) = b.feed give y next e + (b.entries next).count y := by
  induction b generalizing e with
  | done => simp only [feed, entries, count_singleton_tick, Nat.add_mul, Nat.one_mul]
  | step | fork =>
    simp only [feed, entries, count_singleton_tick, Nat.add_mul, Nat.one_mul]
    omega
  | both left right ihLeft ihRight =>
    simp only [feed, entries, ihLeft, ihRight, List.count_append]
    omega

variable {give} {give' : α → Nat}

theorem feed_add_tick (y next : α) (e : Nat) (p : Prop) [Decidable p] (b : Flow α) :
    b.feed give y next (e + tick p) =
      b.feed give y next e + (if p then b.entries next else []).count y := by
  by_cases holds : p
  · simp [holds, feed_succ]
  · simp [holds]

/-- One more handing on by `x` feeds its successors once more. -/
theorem feed_bump (x y next : α) (e : Nat) (b : Flow α) :
    b.feed (fun z => give z + tick (x = z)) y next e = b.feed give y next e + (b.successors x next).count y := by
  induction b generalizing next e with
  | done => simp
  | step a rest ih =>
    simp only [feed, successors, ih, feed_add_tick, List.count_append]
    omega
  | fork f j paths rest ihPaths ihRest =>
    simp only [feed, successors, ihPaths, ihRest, feed_add_tick, List.count_append]
    omega
  | both left right ihLeft ihRight =>
    simp only [feed, successors, ihLeft, ihRight, List.count_append]
    omega

end Feed

/-! ### Bounds -/

section Bounds

variable (taken give : α → Nat)

/-- Every node takes control no more often than it was handed it. -/
@[simp] def Bounded : Nat → Flow α → Prop
  | _, done => True
  | e, step a rest => taken a ≤ e ∧ rest.Bounded (give a)
  | e, fork f j paths rest => taken f ≤ e ∧ paths.Bounded (give f) ∧ taken j ≤ paths.out give (give f) ∧
      rest.Bounded (give j)
  | e, both left right => left.Bounded e ∧ right.Bounded e

/-- How often each node takes control, compared with how often it was handed it. -/
@[simp] def Meets (R : Nat → Nat → Prop) : Nat → Flow α → Prop
  | _, done => True
  | e, step a rest => R (taken a) e ∧ rest.Meets R (give a)
  | e, fork f j paths rest => R (taken f) e ∧ paths.Meets R (give f) ∧ R (taken j) (paths.out give (give f)) ∧
      rest.Meets R (give j)
  | e, both left right => left.Meets R e ∧ right.Meets R e

/-- Every node hands control on no more often than it took it, and a join does so no
more often than its fork was taken, and only when all paths have arrived. -/
structure Restrained (b : Flow α) : Prop where
  steps : ∀ a ∈ b.steps, give a ≤ taken a
  forks : ∀ p ∈ b.pairs, give p.1 ≤ taken p.1
  joins : ∀ p ∈ b.pairs, give p.2.1 ≤ taken p.1
  full : ∀ p ∈ b.pairs, 0 < give p.2.1 → p.2.2 ≤ taken p.2.1

variable {taken give}

theorem Meets.of_feed [DecidableEq α] {R : Nat → Nat → Prop} {next : α} {e : Nat} {b : Flow α}
    (distinct : b.names.Nodup) (outside : next ∉ b.names) (fed : ∀ y ∈ b.names, R (taken y) (b.feed give y next e)) :
    b.Meets taken give R e := by
  induction b generalizing next e with
  | done => trivial
  | step a rest ih =>
    obtain ⟨fresh, distinct⟩ := List.nodup_cons.mp distinct
    simp only [names, List.mem_cons, not_or] at outside
    constructor
    · simpa [feed_of_not_mem give outside.1 (give a) rest fresh] using fed a (by simp)
    · refine ih distinct outside.2 fun y member => ?_
      have different : a ≠ y := fun same => fresh (same ▸ member)
      simpa [different] using fed y (by simp [member])
  | fork f j paths rest ihPaths ihRest =>
    obtain ⟨freshFork, distinct⟩ := List.nodup_cons.mp distinct
    obtain ⟨freshJoin, distinct⟩ := List.nodup_cons.mp distinct
    obtain ⟨distinctPaths, distinctRest, apart⟩ := List.nodup_append'.mp distinct
    simp only [List.mem_cons, List.mem_append, not_or] at freshFork freshJoin
    simp only [names, List.mem_cons, List.mem_append, not_or] at outside
    obtain ⟨nextFork, nextJoin, nextPaths, nextRest⟩ := outside
    refine ⟨?_, ihPaths distinctPaths freshJoin.1 fun y member => ?_, ?_,
      ihRest distinctRest nextRest fun y member => ?_⟩
    · have inPaths := feed_of_not_mem give (Ne.symm freshFork.1) (give f) paths freshFork.2.1
      have inRest := feed_of_not_mem give nextFork (give j) rest freshFork.2.2
      simpa [inPaths, inRest] using fed f (by simp)
    · have notFork : f ≠ y := fun same => freshFork.2.1 (same ▸ member)
      have other : next ≠ y := fun same => nextPaths (same ▸ member)
      have inRest := feed_of_not_mem give other (give j) rest (apart member)
      simpa [notFork, inRest] using fed y (by simp [member])
    · have inRest := feed_of_not_mem give nextJoin (give j) rest freshJoin.2
      simpa [freshFork.1, feed_next give (give f) paths freshJoin.1, inRest] using fed j (by simp)
    · have notFork : f ≠ y := fun same => freshFork.2.2 (same ▸ member)
      have notJoin : j ≠ y := fun same => freshJoin.2 (same ▸ member)
      have inPaths := feed_of_not_mem give notJoin (give f) paths fun other => apart other member
      simpa [notFork, inPaths] using fed y (by simp [member])
  | both left right ihLeft ihRight =>
    obtain ⟨distinctLeft, distinctRight, apart⟩ := List.nodup_append'.mp distinct
    simp only [names, List.mem_append, not_or] at outside
    constructor
    -- what the left flow hands on is not fed by the right one, and the other way round
    · refine ihLeft distinctLeft outside.1 fun y member => ?_
      have other : next ≠ y := fun same => outside.1 (same ▸ member)
      have absent := feed_of_not_mem give other e right (apart member)
      simpa [absent] using fed y (by simp [member])
    · refine ihRight distinctRight outside.2 fun y member => ?_
      have other : next ≠ y := fun same => outside.2 (same ▸ member)
      have absent := feed_of_not_mem give other e left fun inLeft => apart inLeft member
      simpa [absent] using fed y (by simp [member])

theorem bounded_iff_meets {e : Nat} {b : Flow α} : b.Bounded taken give e ↔ b.Meets taken give (· ≤ ·) e := by
  induction b generalizing e with
  | done => exact Iff.rfl
  | step a rest ih => simp [ih]
  | fork f j paths rest ihPaths ihRest => simp [ihPaths, ihRest]
  | both left right ihLeft ihRight => simp [ihLeft, ihRight]

theorem Bounded.of_feed [DecidableEq α] {next : α} {e : Nat} {b : Flow α} (distinct : b.names.Nodup)
    (outside : next ∉ b.names) (fed : ∀ y ∈ b.names, taken y ≤ b.feed give y next e) :
    b.Bounded taken give e :=
  bounded_iff_meets.mpr (Meets.of_feed distinct outside fed)

theorem Restrained.of_subset {b c : Flow α} (restrained : c.Restrained taken give)
    (steps : b.steps ⊆ c.steps) (pairs : b.pairs ⊆ c.pairs) : b.Restrained taken give where
  steps a member := restrained.steps a (steps member)
  forks p member := restrained.forks p (pairs member)
  joins p member := restrained.joins p (pairs member)
  full p member := restrained.full p (pairs member)

namespace Restrained

variable {a f j : α} {rest paths left right : Flow α}

theorem ofStep (restrained : (step a rest).Restrained taken give) : rest.Restrained taken give :=
  restrained.of_subset (by simp) (by simp)

theorem ofPaths (restrained : (fork f j paths rest).Restrained taken give) : paths.Restrained taken give :=
  restrained.of_subset (by simp) fun p member => by simp [member]

theorem ofRest (restrained : (fork f j paths rest).Restrained taken give) : rest.Restrained taken give :=
  restrained.of_subset (by simp) fun p member => by simp [member]

theorem ofLeft (restrained : (both left right).Restrained taken give) : left.Restrained taken give :=
  restrained.of_subset (by simp) (by simp)

theorem ofRight (restrained : (both left right).Restrained taken give) : right.Restrained taken give :=
  restrained.of_subset (by simp) (by simp)

end Restrained

/-- Control leaves a flow at most once for every time and path it was entered. -/
theorem out_le {e : Nat} {b : Flow α} (proper : b.Proper) (restrained : b.Restrained taken give)
    (bounded : b.Bounded taken give e) : b.out give e ≤ b.width * e := by
  induction b generalizing e with
  | done => simp
  | step a rest ih =>
    have later := ih proper.2 restrained.ofStep bounded.2
    have own := restrained.steps a (by simp)
    rw [proper.1] at later
    simp only [out, width]
    linarith [bounded.1]
  | fork f j paths rest ihPaths ihRest =>
    have later := ihRest proper.2.2 restrained.ofRest bounded.2.2.2
    have own := restrained.joins (f, j, paths.width) (by simp)
    rw [proper.2.1] at later
    simp only [out, width]
    linarith [bounded.1]
  | both left right ihLeft ihRight =>
    have one := ihLeft proper.1 restrained.ofLeft bounded.1
    have other := ihRight proper.2 restrained.ofRight bounded.2
    simp only [out, width]
    linarith

/-- A node that is taken was preceded by an entry into the flow. -/
theorem entered_of_taken {e : Nat} {b : Flow α} {y : α} (proper : b.Proper)
    (restrained : b.Restrained taken give) (bounded : b.Bounded taken give e) (member : y ∈ b.names)
    -- in every constructor what is taken is bounded by what came in at the head of the flow
    (some_time : 0 < taken y) : 0 < e := by
  induction b generalizing e with
  | done => simp at member
  | step a rest ih =>
    rcases List.mem_cons.mp member with rfl | later
    · exact some_time.trans_le bounded.1
    · have given := ih proper.2 restrained.ofStep bounded.2 later
      have own := restrained.steps a (by simp)
      exact given.trans_le (own.trans bounded.1)
  | fork f j paths rest ihPaths ihRest =>
    have own := restrained.forks (f, j, paths.width) (by simp)
    have atJoin := restrained.joins (f, j, paths.width) (by simp)
    simp only [names, List.mem_cons, List.mem_append] at member
    rcases member with rfl | rfl | inner | later
    · exact some_time.trans_le bounded.1
    -- something arrived at the join, so the fork has handed on
    · have through := out_le proper.1 restrained.ofPaths bounded.2.1
      have given : 0 < give f := by
        by_contra none_
        rw [Nat.eq_zero_of_not_pos none_] at through
        have stuck := bounded.2.2.1
        rw [Nat.eq_zero_of_not_pos none_] at stuck
        omega
      exact given.trans_le (own.trans bounded.1)
    · exact (ihPaths proper.1 restrained.ofPaths bounded.2.1 inner).trans_le (own.trans bounded.1)
    · exact (ihRest proper.2.2 restrained.ofRest bounded.2.2.2 later).trans_le (atJoin.trans bounded.1)
  | both left right ihLeft ihRight =>
    rcases List.mem_append.mp member with one | other
    · exact ihLeft proper.1 restrained.ofLeft bounded.1 one
    · exact ihRight proper.2 restrained.ofRight bounded.2 other

/-- A flow entered at most once takes each step and each fork at most once. -/
theorem taken_le_one {e : Nat} {b : Flow α} (proper : b.Proper) (restrained : b.Restrained taken give)
    (bounded : b.Bounded taken give e) (once : e ≤ 1) :
    (∀ a ∈ b.steps, taken a ≤ 1) ∧ ∀ p ∈ b.pairs, taken p.1 ≤ 1 ∧ taken p.2.1 ≤ p.2.2 * give p.1 := by
  induction b generalizing e with
  | done => simp
  | step a rest ih =>
    -- a step hands on at most what it took, so at most once
    have own : taken a ≤ 1 := bounded.1.trans once
    have later := ih proper.2 restrained.ofStep bounded.2 ((restrained.steps a (by simp)).trans own)
    exact ⟨by simpa using ⟨own, later.1⟩, later.2⟩
  | fork f j paths rest ihPaths ihRest =>
    have own : taken f ≤ 1 := bounded.1.trans once
    -- what comes out of the paths is at most their width for each time the fork was taken
    have through := out_le proper.1 restrained.ofPaths bounded.2.1
    have inner := ihPaths proper.1 restrained.ofPaths bounded.2.1
      ((restrained.forks (f, j, paths.width) (by simp)).trans own)
    have later := ihRest proper.2.2 restrained.ofRest bounded.2.2.2
      ((restrained.joins (f, j, paths.width) (by simp)).trans own)
    constructor
    · intro a member
      rcases List.mem_append.mp member with one | other
      · exact inner.1 a one
      · exact later.1 a other
    · intro p member
      rcases List.mem_cons.mp member with rfl | member
      · exact ⟨own, bounded.2.2.1.trans through⟩
      rcases List.mem_append.mp member with one | other
      · exact inner.2 p one
      · exact later.2 p other
  | both left right ihLeft ihRight =>
    have one := ihLeft proper.1 restrained.ofLeft bounded.1 once
    have other := ihRight proper.2 restrained.ofRight bounded.2 once
    constructor
    · exact fun a member => (List.mem_append.mp member).elim (one.1 a) (other.1 a)
    · exact fun p member => (List.mem_append.mp member).elim (one.2 p) (other.2 p)

/-- Once control has left on every path, every node has handed it on. -/
theorem give_of_out {e : Nat} {b : Flow α} (proper : b.Proper) (restrained : b.Restrained taken give)
    (bounded : b.Bounded taken give e) (once : e ≤ 1) (all : b.width ≤ b.out give e) :
    ∀ x ∈ b.names, 0 < give x := by
  induction b generalizing e with
  | done => simp
  | step a rest ih =>
    have own : give a ≤ 1 := (restrained.steps a (by simp)).trans (bounded.1.trans once)
    -- the rest of a step is one flow wide, so what comes out of it came through the step
    have through := out_le proper.2 restrained.ofStep bounded.2
    have later := ih proper.2 restrained.ofStep bounded.2 own (by rw [proper.1]; exact all)
    have given : 0 < give a := by
      rw [proper.1, Nat.one_mul] at through
      exact lt_of_lt_of_le Nat.one_pos (all.trans through)
    simpa using ⟨given, later⟩
  | fork f j paths rest ihPaths ihRest =>
    have taken_fork : taken f ≤ 1 := bounded.1.trans once
    have giveFork := (restrained.forks (f, j, paths.width) (by simp)).trans taken_fork
    have giveJoin := (restrained.joins (f, j, paths.width) (by simp)).trans taken_fork
    -- from the end backwards: the join was released, so all paths arrived, so the fork opened
    have throughRest := out_le proper.2.2 restrained.ofRest bounded.2.2.2
    have throughPaths := out_le proper.1 restrained.ofPaths bounded.2.1
    have later := ihRest proper.2.2 restrained.ofRest bounded.2.2.2 giveJoin (by rw [proper.2.1]; exact all)
    have released : 0 < give j := by
      rw [proper.2.1, Nat.one_mul] at throughRest
      exact lt_of_lt_of_le Nat.one_pos (all.trans throughRest)
    have arrived : paths.width ≤ paths.out give (give f) :=
      (restrained.full (f, j, paths.width) (by simp) released).trans bounded.2.2.1
    have inner := ihPaths proper.1 restrained.ofPaths bounded.2.1 giveFork arrived
    have given : 0 < give f := by
      by_contra none_
      rw [Nat.eq_zero_of_not_pos none_, Nat.mul_zero] at throughPaths
      have some_path := width_pos paths
      rw [Nat.eq_zero_of_not_pos none_] at arrived
      omega
    intro x member
    simp only [names, List.mem_cons, List.mem_append] at member
    rcases member with rfl | rfl | member | member
    · exact given
    · exact released
    · exact inner x member
    · exact later x member
  -- both halves come out in full, since neither can come out in more than its width
  | both left right ihLeft ihRight =>
    have one := out_le proper.1 restrained.ofLeft bounded.1
    have other := out_le proper.2 restrained.ofRight bounded.2
    have some_left := width_pos left
    have some_right := width_pos right
    simp only [width, out] at all
    have left_le : left.out give e ≤ left.width := one.trans (by simpa using Nat.mul_le_mul_left left.width once)
    have right_le : right.out give e ≤ right.width := other.trans (by simpa using Nat.mul_le_mul_left right.width once)
    intro x member
    rcases List.mem_append.mp member with inLeft | inRight
    · exact ihLeft proper.1 restrained.ofLeft bounded.1 once (by omega) x inLeft
    · exact ihRight proper.2 restrained.ofRight bounded.2 once (by omega) x inRight

/-- A step is taken only after all steps before it have handed control on. -/
theorem give_of_before {e : Nat} {b : Flow α} {x y : α} (proper : b.Proper)
    (restrained : b.Restrained taken give) (bounded : b.Bounded taken give e) (once : e ≤ 1)
    (before : b.Before x y) (some_time : 0 < taken y) : 0 < give x := by
  induction b generalizing e with
  | done => exact before.elim
  | step a rest ih =>
    have own : give a ≤ 1 := (restrained.steps a (by simp)).trans (bounded.1.trans once)
    -- what comes later was entered, so the step before it has handed on
    rcases before with ⟨rfl, later⟩ | before
    · exact entered_of_taken proper.2 restrained.ofStep bounded.2 (steps_subset rest later) some_time
    · exact ih proper.2 restrained.ofStep bounded.2 own before
  | fork f j paths rest ihPaths ihRest =>
    have taken_fork : taken f ≤ 1 := bounded.1.trans once
    have giveFork := (restrained.forks (f, j, paths.width) (by simp)).trans taken_fork
    have giveJoin := (restrained.joins (f, j, paths.width) (by simp)).trans taken_fork
    rcases before with ⟨inner, later⟩ | before | before
    -- something after the join was entered, so the join was released, so all of the paths are done
    · have released := entered_of_taken proper.2.2 restrained.ofRest bounded.2.2.2
        (steps_subset rest later) some_time
      have arrived := (restrained.full (f, j, paths.width) (by simp) released).trans bounded.2.2.1
      exact give_of_out proper.1 restrained.ofPaths bounded.2.1 giveFork arrived x (steps_subset paths inner)
    · exact ihPaths proper.1 restrained.ofPaths bounded.2.1 giveFork before
    · exact ihRest proper.2.2 restrained.ofRest bounded.2.2.2 giveJoin before
  | both left right ihLeft ihRight =>
    rcases before with before | before
    · exact ihLeft proper.1 restrained.ofLeft bounded.1 once before
    · exact ihRight proper.2 restrained.ofRight bounded.2 once before

/-- If a flow is entered once, all control handed on is taken, and every step, fork and
full join hands it on, then it leaves on every path. -/
theorem out_of_exact {b : Flow α} (proper : b.Proper) (exact_ : b.Meets taken give Eq 1)
    (steps : ∀ a ∈ b.steps, give a = taken a) (forks : ∀ p ∈ b.pairs, give p.1 = taken p.1)
    (joins : ∀ p ∈ b.pairs, taken p.2.1 = p.2.2 → give p.2.1 = 1) : b.out give 1 = b.width := by
  induction b with
  | done => rfl
  | step a rest ih =>
    -- each step taken is handed on, so what came in at the head comes out at the end
    have once : give a = 1 := (steps a (by simp)).trans exact_.1
    have later := exact_.2
    rw [once] at later
    have through := ih proper.2 later (fun x member => steps x (by simp [member])) forks joins
    simp only [out, width, once, through, proper.1]
  | fork f j paths rest ihPaths ihRest =>
    obtain ⟨taken_fork, inner, arrived, later⟩ := exact_
    have opened : give f = 1 := (forks (f, j, paths.width) (by simp)).trans taken_fork
    rw [opened] at inner arrived
    have through := ihPaths proper.1 inner (fun x member => steps x (by simp [member]))
      (fun p member => forks p (by simp [member])) fun p member => joins p (by simp [member])
    -- all paths have arrived, which is when the join is released
    have released : give j = 1 := joins (f, j, paths.width) (by simp) (arrived.trans through)
    rw [released] at later
    have onward := ihRest proper.2.2 later (fun x member => steps x (by simp [member]))
      (fun p member => forks p (by simp [member])) fun p member => joins p (by simp [member])
    simp only [out, width, released, onward, proper.2.1]
  | both left right ihLeft ihRight =>
    have one := ihLeft proper.1 exact_.1 (fun x member => steps x (by simp [member]))
      (fun p member => forks p (by simp [member])) fun p member => joins p (by simp [member])
    have other := ihRight proper.2 exact_.2 (fun x member => steps x (by simp [member]))
      (fun p member => forks p (by simp [member])) fun p member => joins p (by simp [member])
    simp only [out, width, one, other]

end Bounds

end Flow

end ForkJoin
