import Hella.Control.Nested

/-!
# The counter of a fork/join pair

In a properly nested plan with distinct keys, the variable of an active pair is the
number of paths that the join has not counted yet, and the join lets control through
once, when it has counted the last one. From that, every node of the plan is entered at most as often as
its place in the plan allows.
-/
namespace Hella

open Exec Text ForkJoin

/-- The counter of a pair against the counts of the history. A fork that is taken
again while its counter runs starts it anew, hence the inequalities. -/
inductive PairState (f j : String) (n : Nat) (trace : List Act) : Prop where
  | idle (value : (varsOf trace).lookup (pairVar f j) = none) (fewer : released j trace ≤ forked f trace)
      (full : n * released j trace ≤ arrivals j trace)
      (once : forked f trace ≤ 1 → released j trace = forked f trace ∧ arrivals j trace = n * released j trace)
  | active (left : Nat) (value : (varsOf trace).lookup (pairVar f j) = some (toString left)) (positive : 0 < left)
      (within : left ≤ n) (fewer : released j trace < forked f trace)
      (full : n * released j trace + (n - left) ≤ arrivals j trace)
      (once : forked f trace ≤ 1 → released j trace = 0 ∧ arrivals j trace + left = n)

section Pairs

variable {wf : Workflow} {plan : Nested wf} {results : String → JobPlanNodeState → Prop} {trace : List Act}
variable {p q : String × String × Nat}

theorem Nested.DistinctKeys.same (keys : plan.DistinctKeys) (memberP : p ∈ plan.body.pairs)
    (memberQ : q ∈ plan.body.pairs) (same : pairVar p.1 p.2.1 = pairVar q.1 q.2.1) : p = q :=
  List.inj_on_of_nodup_map keys memberP memberQ same

theorem Nested.DistinctKeys.same_fork (keys : plan.DistinctKeys) (memberP : p ∈ plan.body.pairs)
    (memberQ : q ∈ plan.body.pairs) (same : p.1 = q.1) : p = q := by
  obtain ⟨⟨node, found, _, joins⟩, _⟩ := plan.realizes.pair memberP
  obtain ⟨⟨other, otherFound, _, otherJoins⟩, _⟩ := plan.realizes.pair memberQ
  rw [same, otherFound] at found
  obtain rfl := Option.some.inj found
  exact keys.same memberP memberQ (by rw [same, Option.some.inj (joins.symm.trans otherJoins)])

theorem Nested.DistinctKeys.same_join (keys : plan.DistinctKeys) (memberP : p ∈ plan.body.pairs)
    (memberQ : q ∈ plan.body.pairs) (same : p.2.1 = q.2.1) : p = q := by
  obtain ⟨_, node, found, _, forks⟩ := plan.realizes.pair memberP
  obtain ⟨_, other, otherFound, _, otherForks⟩ := plan.realizes.pair memberQ
  rw [same, otherFound] at found
  obtain rfl := Option.some.inj found
  exact keys.same memberP memberQ (by rw [same, Option.some.inj (forks.symm.trans otherForks)])

theorem Nested.forked_pair (plan : Nested wf) {f j : String} {n : Nat}
    (legal : Legal wf results trace (.forked f j n)) : (f, j, n) ∈ plan.body.pairs := by
  obtain ⟨node, toNode, found, type, to_, rfl, rfl, _⟩ := legal
  cases plan.role (plan.mem_body found (by simp [type])) with
  | fork same _ member paths joins length =>
    obtain rfl := Option.some.inj (found.symm.trans same)
    have some_path : plan.body.successors f plan.end_ ≠ [] := by
      have positive := (Flow.pairs_subset member).2.2
      simp only [← length] at positive
      exact List.ne_nil_of_length_pos positive
    rw [plan.split_targets (to_.symm.trans paths) some_path, length, joins]
    exact member
  | action same otherType =>
    obtain rfl := Option.some.inj (found.symm.trans same)
    simp [type] at otherType
  | join same otherType =>
    obtain rfl := Option.some.inj (found.symm.trans same)
    simp [type] at otherType

theorem Nested.join_pair (plan : Nested wf) {j : String} {node : JobPlanNode} (found : wf.getNode j = some node)
    (type : node.type = .join) : ∃ n, (orNull node.forkName, j, n) ∈ plan.body.pairs := by
  cases plan.role (plan.mem_body found (by simp [type])) with
  | join same _ member _ forks =>
    obtain rfl := Option.some.inj (found.symm.trans same)
    exact ⟨_, by rw [forks]; exact member⟩
  | action same otherType =>
    obtain rfl := Option.some.inj (found.symm.trans same)
    simp [type] at otherType
  | fork same otherType =>
    obtain rfl := Option.some.inj (found.symm.trans same)
    simp [type] at otherType

/-- An entry that is not about the pair leaves its state alone. -/
theorem PairState.other {f j : String} {n : Nat} {act : Act} (state : PairState f j n trace)
    (forks : act.forks f = 0) (arrives : act.arrives j = 0) (releases : act.releases j = 0)
    (value : (act.write (varsOf trace)).lookup (pairVar f j) = (varsOf trace).lookup (pairVar f j)) :
    PairState f j n (trace ++ [act]) := by
  cases state with
  | idle absent fewer full once =>
    refine .idle ?_ ?_ ?_ ?_ <;>
      simpa only [varsOf_append, value, forked_append, released_append, arrivals_append, forks, arrives, releases,
        Nat.add_zero]
  | active left present positive within fewer full once =>
    refine .active left ?_ positive within ?_ ?_ ?_ <;>
      simpa only [varsOf_append, value, forked_append, released_append, arrivals_append, forks, arrives, releases,
        Nat.add_zero]

theorem PairState.forked_again {f j : String} {n : Nat} (state : PairState f j n trace) (some_path : 0 < n) :
    PairState f j n (trace ++ [.forked f j n]) := by
  refine .active n (by simp [Act.write]) some_path le_rfl ?_ ?_ ?_
  · cases state <;> simp <;> omega
  · cases state <;> simp <;> omega
  · intro once
    simp only [forked_append, Act.forks, tick_true] at once
    cases state with
    | idle _ fewer _ exactly =>
      obtain ⟨same, count⟩ := exactly (by omega)
      have none_ : released j trace = 0 := by omega
      simp [count, none_]
    | active _ _ _ _ fewer => omega

theorem counter_eq {f j : String} {before number : Nat}
    (value : (varsOf trace).lookup (pairVar f j) = some (toString before))
    (counted : counter trace f j = some (number : Int)) : before = number := by
  rw [counter, value, Option.bind_some, parseInt_toString] at counted
  exact Int.ofNat.inj (Option.some.inj counted)

theorem PairState.arrived {f j : String} {n left : Nat} (state : PairState f j n trace) (positive : 0 < left)
    (counted : counter trace f j = some ((left + 1 : Nat) : Int)) :
    PairState f j n (trace ++ [.arrived f j left]) := by
  cases state with
  | idle absent => simp [counter, absent] at counted
  | active before value _ within fewer full once =>
    have same := counter_eq value counted
    refine .active left (by simp [Act.write]) positive (by omega) ?_ ?_ fun exactly => ?_
    · simpa using fewer
    · simp
      omega
    · have earlier := once (by simpa using exactly)
      simp
      omega

theorem PairState.released {f j : String} {n : Nat} (state : PairState f j n trace)
    (counted : counter trace f j = some 1) : PairState f j n (trace ++ [.released f j]) := by
  cases state with
  | idle absent => simp [counter, absent] at counted
  | active before value _ within fewer full once =>
    have same : before = 1 := counter_eq value counted
    refine .idle (by simp [Act.write]) ?_ ?_ fun exactly => ?_
    · simp
      omega
    · simp [Nat.mul_succ]
      omega
    · have exactly : forked f trace ≤ 1 := by simpa using exactly
      obtain ⟨none_, count⟩ := once exactly
      simp [none_]
      omega

theorem PairState.step {act : Act} (keys : plan.DistinctKeys) (member : p ∈ plan.body.pairs)
    (legal : Legal wf results trace act) (state : PairState p.1 p.2.1 p.2.2 trace) :
    PairState p.1 p.2.1 p.2.2 (trace ++ [act]) := by
  -- different pairs have different variables, so a pair is moved by its own acts only
  have apart (q : String × String × Nat) (memberQ : q ∈ plan.body.pairs) (different : q ≠ p) :
      pairVar p.1 p.2.1 ≠ pairVar q.1 q.2.1 := fun same => different (keys.same member memberQ same).symm
  cases act with
  | forked f j n =>
    have memberQ := plan.forked_pair legal
    -- a fork sets its counter, a join lowers it, a release clears it
    by_cases same : f = p.1
    · obtain rfl := keys.same_fork memberQ member same
      exact state.forked_again (Flow.pairs_subset member).2.2
    · have different := apart _ memberQ fun equal => same (by rw [← equal])
      exact state.other (by simp [same]) rfl rfl (AList.lookup_insert_ne different)
  | arrived f j left =>
    obtain ⟨node, found, type, rfl, positive, counted, _⟩ := legal
    obtain ⟨n, memberQ⟩ := plan.join_pair found type
    by_cases same : j = p.2.1
    · obtain rfl := keys.same_join memberQ member same
      exact state.arrived positive counted
    · have different := apart _ memberQ fun equal => same (by rw [← equal])
      exact state.other rfl (by simp [same]) rfl (AList.lookup_insert_ne different)
  | released f j =>
    obtain ⟨node, found, type, rfl, counted, _⟩ := legal
    obtain ⟨n, memberQ⟩ := plan.join_pair found type
    by_cases same : j = p.2.1
    · obtain rfl := keys.same_join memberQ member same
      exact state.released counted
    · have different := apart _ memberQ fun equal => same (by rw [← equal])
      exact state.other rfl (by simp [same]) (by simp [same]) (AList.lookup_erase_ne different)
  | _ => exact state.other rfl rfl rfl rfl

theorem Lawful.pairState (lawful : Lawful wf results trace) (keys : plan.DistinctKeys)
    (member : p ∈ plan.body.pairs) : PairState p.1 p.2.1 p.2.2 trace := by
  induction lawful with
  | nil =>
    refine .idle rfl ?_ ?_ fun _ => ?_ <;> simp [Hella.released, Hella.forked, arrivals]
  | snoc _ legal ih => exact ih.step keys member legal

/-- No node of the flow hands control on more often than it may. -/
theorem Nested.restrained (plan : Nested wf) (keys : plan.DistinctKeys) (lawful : Lawful wf results trace) :
    plan.body.Restrained (entered · trace) (given plan.fail trace) where
  steps a member := by
    obtain ⟨node, found, type, _⟩ := plan.realizes.step member
    have left : passed a trace ≤ completed a trace := by simpa [type, mayLeave] using lawful.passed_le found
    exact (given_le ..).trans (left.trans (lawful.completed_le a))
  forks p member := by
    obtain ⟨⟨node, found, type, _⟩, _⟩ := plan.realizes.pair member
    have left : passed p.1 trace ≤ forked p.1 trace := by simpa [type, mayLeave] using lawful.passed_le found
    exact (given_le ..).trans (left.trans (lawful.forked_le _))
  joins p member := by
    obtain ⟨_, node, found, type, _⟩ := plan.realizes.pair member
    have left : passed p.2.1 trace ≤ released p.2.1 trace := by simpa [type, mayLeave] using lawful.passed_le found
    have fewer : released p.2.1 trace ≤ forked p.1 trace := by
      cases lawful.pairState keys member <;> omega
    exact (given_le ..).trans (left.trans (fewer.trans (lawful.forked_le _)))
  full p member some_time := by
    obtain ⟨_, node, found, type, _⟩ := plan.realizes.pair member
    have left : passed p.2.1 trace ≤ released p.2.1 trace := by simpa [type, mayLeave] using lawful.passed_le found
    have freed : 0 < released p.2.1 trace := some_time.trans_le ((given_le ..).trans left)
    have all : p.2.2 * released p.2.1 trace ≤ arrivals p.2.1 trace := by
      cases lawful.pairState keys member <;> omega
    exact (Nat.le_mul_of_pos_right _ freed).trans (all.trans (lawful.arrivals_le _))

theorem Nested.taken_le (plan : Nested wf) (keys : plan.DistinctKeys) (lawful : Lawful wf results trace) :
    (∀ a ∈ plan.body.steps, entered a trace ≤ 1) ∧
      ∀ p ∈ plan.body.pairs, entered p.1 trace ≤ 1 ∧ entered p.2.1 trace ≤ p.2.2 * given plan.fail trace p.1 :=
  Flow.taken_le_one plan.proper (plan.restrained keys lawful) (plan.bounded lawful) (plan.given_start_le lawful)

end Pairs

/-! ### Each pair once -/

/-- A fork/join pair with `n` paths after a history, by what its join has counted. -/
structure Counted (f j : String) (n : Nat) (trace : List Act) : Prop where
  /-- the fork is taken at most once, and no path is counted before -/
  once : forked f trace ≤ 1
  none_early : forked f trace = 0 → arrivals j trace = 0
  /-- while the pair is active, its variable is the number of paths still to be counted -/
  counts : forked f trace = 1 → arrivals j trace < n →
    (varsOf trace).lookup (pairVar f j) = some (toString (n - arrivals j trace))
  /-- the join lets control through with the last path and not before -/
  opens : released j trace = if arrivals j trace = n then 1 else 0
  through : passed j trace ≤ released j trace
  no_more : arrivals j trace ≤ n
  /-- after that the variable is gone -/
  gone : arrivals j trace = n → (varsOf trace).lookup (pairVar f j) = none

theorem Nested.counted_of_lawful {wf : Workflow} (plan : Nested wf) (keys : plan.DistinctKeys)
    {results : String → JobPlanNodeState → Prop} {trace : List Act} (lawful : Lawful wf results trace)
    {p : String × String × Nat} (member : p ∈ plan.body.pairs) : Counted p.1 p.2.1 p.2.2 trace := by
  have once : forked p.1 trace ≤ 1 := (lawful.forked_le _).trans ((plan.taken_le keys lawful).2 p member).1
  have some_path := (Flow.pairs_subset member).2.2
  obtain ⟨_, node, found, type, _⟩ := plan.realizes.pair member
  have through : passed p.2.1 trace ≤ released p.2.1 trace := by simpa [type, mayLeave] using lawful.passed_le found
  cases lawful.pairState keys member with
  | idle value fewer full exactly =>
    obtain ⟨same, count⟩ := exactly once
    rcases Nat.le_one_iff_eq_zero_or_eq_one.mp once with zero | one
    · have none_ : released p.2.1 trace = 0 := by omega
      rw [none_, Nat.mul_zero] at count
      refine ⟨once, fun _ => count, fun taken => by omega, ?_, through, by omega, fun _ => value⟩
      rw [none_, if_neg (by omega)]
    · rw [same, one, Nat.mul_one] at count
      refine ⟨once, fun zero => by omega, fun _ fewer => by omega, ?_, through, by omega, fun _ => value⟩
      rw [same, one, if_pos count]
  | active left value positive within fewer full exactly =>
    obtain ⟨none_, count⟩ := exactly once
    refine ⟨once, fun zero => by omega, fun _ _ => ?_, ?_, through, by omega, fun all => by omega⟩
    · rw [value, show p.2.2 - arrivals p.2.1 trace = left by omega]
    · rw [none_, if_neg (by omega)]

end Hella
