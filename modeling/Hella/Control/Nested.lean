import Hella.Control.History

/-!
# Properly nested plans

A plan whose edges are those of a `Flow`: start, then actions and forks that end in
their own join, then end, with every error edge to the fail node. Lawful histories
of such a plan are bounded flows, so the counting results on flows apply to them.
-/
namespace Hella

open Text ForkJoin

/-- The nodes of the plan are wired as the flow is, `next` being what comes after it. -/
@[simp] def Realizes (wf : Workflow) (fail : String) : String → Flow String → Prop
  | _, .done => True
  | next, .step a rest =>
    (∃ node, wf.getNode a = some node ∧ node.type = .action ∧ [node.okNode] = (rest.entries next).map some ∧
      node.errorNode = some fail) ∧ Realizes wf fail next rest
  | next, .fork f j paths rest =>
    (∃ node, wf.getNode f = some node ∧ node.type = .fork ∧
      node.toNode = some (",".intercalate (paths.entries j)) ∧ node.joinName = some j) ∧
    (∃ node, wf.getNode j = some node ∧ node.type = .join ∧ [node.toNode] = (rest.entries next).map some ∧
      node.forkName = some f) ∧ Realizes wf fail j paths ∧ Realizes wf fail next rest
  | next, .both left right => Realizes wf fail next left ∧ Realizes wf fail next right

/-- A properly nested plan. -/
structure Nested (wf : Workflow) where
  start : String
  end_ : String
  fail : String
  body : Flow String
  startFound : wf.workflowManager.getStartNodeName = some start
  starts : ∃ node, wf.getNode start = some node ∧ node.type = .start ∧ [node.toNode] = (body.entries end_).map some
  ends : ∃ node, wf.getNode end_ = some node ∧ node.type = .end_
  fails : ∃ node, wf.getNode fail = some node ∧ node.type = .fail
  realizes : Realizes wf fail end_ body
  distinct : (start :: end_ :: fail :: body.names).Nodup
  complete : ∀ name, (wf.getNode name).isSome = true → name ∈ start :: end_ :: fail :: body.names
  nonempty : ∀ name ∈ start :: end_ :: fail :: body.names, name ≠ ""
  plain : ∀ name ∈ start :: end_ :: fail :: body.names, ',' ∉ name.toList

/-- The variables of the pairs are pairwise distinct. -/
def Nested.DistinctKeys {wf : Workflow} (plan : Nested wf) : Prop :=
  (plan.body.pairs.map fun p => pairVar p.1 p.2.1).Nodup

/-! ### Reading the plan off the flow -/

/-- What a node of the flow is and leads to. -/
inductive Role (wf : Workflow) (fail : String) (b : Flow String) (x : String) (targets : List String) : Prop where
  | action {node : JobPlanNode} (found : wf.getNode x = some node) (type : node.type = .action)
      (member : x ∈ b.steps) (ok : [node.okNode] = targets.map some) (error : node.errorNode = some fail)
  | fork {node : JobPlanNode} {j : String} {n : Nat} (found : wf.getNode x = some node) (type : node.type = .fork)
      (member : (x, j, n) ∈ b.pairs) (paths : node.toNode = some (",".intercalate targets))
      (joins : node.joinName = some j) (length : targets.length = n)
  | join {node : JobPlanNode} {f : String} {n : Nat} (found : wf.getNode x = some node) (type : node.type = .join)
      (member : (f, x, n) ∈ b.pairs) (leads : [node.toNode] = targets.map some) (forks : node.forkName = some f)

section Realizes

variable {wf : Workflow} {fail next : String} {b c : Flow String} {x : String} {targets : List String}

theorem Role.mono (role : Role wf fail b x targets) (steps : b.steps ⊆ c.steps) (pairs : b.pairs ⊆ c.pairs) :
    Role wf fail c x targets := by
  cases role with
  | action found type member ok error => exact .action found type (steps member) ok error
  | fork found type member paths joins length => exact .fork found type (pairs member) paths joins length
  | join found type member leads forks => exact .join found type (pairs member) leads forks

theorem width_of_single {target : Option String} (leads : [target] = (b.entries next).map some) : b.width = 1 := by
  rw [← Flow.length_entries next]
  simpa using (congrArg List.length leads).symm

theorem Realizes.proper (realizes : Realizes wf fail next b) : b.Proper := by
  induction b generalizing next with
  | done => trivial
  | step a rest ih =>
    obtain ⟨⟨node, _, _, ok, _⟩, later⟩ := realizes
    exact ⟨width_of_single ok, ih later⟩
  | fork f j paths rest ihPaths ihRest =>
    obtain ⟨_, ⟨node, _, _, leads, _⟩, inner, later⟩ := realizes
    exact ⟨ihPaths inner, width_of_single leads, ihRest later⟩
  | both left right ihLeft ihRight => exact ⟨ihLeft realizes.1, ihRight realizes.2⟩

theorem Realizes.role (realizes : Realizes wf fail next b) (distinct : b.names.Nodup) (member : x ∈ b.names) :
    Role wf fail b x (b.successors x next) := by
  -- no name occurs twice, so the role of a node is settled where its name stands
  induction b generalizing next with
  | done => simp at member
  | step a rest ih =>
    obtain ⟨⟨node, found, type, ok, error⟩, later⟩ := realizes
    obtain ⟨fresh, distinct⟩ := List.nodup_cons.mp distinct
    rcases List.mem_cons.mp member with rfl | member
    · refine .action found type (by simp) ?_ error
      simpa [Flow.successors_of_not_mem next rest fresh] using ok
    · have different : x ≠ a := fun same => fresh (same ▸ member)
      simpa [different] using (ih later distinct member).mono (c := .step a rest) (by simp) (by simp)
  | fork f j paths rest ihPaths ihRest =>
    obtain ⟨⟨forkNode, forkFound, forkType, listed, joins⟩,
      ⟨joinNode, joinFound, joinType, leads, forks⟩, inner, later⟩ :=
      realizes
    have parts := (List.nodup_cons.mp (List.nodup_cons.mp distinct).2).2
    obtain ⟨distinctPaths, distinctRest, -⟩ := List.nodup_append'.mp parts
    simp only [Flow.names, List.mem_cons, List.mem_append] at member
    rcases member with rfl | rfl | member | member
    · rw [Flow.successors_fork next distinct]
      exact .fork forkFound forkType (by simp) listed joins (Flow.length_entries j paths)
    · rw [Flow.successors_join next distinct]
      exact .join joinFound joinType (by simp; exact .inl rfl) leads forks
    · rw [Flow.successors_paths next distinct member]
      exact (ihPaths inner distinctPaths member).mono (by simp) fun p inside => by simp [inside]
    · rw [Flow.successors_rest next distinct member]
      exact (ihRest later distinctRest member).mono (by simp) fun p inside => by simp [inside]
  | both left right ihLeft ihRight =>
    obtain ⟨distinctLeft, distinctRight, apart⟩ := List.nodup_append'.mp distinct
    rcases List.mem_append.mp member with member | member
    · have direct : (Flow.both left right).successors x next = left.successors x next := by
        simp [Flow.successors_of_not_mem next right (apart member)]
      rw [direct]
      exact (ihLeft realizes.1 distinctLeft member).mono (by simp) (by simp)
    · have direct : (Flow.both left right).successors x next = right.successors x next := by
        simp [Flow.successors_of_not_mem next left fun inside => apart inside member]
      rw [direct]
      exact (ihRight realizes.2 distinctRight member).mono (by simp) (by simp)

/-- The nodes of a pair name each other. -/
theorem Realizes.pair {p : String × String × Nat} (realizes : Realizes wf fail next b) (member : p ∈ b.pairs) :
    (∃ node, wf.getNode p.1 = some node ∧ node.type = .fork ∧ node.joinName = some p.2.1) ∧
      ∃ node, wf.getNode p.2.1 = some node ∧ node.type = .join ∧ node.forkName = some p.1 := by
  induction b generalizing next with
  | done => simp at member
  | step a rest ih => exact ih realizes.2 member
  | fork f j paths rest ihPaths ihRest =>
    obtain ⟨⟨forkNode, forkFound, forkType, _, joins⟩, ⟨joinNode, joinFound, joinType, _, forks⟩, inner, later⟩ :=
      realizes
    rcases List.mem_cons.mp member with rfl | member
    · exact ⟨⟨forkNode, forkFound, forkType, joins⟩, joinNode, joinFound, joinType, forks⟩
    rcases List.mem_append.mp member with member | member
    · exact ihPaths inner member
    · exact ihRest later member
  | both left right ihLeft ihRight =>
    rcases List.mem_append.mp member with member | member
    · exact ihLeft realizes.1 member
    · exact ihRight realizes.2 member

theorem Realizes.step (realizes : Realizes wf fail next b) (member : x ∈ b.steps) :
    ∃ node, wf.getNode x = some node ∧ node.type = .action ∧ node.errorNode = some fail := by
  induction b generalizing next with
  | done => simp at member
  | step a rest ih =>
    obtain ⟨⟨node, found, type, _, error⟩, later⟩ := realizes
    rcases List.mem_cons.mp member with rfl | member
    · exact ⟨node, found, type, error⟩
    · exact ih later member
  | fork f j paths rest ihPaths ihRest =>
    rcases List.mem_append.mp member with member | member
    · exact ihPaths realizes.2.2.1 member
    · exact ihRest realizes.2.2.2 member
  | both left right ihLeft ihRight =>
    rcases List.mem_append.mp member with member | member
    · exact ihLeft realizes.1 member
    · exact ihRight realizes.2 member

end Realizes

/-! ### Lawful histories as flows -/

/-- How often control went on from a node, other than to the fail node or nowhere. -/
@[simp] def Act.hands (fail y : String) : Act → Nat
  | .passed name _ targets => tick (name = y ∧ targets ≠ [none] ∧ targets ≠ [some fail])
  | _ => 0

def given (fail : String) (trace : List Act) (y : String) : Nat := total (Act.hands fail y) trace

theorem given_append (fail : String) (trace : List Act) (act : Act) :
    given fail (trace ++ [act]) = fun y => given fail trace y + act.hands fail y := by
  funext y
  simp [given]

theorem given_le (fail : String) (trace : List Act) (y : String) : given fail trace y ≤ passed y trace := by
  induction trace using List.reverseRecOn with
  | nil => simp [given]
  | append_singleton trace act ih =>
    rw [given_append, passed_append]
    cases act with
    | passed name id targets =>
      by_cases same : name = y
      · simp only [Act.hands, Act.passes, tick_true same]
        unfold tick
        split <;> omega
      · simpa [same] using ih
    | _ => simpa using ih

namespace Nested

variable {wf : Workflow} (plan : Nested wf) {results : String → JobPlanNodeState → Prop} {trace : List Act}

def names : List String := plan.start :: plan.end_ :: plan.fail :: plan.body.names

theorem bodyDistinct : plan.body.names.Nodup := by
  have distinct := plan.distinct
  simp only [List.nodup_cons] at distinct
  exact distinct.2.2.2

theorem start_fresh : plan.start ≠ plan.end_ ∧ plan.start ≠ plan.fail ∧ plan.start ∉ plan.body.names := by
  have distinct := plan.distinct
  simp only [List.nodup_cons, List.mem_cons, not_or] at distinct
  exact distinct.1

theorem end_fresh : plan.end_ ≠ plan.fail ∧ plan.end_ ∉ plan.body.names := by
  have distinct := plan.distinct
  simp only [List.nodup_cons, List.mem_cons, not_or] at distinct
  exact distinct.2.1

theorem fail_fresh : plan.fail ∉ plan.body.names := by
  have distinct := plan.distinct
  simp only [List.nodup_cons] at distinct
  exact distinct.2.2.1

theorem proper : plan.body.Proper := plan.realizes.proper

theorem role {x : String} (member : x ∈ plan.body.names) :
    Role wf plan.fail plan.body x (plan.body.successors x plan.end_) :=
  plan.realizes.role plan.bodyDistinct member

/-- A node of the plan that is not the start, end or fail node belongs to the flow. -/
theorem mem_body {x : String} {node : JobPlanNode} (found : wf.getNode x = some node)
    (inner : node.type = .action ∨ node.type = .fork ∨ node.type = .join) : x ∈ plan.body.names := by
  have listed := plan.complete x (by simp [found])
  simp only [List.mem_cons] at listed
  rcases listed with rfl | rfl | rfl | member
  · obtain ⟨other, same, type, _⟩ := plan.starts
    obtain rfl := Option.some.inj (found.symm.trans same)
    simp [type] at inner
  · obtain ⟨other, same, type⟩ := plan.ends
    obtain rfl := Option.some.inj (found.symm.trans same)
    simp [type] at inner
  · obtain ⟨other, same, type⟩ := plan.fails
    obtain rfl := Option.some.inj (found.symm.trans same)
    simp [type] at inner
  · exact member

theorem split_targets {x : String} {toNode : String}
    (paths : some toNode = some (",".intercalate (plan.body.successors x plan.end_)))
    (some_path : plan.body.successors x plan.end_ ≠ []) : split toNode = plan.body.successors x plan.end_ := by
  have inside : ∀ y ∈ plan.body.successors x plan.end_,
    y ∈ plan.start :: plan.end_ :: plan.fail :: plan.body.names := by
    intro y member
    have place := Flow.successors_subset x plan.end_ plan.body member
    simp at place ⊢
    tauto
  rw [Option.some.inj paths]
  exact split_intercalate _ some_path (fun y member => plan.nonempty y (inside y member))
    fun y member => plan.plain y (inside y member)

/-- Where a node hands control to: on in the flow, from a step to the fail node, or
nowhere. -/
inductive Handed (results : String → JobPlanNodeState → Prop) (x : String) : List (Option String) → Prop where
  | on : Handed results x (((if x = plan.start then plan.body.entries plan.end_ else []) ++
      plan.body.successors x plan.end_).map some)
  | failing (step : x ∈ plan.body.steps) (error : results x .resultError) : Handed results x [some plan.fail]
  | nowhere (why : x = plan.fail ∨ x ∈ plan.body.steps ∧ results x .dispatchFail) : Handed results x [none]

theorem handed {x : String} {targets : List (Option String)} (successors : Successors wf results x targets) :
    plan.Handed results x targets := by
  obtain ⟨node, found, shape⟩ := successors
  -- a node of the plan is the start node, the end node, the fail node or in the body
  have listed := plan.complete x (by simp [found])
  simp only [List.mem_cons] at listed
  rcases listed with rfl | rfl | rfl | member
  · obtain ⟨other, same, type, leads⟩ := plan.starts
    obtain rfl := Option.some.inj (found.symm.trans same)
    rw [type] at shape
    have onward : plan.Handed results plan.start _ := .on
    rw [if_pos rfl, Flow.successors_of_not_mem plan.end_ plan.body plan.start_fresh.2.2, List.append_nil] at onward
    rw [shape, leads]
    exact onward
  -- an end node hands on nothing, so it has no targets to speak of
  · obtain ⟨other, same, type⟩ := plan.ends
    obtain rfl := Option.some.inj (found.symm.trans same)
    rw [type] at shape
    exact shape.elim
  -- a fail node has one target, and it is null
  · obtain ⟨other, same, type⟩ := plan.fails
    obtain rfl := Option.some.inj (found.symm.trans same)
    rw [type] at shape
    rw [shape]
    exact .nowhere (.inl rfl)
  · have notStart : x ≠ plan.start := fun same => plan.start_fresh.2.2 (same ▸ member)
    have onward : plan.Handed results x _ := .on
    rw [if_neg notStart, List.nil_append] at onward
    cases plan.role member with
    | action same type step ok error =>
      obtain rfl := Option.some.inj (found.symm.trans same)
      rw [type] at shape
      obtain ⟨state, reported, result, rfl⟩ := shape
      -- success, error and a failed dispatch: on, to the fail node, nowhere
      cases state with
      | resultSuccess => rwa [← ok] at onward
      | resultError =>
        rw [show node.answer .resultError = some plan.fail from error]
        exact .failing step reported
      | dispatchFail => exact .nowhere (.inr ⟨step, reported⟩)
      | _ => simp [JobPlanNodeState.isResultState] at result
    | fork same type pair paths _ length =>
      obtain rfl := Option.some.inj (found.symm.trans same)
      rw [type] at shape
      obtain ⟨toNode, to_, rfl⟩ := shape
      have some_path : plan.body.successors x plan.end_ ≠ [] := by
        have positive := (Flow.pairs_subset pair).2.2
        simp only [← length] at positive
        exact List.ne_nil_of_length_pos positive
      -- the names have no comma in them, so splitting gives back the paths
      rwa [plan.split_targets (to_.symm.trans paths) some_path]
    | join same type _ leads _ =>
      obtain rfl := Option.some.inj (found.symm.trans same)
      rw [type] at shape
      rwa [shape, leads]

/-- What the successors of a node can be. -/
theorem targets {x : String} {targets : List (Option String)} (successors : Successors wf results x targets) :
    targets = [none] ∨ targets = [some plan.fail] ∨
      targets = ((if x = plan.start then plan.body.entries plan.end_ else []) ++
        plan.body.successors x plan.end_).map some := by
  cases plan.handed successors with
  | on => exact .inr (.inr rfl)
  | failing => exact .inr (.inl rfl)
  | nowhere => exact .inl rfl

theorem mem_handed {x : String} {target : Option String}
    (member : target ∈ ((if x = plan.start then plan.body.entries plan.end_ else []) ++
      plan.body.successors x plan.end_).map some) : ∃ y, target = some y ∧ y ∈ plan.end_ :: plan.body.names := by
  obtain ⟨y, place, rfl⟩ := List.mem_map.mp member
  refine ⟨y, rfl, ?_⟩
  rcases List.mem_append.mp place with first | later
  · exact Flow.entries_subset _ _ (Flow.mem_ite_nil first)
  · exact Flow.successors_subset _ _ _ later

theorem fail_not_handed (x : String) : some plan.fail ∉ ((if x = plan.start then plan.body.entries plan.end_ else []) ++
    plan.body.successors x plan.end_).map some := by
  intro member
  obtain ⟨y, same, place⟩ := plan.mem_handed member
  obtain rfl := Option.some.inj same
  rcases List.mem_cons.mp place with last | inner
  · exact plan.end_fresh.1 last.symm
  · exact plan.fail_fresh inner

theorem handed_real {x : String} {targets : List (Option String)}
    (handed : targets = ((if x = plan.start then plan.body.entries plan.end_ else []) ++
      plan.body.successors x plan.end_).map some) : targets ≠ [none] ∧ targets ≠ [some plan.fail] := by
  constructor
  · rintro rfl
    obtain ⟨y, same, _⟩ := plan.mem_handed (x := x) (handed ▸ List.mem_singleton_self none)
    cases same
  · rintro rfl
    exact plan.fail_not_handed x (handed ▸ List.mem_singleton_self (some plan.fail))

/-- Handing control on names exactly the nodes the flow feeds. -/
theorem named_eq (lawful : Lawful wf results trace) {y : String} (notStart : y ≠ plan.start) (notFail : y ≠ plan.fail) :
    named wf y trace =
      plan.body.feed (given plan.fail trace) y plan.end_ (given plan.fail trace plan.start) := by
  induction lawful with
  | nil => exact (Flow.feed_zero (fun _ => rfl) y plan.end_ plan.body).symm
  | @snoc trace act _ legal ih =>
    rw [named_append, given_append, ih]
    cases act with
    | passed x id targets =>
      simp only [Act.names, Act.hands]
      rcases plan.targets legal.1 with rfl | rfl | handed
      · simp
      · simp [Ne.symm notFail]
      · simp only [plan.handed_real handed, and_true, ne_eq, not_false_eq_true, Flow.feed_bump, Flow.feed_add_tick]
        rw [handed, List.count_map_of_injective _ _ (Option.some_injective _), List.count_append]
        omega
    | assigned status => simp [plan.startFound, Ne.symm notStart]
    | _ => simp

/-- The start node is named by the call of `start` alone. -/
theorem named_start (lawful : Lawful wf results trace) : named wf plan.start trace = total Act.begins trace := by
  induction lawful with
  | nil => rfl
  | @snoc trace act _ legal ih =>
    rw [named_append, ih, total_append, total_cons, total_nil]
    cases act with
    | passed x id targets =>
      rcases plan.targets legal.1 with rfl | rfl | rfl
      · simp
      · simp [Ne.symm plan.start_fresh.2.1]
      · have absent : plan.start ∉ (if x = plan.start then plan.body.entries plan.end_ else []) ++
            plan.body.successors x plan.end_ := by
          intro member
          obtain ⟨y, same, place⟩ := plan.mem_handed (List.mem_map_of_mem member)
          obtain rfl := Option.some.inj same
          rcases List.mem_cons.mp place with last | inner
          · exact plan.start_fresh.1 last
          · exact plan.start_fresh.2.2 inner
        simp only [Act.names, Act.begins, Nat.add_zero]
        rw [List.count_map_of_injective _ _ (Option.some_injective _),
          List.count_eq_zero_of_not_mem absent, Nat.add_zero]
    | assigned status => simp [plan.startFound]
    | _ => simp

theorem given_start_le (lawful : Lawful wf results trace) : given plan.fail trace plan.start ≤ 1 := by
  obtain ⟨node, found, type, _⟩ := plan.starts
  calc given plan.fail trace plan.start
      ≤ passed plan.start trace := given_le ..
    _ ≤ entered plan.start trace := by simpa [type, mayLeave] using lawful.passed_le found
    _ ≤ named wf plan.start trace := lawful.entered_le _
    _ = total Act.begins trace := plan.named_start lawful
    _ ≤ 1 := lawful.begins_le

theorem bounded (lawful : Lawful wf results trace) :
    plan.body.Bounded (entered · trace) (given plan.fail trace) (given plan.fail trace plan.start) := by
  refine Flow.Bounded.of_feed plan.bodyDistinct plan.end_fresh.2 fun y member => ?_
  have notStart : y ≠ plan.start := fun same => plan.start_fresh.2.2 (same ▸ member)
  have notFail : y ≠ plan.fail := fun same => plan.fail_fresh (same ▸ member)
  exact (lawful.entered_le y).trans (plan.named_eq lawful notStart notFail).le

/-- The end node is named as often as control has left the flow. -/
theorem entered_end_le (lawful : Lawful wf results trace) :
    entered plan.end_ trace ≤ plan.body.out (given plan.fail trace) (given plan.fail trace plan.start) := by
  rw [← Flow.feed_next (given plan.fail trace) _ plan.body plan.end_fresh.2]
  exact (lawful.entered_le plan.end_).trans
    (plan.named_eq lawful (Ne.symm plan.start_fresh.1) plan.end_fresh.1).le

end Nested

/-- The plan for concrete runs is properly nested. -/
def Diamond.nested : Nested Diamond.workflow where
  start := "start"
  end_ := "end"
  fail := "fail"
  body := .step "a" (.fork "f" "j" (.both (.step "x" .done) (.step "y" .done)) .done)
  startFound := rfl
  starts := ⟨_, rfl, rfl, rfl⟩
  ends := ⟨_, rfl, rfl⟩
  fails := ⟨_, rfl, rfl⟩
  realizes := ⟨⟨_, rfl, rfl, rfl, rfl⟩, ⟨_, rfl, rfl, rfl, rfl⟩, ⟨_, rfl, rfl, rfl, rfl⟩,
    ⟨⟨⟨_, rfl, rfl, rfl, rfl⟩, trivial⟩, ⟨_, rfl, rfl, rfl, rfl⟩, trivial⟩, trivial⟩
  distinct := by decide
  complete name found := by
    have all : ∀ node ∈ Diamond.plan.jobPlanNodeList,
        node.name ∈ ["start", "end", "fail", "a", "f", "j", "x", "y"] := by decide
    obtain ⟨node, same⟩ := Option.isSome_iff_exists.mp found
    rw [← Workflow.getNode_name same]
    exact all node (Workflow.getNode_mem same)
  nonempty := by decide
  plain := by decide

theorem Diamond.nested_distinctKeys : Diamond.nested.DistinctKeys := by
  unfold Nested.DistinctKeys
  decide

end Hella
