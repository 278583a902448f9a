import Hella.Control.Refinement

/-!
# Counters of fork/join pairs

A pair keeps its counter in the variable named by the fork's name followed by the
join's. Two pairs share a variable exactly when their names overlap
(`Overlaps`), and pairs that do not overlap never touch each other's counter in
any run: `isolated_iff`.
-/
namespace Hella

open Exec Text

/-- The pair a fork or join node counts for. -/
def JobPlanNode.pair (node : JobPlanNode) : Option (String × String) :=
  match node.type with
  | .fork => some (node.name, orNull node.joinName)
  | .join => some (orNull node.forkName, node.name)
  | _ => none

def Workflow.pairs (wf : Workflow) : List (String × String) :=
  wf.jobExecutionPlan.jobPlanNodeList.filterMap (·.pair)

/-- The pair whose counter an entry of the history reads, writes or removes. -/
def Act.pair : Act → Option (String × String)
  | .forked fork join _ => some (fork, join)
  | .peeked fork join => some (fork, join)
  | .arrived fork join _ => some (fork, join)
  | .released fork join => some (fork, join)
  | _ => none

/-- One fork name extends the other by a text that the other's join name begins with. -/
def Overlaps (p q : String × String) : Prop :=
  ∃ w, (q.1 = p.1 ++ w ∧ p.2 = w ++ q.2) ∨ (p.1 = q.1 ++ w ∧ q.2 = w ++ p.2)

/-- The pairs of a plan use different variables, and in no run does an access to
one pair's counter read or change another's. -/
structure Isolated (wf : Workflow) : Prop where
  apart : ∀ p ∈ wf.pairs, ∀ q ∈ wf.pairs, p ≠ q → pairVar p.1 p.2 ≠ pairVar q.1 q.2
  frame : ∀ env world allowed s, Reaches env wf world allowed s →
    s.vars = varsOf s.trace ∧ ∀ before act after p q, s.trace = before ++ act :: after →
      act.pair = some p → q ∈ wf.pairs → p ≠ q →
        pairVar p.1 p.2 ≠ pairVar q.1 q.2 ∧
        (varsOf (before ++ [act])).lookup (pairVar q.1 q.2) = (varsOf before).lookup (pairVar q.1 q.2)

theorem Act.write_lookup {act : Act} {p : String × String} {var : String} (vars : JMap String)
    (pair : act.pair = some p) (other : pairVar p.1 p.2 ≠ var) :
    (act.write vars).lookup var = vars.lookup var := by
  cases act with
  | forked fork join paths =>
    obtain rfl := Option.some.inj pair
    exact AList.lookup_insert_ne other.symm
  | arrived fork join left =>
    obtain rfl := Option.some.inj pair
    exact AList.lookup_insert_ne other.symm
  | released fork join =>
    obtain rfl := Option.some.inj pair
    exact AList.lookup_erase_ne other.symm
  | peeked fork join => rfl
  | assigned | completing | entered | added | dispatched | passed => cases pair

/-- The variables are what the history wrote, and only pairs of the plan occur in it. -/
structure Accounted (wf : Workflow) (x : Agenda) : Prop where
  vars : x.vars = varsOf x.trace
  pairs : ∀ act ∈ x.trace, ∀ p, act.pair = some p → p ∈ wf.pairs

section Runs

variable {env : Env} {wf : Workflow} {allowed : List Act → String → NodeContext → Prop}

theorem Workflow.pair_mem {name : String} {node : JobPlanNode} {p : String × String}
    (found : wf.getNode name = some node) (pair : node.pair = some p) : p ∈ wf.pairs :=
  List.mem_filterMap.mpr ⟨node, Workflow.getNode_mem found, pair⟩

theorem Accounted.append {x : Agenda} (accounted : Accounted wf x) {status : WorkflowStatus}
    {due : List Due} (act : Act) (known : ∀ p, act.pair = some p → p ∈ wf.pairs) :
    Accounted wf ⟨status, act.write x.vars, x.trace ++ [act], due⟩ := by
  constructor
  · simp [accounted.vars]
  · intro other member p pair
    rcases List.mem_append.mp member with old | new
    · exact accounted.pairs other old p pair
    · obtain rfl := List.mem_singleton.mp new
      exact known p pair

theorem Accounted.move {x y : Agenda} (move : Move env wf allowed x y) (accounted : Accounted wf x) :
    Accounted wf y := by
  -- an act that touches no counter leaves the variables as they are
  have quiet {status due} {act : Act} (silent : act.pair = none) (same : act.write x.vars = x.vars) :
      Accounted wf ⟨status, x.vars, x.trace ++ [act], due⟩ := by
    have step : Accounted wf ⟨status, act.write x.vars, x.trace ++ [act], due⟩ :=
      accounted.append act (by simp [silent])
    rwa [same] at step
  -- fork and join acts are those of a node, so their pair is one of the plan
  cases move with
  | starts | startsNowhere | completes | enters | saves | dispatches | dispatchesLast | passes
  | succeeds | givesUp | fails => exact quiet rfl rfl
  | skips | absent | stalls | begins | underflows | stops | answers | answersFail | answersEnd
  | answersStart | answersFork => exact ⟨accounted.vars, accounted.pairs⟩
  | forks found type paths =>
    refine accounted.append (.forked _ _ _) fun p pair => Workflow.pair_mem found ?_
    rw [← pair, JobPlanNode.pair, type, Workflow.getNode_name found]
    rfl
  | peeks found type =>
    refine accounted.append (.peeked _ _) fun p pair => Workflow.pair_mem found ?_
    rw [← pair, JobPlanNode.pair, type, Workflow.getNode_name found]
    rfl
  | arrives found type value number positive =>
    refine accounted.append (.arrived _ _ _) fun p pair => Workflow.pair_mem found ?_
    rw [← pair, JobPlanNode.pair, type, Workflow.getNode_name found]
    rfl
  | @releases status vars trace name node rest text found type value number live id =>
    have freed : Accounted wf ⟨status, vars.erase (pairVar (orNull node.forkName) name),
        trace ++ [.released (orNull node.forkName) name], rest⟩ := by
      refine accounted.append (.released _ _) fun p pair => Workflow.pair_mem found ?_
      rw [← pair, JobPlanNode.pair, type, Workflow.getNode_name found]
      rfl
    exact freed.append (.passed _ _ _) fun p pair => by cases pair
  | answersJoin found type =>
    refine accounted.append (.released _ _) fun p pair => Workflow.pair_mem found ?_
    rw [← pair, JobPlanNode.pair, type, Workflow.getNode_name found]
    rfl

theorem Reaches.accounted {world : Store → Store → Prop} {guard : Run → String → NodeContext → Prop}
    {s : Run} (reaches : Reaches env wf world guard s) : Accounted wf (s.agenda []) :=
  reaches.invariant (fun _ _ _ => True) (fun _ _ _ _ => trivial) ⟨rfl, by simp⟩
    (fun _ _ move accounted => accounted.move move) fun _ accounted => ⟨accounted.vars, accounted.pairs⟩

end Runs

/-- Pairs of a plan stay out of each other's way, in every run, exactly when no two
of them overlap. -/
theorem isolated_iff (wf : Workflow) :
    Isolated wf ↔ ∀ p ∈ wf.pairs, ∀ q ∈ wf.pairs, p ≠ q → ¬ Overlaps p q := by
  have shared (p q : String × String) : pairVar p.1 p.2 = pairVar q.1 q.2 ↔ Overlaps p q :=
    append_eq_append_iff_overlap p.1 p.2 q.1 q.2
  constructor
  · intro isolated p memberP q memberQ different overlaps
    exact isolated.apart p memberP q memberQ different ((shared p q).mpr overlaps)
  · intro plain
    have apart : ∀ p ∈ wf.pairs, ∀ q ∈ wf.pairs, p ≠ q → pairVar p.1 p.2 ≠ pairVar q.1 q.2 :=
      fun p memberP q memberQ different same =>
        plain p memberP q memberQ different ((shared p q).mp same)
    refine ⟨apart, fun env world allowed s reaches => ⟨reaches.accounted.vars, ?_⟩⟩
    intro before act after p q split pair memberQ different
    have memberP : p ∈ wf.pairs := reaches.accounted.pairs act (by simp [Run.agenda, split]) p pair
    have other := apart p memberP q memberQ different
    refine ⟨other, ?_⟩
    rw [varsOf_append]
    exact Act.write_lookup _ pair other

/-! ### Two pairs with one variable -/

namespace SharedCounter

def job : Option XjobMeta := some { mode := "local", executionContent := "run.sh", jobClassName := "shell" }

def action (id : Nat) (name next : String) : JobPlanNode :=
  { id := id, jobExecutionPlanID := 1, type := .action, name := name, executorClusterID := "c"
    okNode := some next, errorNode := some "fail", xjobMeta := job }

/-- The fork `ab` with its join `c`, inside the fork `a` with its join `bc`. -/
def plan : JobExecutionPlan where
  id := 1
  jobPlanNodeList :=
    [{ id := 1, jobExecutionPlanID := 1, type := .start, name := "start", executorClusterID := "c"
       toNode := some "a" },
     { id := 2, jobExecutionPlanID := 1, type := .fork, name := "a", executorClusterID := "c"
       toNode := some "t,ab", joinName := some "bc" },
     { id := 3, jobExecutionPlanID := 1, type := .fork, name := "ab", executorClusterID := "c"
       toNode := some "u,v,w", joinName := some "c" },
     action 4 "t" "bc", action 5 "u" "c", action 6 "v" "c", action 7 "w" "c",
     { id := 8, jobExecutionPlanID := 1, type := .join, name := "c", executorClusterID := "c"
       toNode := some "bc", forkName := some "ab" },
     { id := 9, jobExecutionPlanID := 1, type := .join, name := "bc", executorClusterID := "c"
       toNode := some "end", forkName := some "a" },
     { id := 10, jobExecutionPlanID := 1, type := .fail, name := "fail", executorClusterID := "c" },
     { id := 11, jobExecutionPlanID := 1, type := .end_, name := "end", executorClusterID := "c" }]

def workflow : Workflow := { workflowManager := ⟨plan, rfl⟩, engineRunKey := 1000 }

def started : Run := after (start Env.calm workflow { store := { jobPlans := [plan] } })

/-- The history up to the second fork. -/
def before : List Act := started.trace.take 11

theorem started_split : started.trace = before ++ .forked "ab" "c" 3 :: started.trace.drop 12 := by
  decide +kernel

theorem overwritten : (varsOf before).lookup "abc" = some "2" ∧
    (varsOf (before ++ [.forked "ab" "c" 3])).lookup "abc" = some "3" := by
  decide +kernel

end SharedCounter

/-- The inner fork overwrites the counter of the outer one while that is active. -/
theorem sharedCounter_not_isolated : ¬ Isolated SharedCounter.workflow := by
  intro isolated
  have kept := ((isolated.frame Env.calm (fun _ _ => False) (fun _ _ _ => False) SharedCounter.started
    (.starting (.initial _))).2 SharedCounter.before _ _ ("ab", "c") ("a", "bc")
    SharedCounter.started_split rfl (by decide) (by decide)).2
  have values := SharedCounter.overwritten
  rw [show pairVar "a" "bc" = "abc" from rfl, values.1, values.2] at kept
  exact absurd kept (by decide)

end Hella
