import Hella.Control.Ledger
import Hella.Control.Registry
import Hella.Control.Room
import Hella.Properties.Interim

/-!
# Redelivered heartbeats

An executor that does not get the answer to a heartbeat sends its reports again. A
report that has been handled is inert: its entry is gone, its run is gone or it is no
result. It stays inert while the other reports are handled, because entries only come
with new event IDs and runs only go. So the second pass changes nothing.
-/
namespace Hella

open Exec

/-- The known event IDs are not drawn from now on. -/
def Store.Fresh (env : Env) (known : String → Prop) (s : Store) : Prop := ∀ n ≥ s.tick, ¬ known (Store.eventIDAt env n)

/-- What was forgotten stays forgotten: no entry comes under a known event ID, and no
run is registered. -/
structure Store.Fades (known : String → Prop) (s t : Store) : Prop where
  later : s.tick ≤ t.tick
  entries : ∀ id, known id → t.jobNodeRuningInfosMap.lookup id = s.jobNodeRuningInfosMap.lookup id ∨
    t.jobNodeRuningInfosMap.lookup id = none
  runs : ∀ key, t.workflowsMap.lookup key = s.workflowsMap.lookup key ∨ t.workflowsMap.lookup key = none

namespace Store.Fades

variable {env : Env} {known : String → Prop} {s t u : Store}

theorem refl (s : Store) : Fades known s s := ⟨le_rfl, fun _ _ => .inl rfl, fun _ => .inl rfl⟩

theorem trans (first : Fades known s t) (second : Fades known t u) : Fades known s u where
  later := first.later.trans second.later
  entries id named := by
    rcases second.entries id named with same | gone
    · exact same ▸ first.entries id named
    · exact .inr gone
  runs key := by
    rcases second.runs key with same | gone
    · exact same ▸ first.runs key
    · exact .inr gone

/-- Only ticks and what neither map holds have changed. -/
theorem of_same (later : s.tick ≤ t.tick) (entries : t.jobNodeRuningInfosMap = s.jobNodeRuningInfosMap)
    (runs : t.workflowsMap = s.workflowsMap) : Fades known s t :=
  ⟨later, fun _ _ => .inl (by rw [entries]), fun _ => .inl (by rw [runs])⟩

theorem fresh (fades : Fades known s t) (fresh : Fresh env known s) : Fresh env known t :=
  fun n after => fresh n (fades.later.trans after)

theorem of_write (write : Write env s t) (fresh : Fresh env known s) : Fades known s t := by
  cases write with
  | asks => exact of_same (Nat.le_succ _) rfl rfl
  | inserts => exact of_same le_rfl rfl rfl
  | updates => exact of_same le_rfl rfl rfl
  | marks => exact of_same le_rfl rfl rfl
  | produces => exact of_same le_rfl rfl rfl
  | dispatches event info drawn type =>
    refine ⟨Nat.le_succ _, fun id named => .inl ?_, fun _ => .inl rfl⟩
    have ne : id ≠ event.eventID := by
      rintro rfl
      exact fresh s.tick le_rfl (drawn ▸ named)
    exact AList.lookup_insert_ne ne
  | ends key =>
    refine ⟨le_rfl, fun _ _ => .inl rfl, fun other => ?_⟩
    by_cases same : other = key
    · exact .inr (same ▸ AList.lookup_erase _ _)
    · exact .inl (AList.lookup_erase_ne same)

end Store.Fades

namespace Engine

variable {env : Env} {known : String → Prop} {cluster : String} {report : JobProgress} {reports : List JobProgress}
  {e t u : Engine}

/-- The report is handed to the instance, as the report of the named node. -/
structure Handed (e : Engine) (report : JobProgress) (i : Instance) (name : String)
  (state : JobPlanNodeState) : Prop where
  result : state.isResultState = true
  found : ∃ type info n, report.Reads type state ∧ ¬ Aside type state ∧ e.runingInfo? report.eventID = some info ∧
    info.jobNodeName = name ∧ e.getWorkflow? info.workflowRunKey = some (n, i)

/-- The store fades, every instance keeps its plan, and none that has ended goes on. -/
structure Fades (known : String → Prop) (e t : Engine) : Prop where
  store : Store.Fades known e.store t.store
  instances : ∀ (n : Nat) j, t.instances[n]? = some j → ∃ i, e.instances[n]? = some i ∧ j.workflow = i.workflow ∧
    (i.status.isEndState = true → j.status.isEndState = true)

namespace Fades

theorem of_store {store : Store} (fades : Store.Fades known e.store store) : Fades known e { e with store := store } :=
  ⟨fades, fun _ j there => ⟨j, there, rfl, id⟩⟩

theorem refl (e : Engine) : Fades known e e := .of_store (.refl _)

theorem trans (first : Fades known e t) (second : Fades known t u) : Fades known e u where
  store := first.store.trans second.store
  instances n k there := by
    obtain ⟨j, middle, plan, ended⟩ := second.instances n k there
    obtain ⟨i, before, plan', ended'⟩ := first.instances n j middle
    exact ⟨i, before, plan.trans plan', fun closed => ended (ended' closed)⟩

/-- A run that is registered was registered for the same instance. -/
theorem getWorkflow? (fades : Fades known e t) {key : String} {n : Nat} {j : Instance}
    (there : t.getWorkflow? key = some (n, j)) : ∃ i, e.getWorkflow? key = some (n, i) ∧ j.workflow = i.workflow ∧
      (i.status.isEndState = true → j.status.isEndState = true) := by
  obtain ⟨m, registered, reference⟩ := Option.bind_eq_some_iff.mp there
  obtain ⟨_, position, same⟩ := Option.map_eq_some_iff.mp reference
  cases same
  obtain ⟨i, before, plan, ended⟩ := fades.instances n j position
  rcases fades.store.runs key with same | none
  · refine ⟨i, ?_, plan, ended⟩
    rw [Engine.getWorkflow?, ← same, registered, Option.bind_some, before, Option.map_some]
  · cases none.symm.trans registered

theorem runingInfo? (fades : Fades known e t) {id : String} {info : JobNodeRuningInfo} (named : known id)
    (found : t.runingInfo? id = some info) : e.runingInfo? id = some info := by
  rcases fades.store.entries id named with same | none
  · exact same.symm.trans found
  · cases none.symm.trans found

theorem inert (fades : Fades known e t) (named : known report.eventID) (inert : e.Inert report) : t.Inert report := by
  intro type state info reads found
  obtain ⟨flow, stopped⟩ := inert type state info reads (fades.runingInfo? named found)
  refine ⟨flow, stopped.imp_left fun gone => ?_⟩
  refine Option.eq_none_iff_forall_ne_some.mpr ?_
  rintro ⟨n, j⟩ there
  obtain ⟨i, before, -⟩ := fades.getWorkflow? there
  cases gone.symm.trans before

/-- A report that is handed on would have been handed on before. -/
theorem handed (fades : Fades known e t) (named : known report.eventID) {j : Instance} {name : String}
    {state : JobPlanNodeState} (handed : t.Handed report j name state) : ∃ i, e.Handed report i name state ∧
      j.workflow = i.workflow ∧ (i.status.isEndState = true → j.status.isEndState = true) := by
  obtain ⟨result, type, info, n, reads, flow, found, same, there⟩ := handed
  obtain ⟨i, before, plan, ended⟩ := fades.getWorkflow? there
  exact ⟨i, ⟨result, type, info, n, reads, flow, fades.runingInfo? named found, same, before⟩, plan, ended⟩

theorem save {n : Nat} {i : Instance} {s : Run} {store : Store} (there : e.instances[n]? = some i)
    (ended : i.status.isEndState = true → s.status.isEndState = true) (fades : Store.Fades known e.store store) :
    Fades known e { e.save n i s with store := store } := by
  refine ⟨fades, fun m j position => ?_⟩
  simp only [Engine.save, List.getElem?_set] at position
  split at position
  next same =>
    subst same
    split at position
    · obtain rfl := Option.some.inj position
      exact ⟨i, there, rfl, ended⟩
    · cases position
  next => exact ⟨j, position, rfl, id⟩

end Fades

/-! ### The first pass -/

/-- The rows, the instances, the plans and the jobs handed to the dispatcher are as before. -/
structure Unchanged (e t : Engine) : Prop where
  rows : t.store.xjobStates = e.store.xjobStates
  statuses : t.instances.map (·.status) = e.instances.map (·.status)
  vars : t.instances.map (·.vars) = e.instances.map (·.vars)
  plans : t.store.jobPlans = e.store.jobPlans
  executes : ∀ c, (t.queued c).filter (·.eventType = .executeJob) = (e.queued c).filter (·.eventType = .executeJob)

theorem Killed.unchanged (killed : Killed e t) : Unchanged e t where
  rows := killed.xjobStates
  statuses := by rw [killed.instances]
  vars := by rw [killed.instances]
  plans := by rw [killed.rest]
  executes := killed.executes

/-- The event IDs of the reports. -/
def Named (reports : List JobProgress) (id : String) : Prop := ∃ report ∈ reports, report.eventID = id

end Engine

/-! ### A fork that is its own path -/

namespace Loop

/-- After `a` the fork `f` starts `b` and then itself, without end. -/
def plan : JobExecutionPlan where
  id := 1
  jobPlanNodeList :=
    [{ Diamond.node 1 .start "start" with toNode := some "a" },
     Diamond.action 2 "a" "f",
     { Diamond.node 3 .fork "f" with toNode := some "b,f", joinName := some "j" },
     Diamond.action 4 "b" "j",
     { Diamond.node 5 .join "j" with toNode := some "end", forkName := some "f" },
     Diamond.node 6 .fail "fail",
     Diamond.node 7 .end_ "end"]

def workflow : Workflow := { workflowManager := ⟨plan, rfl⟩, engineRunKey := 1000 }

def row : XjobState :=
  { id := 2, jobPlanNodeID := 2, currentExecutorKey := "10001", jobPlanNodeState := .notifySuccess
    runTime := some "20140129120000" }

/-- The engine while `a` runs. -/
def running : Engine :=
  { store :=
      { tick := 8
        xjobStates := [row]
        lastXjobStateID := 2
        jobPlans := [plan]
        workflowsMap := AList.insert "10001" 0 ∅
        jobNodeRuningInfosMap := AList.insert "1270011003" ⟨"a", 2, "10001"⟩ ∅
        executorRegisterDateMap := ["c"] }
    instances := [{ workflow := workflow, status := .running }] }

def succeeded : JobProgress :=
  { executorType := "Auto", jobPlanNodeState := "RESULT_SUCCESS", progress := 100, eventID := "1270011003"
    runTime := some "20140129120500" }

/-- Room for ten nested calls; with more, `b` is only started more often. -/
def env : Env := { Env.calm with stackDepth := 10 }

end Loop

namespace Loop

def failed : JobProgress := { succeeded with jobPlanNodeState := "RESULT_ERROR" }

def unknown : JobProgress := { succeeded with eventID := "1270011004" }

end Loop

end Hella
