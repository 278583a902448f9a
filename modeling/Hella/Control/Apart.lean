import Hella.Control.Footprint
import Hella.Control.Room
import Hella.Control.Rows
import Hella.Control.Rules
import Hella.Control.Steady

/-!
# What a run leaves of the others

A run only writes rows of its own key and only takes its own key off the map, so that the
runs of other keys have the rows they had. Every registered key is the key of the instance
it leads to.
-/
namespace Hella

open Exec Runs

namespace Store

variable {s t u : Store} {x : XjobState} {key other : String}

theorem Numbered.of_same (numbered : s.Numbered) (rows : t.xjobStates = s.xjobStates)
    (last : t.lastXjobStateID = s.lastXjobStateID) : t.Numbered where
  distinct := rows ▸ numbered.distinct
  known := rows ▸ last ▸ numbered.known
  positive := rows ▸ numbered.positive

theorem xjobStatesOf_insert (apart : other ≠ x.currentExecutorKey) :
    (s.insertXjobState x).xjobStatesOf other = s.xjobStatesOf other := by
  simp [xjobStatesOf, insertXjobState, Ne.symm apart]

theorem xjobStatesOf_update (apart : ∀ row ∈ s.xjobStatesOf other, row.id ≠ x.id) :
    (s.updateXjobState x).xjobStatesOf other = s.xjobStatesOf other := by
  -- a write keeps the keys, so that the rows of the key are the written rows of the key
  have keys : (fun row : XjobState => decide (row.currentExecutorKey = other)) ∘
      (fun row => if row.id = x.id then XjobState.overwrite row x else row) =
      fun row => decide (row.currentExecutorKey = other) := by
    funext row
    simp only [Function.comp]
    split <;> rfl
  rw [xjobStatesOf, updateXjobState, List.filter_map, keys]
  calc
    _ = (s.xjobStatesOf other).map id := List.map_congr_left fun row member => if_neg (apart row member)
    _ = s.xjobStatesOf other := List.map_id _

theorem jobPlanNode?_modify {f : JobExecutionPlan → JobExecutionPlan}
    (same : ∀ plan, (f plan).jobPlanNodeList = plan.jobPlanNodeList) (reads : t.jobPlans = s.jobPlans.map f) :
    t.jobPlanNode? = s.jobPlanNode? := by
  funext id
  simp only [jobPlanNode?, reads, List.flatMap_map, same]

/-- The run of the key has come from the first store to the second, and the others have
what they had. -/
structure Apart (key : String) (s t : Store) : Prop where
  later : s.tick ≤ t.tick
  last : s.lastXjobStateID ≤ t.lastXjobStateID
  rows : ∀ other, other ≠ key → t.xjobStatesOf other = s.xjobStatesOf other
  runs : ∀ other, other ≠ key → t.workflowsMap.lookup other = s.workflowsMap.lookup other
  nodes : t.jobPlanNode? = s.jobPlanNode?

/-- Only a row of the key can have the id. -/
def Owned (s : Store) (key : String) (id : Nat) : Prop :=
  ∀ row ∈ s.xjobStates, row.id = id → row.currentExecutorKey = key

theorem mem_xjobStatesOf {row : XjobState} : row ∈ s.xjobStatesOf key ↔
    row ∈ s.xjobStates ∧ row.currentExecutorKey = key := by
  simp [xjobStatesOf]

namespace Apart

/-- Nothing has changed that is spoken about. -/
theorem of_same (later : s.tick ≤ t.tick) (last : t.lastXjobStateID = s.lastXjobStateID)
    (rows : t.xjobStates = s.xjobStates) (runs : t.workflowsMap = s.workflowsMap) (plans : t.jobPlans = s.jobPlans) :
    Apart key s t where
  later := later
  last := last.ge
  rows other _ := by rw [xjobStatesOf, xjobStatesOf, rows]
  runs other _ := by rw [runs]
  nodes := by
    funext id
    rw [jobPlanNode?, jobPlanNode?, plans]

theorem refl (s : Store) : Apart key s s := of_same le_rfl rfl rfl rfl rfl

theorem trans (first : Apart key s t) (second : Apart key t u) : Apart key s u where
  later := first.later.trans second.later
  last := first.last.trans second.last
  rows other ne := (second.rows other ne).trans (first.rows other ne)
  runs other ne := (second.runs other ne).trans (first.runs other ne)
  nodes := second.nodes.trans first.nodes

theorem owned (apart : Apart key s t) {id : Nat} (owned : s.Owned key id) : t.Owned key id := by
  intro row member same
  by_contra foreign
  -- a row of another key was there before
  have before : row ∈ s.xjobStatesOf row.currentExecutorKey := by
    rw [← apart.rows _ foreign]
    exact mem_xjobStatesOf.mpr ⟨member, rfl⟩
  exact foreign (owned row (mem_xjobStatesOf.mp before).1 same)

theorem insert (apart : Apart key s t) (own : x.currentExecutorKey = key) : Apart key s (t.insertXjobState x) where
  later := apart.later
  last := apart.last.trans (Nat.le_succ _)
  rows other ne := (xjobStatesOf_insert (own ▸ ne)).trans (apart.rows other ne)
  runs := apart.runs
  nodes := apart.nodes

theorem update (apart : Apart key s t) (owned : s.Owned key x.id) : Apart key s (t.updateXjobState x) where
  later := apart.later
  last := apart.last
  rows other ne := by
    rw [xjobStatesOf_update, apart.rows other ne]
    intro row member same
    obtain ⟨inside, foreign⟩ := mem_xjobStatesOf.mp member
    exact ne (foreign.symm.trans (apart.owned owned row inside same))
  runs := apart.runs
  nodes := apart.nodes

end Apart

/-- A row that was read under the key has an id only rows of the key have. -/
theorem Sound.owned {row : XjobState} (sound : s.Sound) (member : row ∈ s.xjobStatesOf key) : s.Owned key row.id := by
  obtain ⟨inside, own⟩ := mem_xjobStatesOf.mp member
  intro found there same
  rw [sound.eq_of_id there inside same, own]

end Store

/-! ### What `completeJobPlanNode` does to the others -/

section Instances

variable {env : Env} {wf : Workflow} {s₀ : Store}

theorem footprint_apart (env : Env) (wf : Workflow) (numbered : s₀.Numbered) :
    Footprint env wf (fun t => t.Numbered ∧ s₀.Apart wf.getWorkflowKey t) (s₀.Owned wf.getWorkflowKey)
      (fun x => s₀.Owned wf.getWorkflowKey x.id) fun _ => True where
  unsaved row member same := absurd same (numbered.positive row member)
  leads _ _ _ _ _ _ _ := trivial
  asks t holds := ⟨holds.1.of_same rfl rfl, holds.2.trans (.of_same (Nat.le_succ _) rfl rfl rfl rfl)⟩
  inserts t x holds own := by
    refine ⟨⟨holds.1.insert x, holds.2.insert own⟩, fun row member same => ?_⟩
    -- the generated id is past every row of the first store
    have known := numbered.known row member
    have last := holds.2.last
    omega
  updates t x holds owned := ⟨holds.1.update x, holds.2.update owned⟩
  reads t x holds member _ := by
    intro row inside same
    by_contra foreign
    have still : row ∈ t.xjobStatesOf row.currentExecutorKey := by
      rw [holds.2.rows _ foreign]
      exact Store.mem_xjobStatesOf.mpr ⟨inside, rfl⟩
    exact foreign (holds.1.toSound.owned member row (Store.mem_xjobStatesOf.mp still).1 same)
  fails t x runTime holds owned _ := ⟨holds.1.update _, holds.2.update owned⟩
  marks t id state date holds := by
    refine ⟨holds.1.of_same rfl rfl, holds.2.trans ⟨le_rfl, le_rfl, fun _ _ => rfl, fun _ _ => rfl, ?_⟩⟩
    apply Store.jobPlanNode?_modify _ rfl
    intro plan
    split <;> rfl
  dispatches t event node id holds := ⟨holds.1.of_same rfl rfl, holds.2.trans (.of_same le_rfl rfl rfl rfl rfl)⟩
  produces t node event holds _ _ _ _ := ⟨holds.1.of_same rfl rfl, holds.2.trans (.of_same le_rfl rfl rfl rfl rfl)⟩
  ends t holds := by
    refine ⟨holds.1.of_same rfl rfl, holds.2.trans ⟨le_rfl, le_rfl, fun _ _ => rfl, fun other ne => ?_, rfl⟩⟩
    exact AList.lookup_erase_ne ne

/-- The trace only grows. -/
theorem stable_grows (env : Env) (wf : Workflow) (acts : List Act) : Stable env wf fun s => acts <+: s.trace where
  writes _ _ _ before := before
  notes _ _ _ before := before.trans (List.prefix_append _ _)
  moves _ _ _ before := before
  actions node _ type := by
    have noting (act : Act) : Keeps (fun s : Run => acts <+: s.trace) (record act) :=
      Keeps.modifying fun s before => before.trans (List.prefix_append _ _)
    have storing {α : Type} (body : StoreM α) : Keeps (fun s : Run => acts <+: s.trace) (onStore body) := by
      intro s before
      rw [onStore_apply]
      cases body s.store <;> exact before
    have attempting {α : Type} {body : RunM α} (keeps : Keeps (fun s : Run => acts <+: s.trace) body) (otherwise : α) :
        Keeps (fun s : Run => acts <+: s.trace) (attempt body otherwise) := keeps.catching fun _ _ => Keeps.pure _
    apply (noting _).bind
    intro _
    simp only [type]
    refine Keeps.bind ((storing _).bind fun date => ?_) fun _ => Keeps.pure _
    refine (attempting ((storing _).bind fun _ => (noting _).bind fun _ => Keeps.pure _) _).bind fun row => ?_
    refine Keeps.bind ((storing _).bind fun _ => noting _) fun _ => ?_
    exact (attempting (storing _) _).bind fun _ => Keeps.pure _

/-- With room on the stack the call returns. It is noted, and the runs of other keys are as before. -/
theorem completeJobPlanNode_apart {s : Run} {context : NodeContext} (roomy : Roomy env wf) (numbered : s.store.Numbered)
    (owned : ∀ report, context.jobProgress = some report → s.store.Owned wf.getWorkflowKey report.xjobStateID)
    (name : String) : ∃ t, completeJobPlanNode env wf name context s = .ok () t ∧ t.store.Numbered ∧
      s.store.Apart wf.getWorkflowKey t.store ∧ s.trace ++ [.completing name context.xjobStateID] <+: t.trace := by
  obtain ⟨t, returned, -⟩ := completeJobPlanNode_roomy roomy name context s
  have apart := ((footprint_apart env wf numbered).completeJobPlanNode (fun _ => trivial) name owned).ok
    ⟨numbered, .refl _⟩ returned
  have grows := ((stable_grows env wf (s.trace ++ [Act.completing name context.xjobStateID])).completing name context
    fun u (same : u = s) => same ▸ List.prefix_rfl).ok rfl returned
  exact ⟨t, returned, apart.1, apart.2, grows⟩

end Instances

/-! ### Which instance a key leads to -/

namespace Engine

variable {env : Env} {e t : Engine}

/-- The rows have ids of their own, and a registered key is the key of the instance it leads to. -/
structure Indexed (e : Engine) : Prop where
  numbered : e.store.Numbered
  runs : ∀ key n, e.store.workflowsMap.lookup key = some n → e.instances[n]?.map (·.workflow.getWorkflowKey) = some key

theorem Indexed.getWorkflow? (indexed : e.Indexed) {key : String} {n : Nat} {i : Instance}
    (there : e.getWorkflow? key = some (n, i)) : e.instances[n]? = some i ∧ i.workflow.getWorkflowKey = key := by
  obtain ⟨m, registered, found⟩ := Option.bind_eq_some_iff.mp there
  obtain ⟨j, place, same⟩ := Option.map_eq_some_iff.mp found
  cases same
  have key := indexed.runs _ _ registered
  rw [place] at key
  exact ⟨place, Option.some.inj key⟩

/-- Changes of the store that neither number a row anew nor register a run. -/
theorem Indexed.of_store (indexed : e.Indexed) {s : Store} (numbered : s.Numbered)
    (runs : ∀ key, s.workflowsMap.lookup key = e.store.workflowsMap.lookup key ∨ s.workflowsMap.lookup key = none) :
    Indexed { e with store := s } := by
  refine ⟨numbered, fun key n registered => ?_⟩
  rcases runs key with same | gone
  · exact indexed.runs key n (same ▸ registered)
  · cases gone.symm.trans registered

theorem Indexed.write (indexed : e.Indexed) {s : Store} (write : Store.Write env e.store s) :
    Indexed { e with store := s } := by
  have numbered := indexed.numbered
  cases write with
  | inserts x => exact indexed.of_store (numbered.insert x) fun _ => .inl rfl
  | updates x => exact indexed.of_store (numbered.update x) fun _ => .inl rfl
  | asks => exact indexed.of_store (numbered.of_same rfl rfl) fun _ => .inl rfl
  | marks => exact indexed.of_store (numbered.of_same rfl rfl) fun _ => .inl rfl
  | dispatches => exact indexed.of_store (numbered.of_same rfl rfl) fun _ => .inl rfl
  | produces => exact indexed.of_store (numbered.of_same rfl rfl) fun _ => .inl rfl
  | ends key =>
    refine indexed.of_store (numbered.of_same rfl rfl) fun other => ?_
    by_cases same : other = key
    · exact .inr (same ▸ AList.lookup_erase _ _)
    · exact .inl (AList.lookup_erase_ne same)

theorem Indexed.writes (indexed : e.Indexed) {s : Store} (writes : Store.Writes env e.store s) :
    Indexed { e with store := s } := by
  induction writes with
  | refl => exact indexed
  | tail _ write ih => exact ih.write write

/-- The instances are the same up to what does not name them. -/
theorem Indexed.of_plans (indexed : e.Indexed) {instances : List Instance}
    (plans : instances.map (·.workflow) = e.instances.map (·.workflow)) :
      Indexed { e with instances := instances } := by
  refine ⟨indexed.numbered, fun key n registered => ?_⟩
  have same (m : Nat) : instances[m]?.map (·.workflow) = e.instances[m]?.map (·.workflow) := by
    rw [← List.getElem?_map, plans, List.getElem?_map]
  have found := indexed.runs key n registered
  have keys (list : List Instance) : list[n]?.map (·.workflow.getWorkflowKey) =
      (list[n]?.map (·.workflow)).map (·.getWorkflowKey) := by cases list[n]? <;> rfl
  rw [keys, same, ← keys]
  exact found

/-- A call of an instance leaves all of them their plans. -/
theorem plans_onInstance {α : Type} (n : Nat) (body : Workflow → RunM α) (e : Engine) :
    (after (onInstance n body e)).instances.map (·.workflow) = e.instances.map (·.workflow) := by
  have saved (i : Instance) (there : e.instances[n]? = some i) (s : Run) :
      (e.save n i s).instances.map (·.workflow) = e.instances.map (·.workflow) := by
    apply List.ext_getElem?
    intro m
    rw [save, List.map_set, List.getElem?_set]
    split
    next same =>
      subst same
      obtain ⟨bound, rfl⟩ := List.getElem?_eq_some_iff.mp there
      simp [Instance.save, bound]
    · rfl
  cases there : e.instances[n]? with
  | none => simp only [onInstance, there, after_error]
  | some i =>
    rw [onInstance_apply there]
    cases body i.workflow (i.run e.store)
    · exact saved i there _
    · exact saved i there _

theorem indexed_onInstance {α : Type} (env : Env) (n : Nat) {body : Workflow → RunM α}
    (writes : ∀ wf s, Keeps (Wrote env s) (body wf)) : Keeps Indexed (onInstance n body) := by
  refine Keeps.of_after fun e indexed => ?_
  have stored : Indexed { e with store := (after (onInstance n body e)).store } := by
    cases there : e.instances[n]? with
    | none =>
      simp only [onInstance, there, after_error]
      exact indexed
    | some i =>
      have wrote := (writes i.workflow e.store).after (s := i.run e.store) .refl
      rw [onInstance_apply there]
      cases same : body i.workflow (i.run e.store) <;> simp only [same, after_ok, after_error] at wrote ⊢
      · exact indexed.writes wrote
      · exact indexed.writes wrote
  exact stored.of_plans (plans_onInstance n body e)

theorem lasting_indexed : Lasting env Indexed where
  writes e s write indexed := indexed.write write
  notices e s noticed indexed := by
    refine indexed.of_store (indexed.numbered.of_same ?_ ?_) fun key => .inl ?_
    all_goals rw [noticed.rest]
  forgets e eventID indexed := indexed.of_store (indexed.numbered.of_same rfl rfl) fun _ => .inl rfl
  kills cluster eventID := by
    intro e indexed
    rw [killJobHandle, Store.doDispatch, onShared_modify]
    dsimp only
    split
    · exact indexed.of_store (indexed.numbered.of_same rfl rfl) fun _ => .inl rfl
    · exact indexed
  -- flags are not part of a plan, so the list of plans is the same place by place
  flags e n f flags indexed := by
    apply indexed.of_plans
    apply List.ext_getElem?
    intro m
    rw [List.getElem?_map, List.getElem?_modify, List.getElem?_map]
    cases e.instances[m]? with
    | none => rfl
    | some i =>
      obtain ⟨timeOut, hasAlarm, same⟩ := flags i
      simp only [Option.map_eq_map, Option.map_some]
      split
      · rw [same]
      · rfl
  completes n name context := indexed_onInstance env n fun _ _ => wrote_complete name context

/-- The instance is registered under its own key. -/
theorem indexed_startJobPlan (id : Nat) (args : Option String) : Keeps Indexed (startJobPlan env id args) := by
  refine (lasting_indexed.spends fun _ => Store.writes_loadJobExecutionPlan id).bind fun plan => ?_
  split
  · exact Keeps.pure _
  next plan =>
    split
    · exact Keeps.throw _
    next accepted =>
      refine (lasting_indexed.spends fun _ => Store.writes_generateID).bind fun key => ?_
      dsimp only
      -- the key matters only later, when the run is registered
      generalize ({ workflowManager := ⟨plan, accepted⟩, engineRunKey := key, args := args } : Workflow) = workflow
      let Placed (n : Nat) (e : Engine) := Indexed e ∧ (e.instances.map (·.workflow))[n]? = some workflow
      -- a started run keeps its place while it starts, so it is registered under its own key
      apply Triple.bind (Q := Placed)
      · intro e indexed
        refine ⟨⟨indexed.numbered, fun other m registered => ?_⟩, by simp⟩
        have found := indexed.runs other m registered
        obtain ⟨i, place, own⟩ := Option.map_eq_some_iff.mp found
        simp [List.getElem?_append_left (List.getElem?_eq_some_iff.mp place).1, place, own]
      · intro n
        apply Triple.bind (Q := fun _ => Placed n)
        · have keeps : Keeps (Placed n) (onInstance n (Hella.start env)) := by
            refine Keeps.of_after fun e placed => ⟨?_, ?_⟩
            · exact (indexed_onInstance env n fun _ _ => wrote_start).after placed.1
            · rw [plans_onInstance]
              exact placed.2
          exact keeps.conseq (fun _ placed => placed) (fun _ _ placed => placed) fun _ _ placed => placed.1
        · rintro _ e ⟨indexed, placed⟩
          refine ⟨indexed.numbered.of_same rfl rfl, fun other m registered => ?_⟩
          -- the new entry replaces what was registered under its key
          by_cases same : other = workflow.getWorkflowKey
          · subst same
            obtain rfl : n = m := by simpa using registered
            rw [List.getElem?_map] at placed
            obtain ⟨i, place, rfl⟩ := Option.map_eq_some_iff.mp placed
            exact congrArg (Option.map _) place
          · exact indexed.runs other m (by rwa [AList.lookup_insert_ne same] at registered)

/-- The engine has its tables and nothing else. -/
structure Booted (e : Engine) : Prop where
  numbered : e.store.Numbered
  instances : e.instances = []
  workflowsMap : e.store.workflowsMap = ∅

theorem Step.indexed {call : Call} (step : Step env e call t) (indexed : e.Indexed) : t.Indexed := by
  cases step with
  | starts => exact (indexed_startJobPlan _ _).after indexed
  | executes => exact (lasting_indexed.enduring.executeJobPlanNode _ _ _).after indexed
  | handles => exact (lasting_indexed.enduring.handlejobProgress _ _).after indexed
  | sweeps => exact lasting_indexed.enduring.autoTimeOutHandlejobProgress.after indexed
  | elsewhere other =>
    refine indexed.of_store (indexed.numbered.of_same other.xjobStates other.lastXjobStateID) fun key => .inl ?_
    rw [other.workflowsMap]
  | restarts restarted =>
    refine ⟨indexed.numbered.of_same restarted.xjobStates restarted.lastXjobStateID, fun key n registered => ?_⟩
    rw [restarted.workflowsMap] at registered
    cases registered

theorem indexed_of_reachable {guard : Engine → Call → Prop} (reachable : Reachable (system env Booted) guard e) :
    e.Indexed := by
  apply reachable.invariant
  · intro e booted
    refine ⟨booted.numbered, fun key n registered => ?_⟩
    rw [booted.workflowsMap] at registered
    cases registered
  · exact fun _ _ _ indexed _ step => step.indexed indexed

end Engine

end Hella
