import Hella.Control.Apart

/-!
# Which instances are registered

A call of `completeJobPlanNode` leaves the registered runs alone or takes off the map the
key of the run that it has ended. So an instance that was registered and has not reached
an end state is found under its key, as long as no two instances have the same key.
-/
namespace Hella

open Exec

section Instances

variable {env : Env} {wf : Workflow}

/-- Before its end a run leaves the map alone. -/
theorem tread_runs (env : Env) (wf : Workflow) (runs : JMap Nat) :
    Tread env wf (fun s => s.workflowsMap = runs) (fun _ => True) (fun _ => True) fun _ => True where
  unsaved := trivial
  leads _ _ _ _ _ _ _ := trivial
  asks _ same := same
  inserts _ _ same _ := ⟨same, trivial⟩
  updates _ _ same _ := same
  reads _ _ _ _ _ := trivial
  fails _ _ _ same _ _ := same
  marks _ _ _ _ same := same
  dispatches _ _ _ _ same := same
  produces _ _ _ same _ _ _ _ := same

/-- The map is the given one, or the run has ended and its key is off the map. -/
def Unlisted (wf : Workflow) (runs : JMap Nat) (s : Run) : Prop :=
  s.store.workflowsMap = runs ∨ s.status.isEndState = true ∧ s.store.workflowsMap = runs.erase wf.getWorkflowKey

theorem completeJobPlanNode_unlisted (env : Env) (wf : Workflow) (name : String) (context : NodeContext) (s : Run) :
    Unlisted wf s.store.workflowsMap (after (completeJobPlanNode env wf name context s)) := by
  have runs := tread_runs env wf s.store.workflowsMap
  have ends : Triple (On fun t => t.workflowsMap = s.store.workflowsMap) (completeJobPlanNode env wf name context)
      (fun _ => Unlisted wf s.store.workflowsMap) fun _ => Unlisted wf s.store.workflowsMap := by
    have before {α : Type} {x : RunM α} (keeps : Keeps (On fun t => t.workflowsMap = s.store.workflowsMap) x) :
        Triple (On fun t => t.workflowsMap = s.store.workflowsMap) x
          (fun _ => On fun t => t.workflowsMap = s.store.workflowsMap) fun _ => Unlisted wf s.store.workflowsMap :=
      keeps.conseq (fun _ same => same) (fun _ _ same => same) fun _ _ same => .inl same
    refine (before (Tread.record _)).bind fun _ => ?_
    refine (before (runs.completing (fun _ => trivial) name fun _ _ => trivial)).bind fun _ => ?_
    intro t (same : t.store.workflowsMap = s.store.workflowsMap)
    cases ended : t.status.isEndState
    · rw [bind_apply, get_apply]
      simp only [ended, Bool.false_eq_true, if_false]
      exact .inl same
    · rw [bind_apply, get_apply]
      simp only [ended, if_true]
      exact .inr ⟨ended, congrArg (AList.erase _) same⟩
  exact ends.after rfl

/-- An end state is not left for another kind of state. -/
theorem completeJobPlanNode_ended (name : String) (context : NodeContext) {s : Run}
    (ended : s.status.isEndState = true) :
    (after (completeJobPlanNode env wf name context s)).status.isEndState = true := by
  have keeps := keeps_completeJobPlanNode_ended (I := fun s : Run => s.status.isEndState = true) env wf name context
    (fun _ ended => ended) (fun _ _ ended => ended) ⟨fun _ _ _ _ _ ended => ended, fun _ _ _ _ ended => ended⟩
    (fun _ ended => ended) (Keeps.modifying fun _ _ => rfl)
  exact keeps.after ended

end Instances

namespace Engine

variable {env : Env} {registered : List Nat} {e : Engine}

/-- No two instances have the same run key. -/
def DistinctKeys (e : Engine) : Prop := (e.instances.map (·.workflow.getWorkflowKey)).Nodup

theorem DistinctKeys.eq (distinct : e.DistinctKeys) {m n : Nat} {i j : Instance} (first : e.instances[m]? = some i)
    (second : e.instances[n]? = some j) (same : i.workflow.getWorkflowKey = j.workflow.getWorkflowKey) : m = n := by
  have place {k : Nat} {x : Instance} (there : e.instances[k]? = some x) :
      (e.instances.map (·.workflow.getWorkflowKey))[k]? = some x.workflow.getWorkflowKey := by
    rw [List.getElem?_map, there]
    rfl
  have bound : m < (e.instances.map (·.workflow.getWorkflowKey)).length := by
    rw [List.length_map]
    exact (List.getElem?_eq_some_iff.mp first).1
  exact (List.getElem?_inj bound distinct).mp ((place first).trans ((congrArg some same).trans (place second).symm))

theorem DistinctKeys.of_plans {t : Engine} (distinct : t.DistinctKeys)
    (plans : t.instances.map (·.workflow) = e.instances.map (·.workflow)) : e.DistinctKeys := by
  have keys := congrArg (List.map Workflow.getWorkflowKey) plans
  rw [List.map_map, List.map_map] at keys
  exact (congrArg List.Nodup keys).mp distinct

/-- The instances with the given numbers have been registered. Those that live are found under
their keys, and nothing else is. -/
structure Registry (registered : List Nat) (e : Engine) : Prop where
  known : ∀ n ∈ registered, n < e.instances.length
  runs : ∀ key n, e.store.workflowsMap.lookup key = some n →
    n ∈ registered ∧ ∃ i, e.instances[n]? = some i ∧ i.workflow.getWorkflowKey = key
  live : ∀ n ∈ registered, ∀ i, e.instances[n]? = some i → i.status.isEndState = false →
    e.store.workflowsMap.lookup i.workflow.getWorkflowKey = some n

namespace Registry

/-- The same runs are listed, and the instances have the plans and the statuses they had. -/
theorem of_same (registry : Registry registered e) {t : Engine} (runs : t.store.workflowsMap = e.store.workflowsMap)
    (instances : t.instances.map (fun i => (i.workflow, i.status)) = e.instances.map fun i => (i.workflow, i.status)) :
    Registry registered t := by
  have places (m : Nat) : t.instances[m]?.map (fun i => (i.workflow, i.status)) =
      e.instances[m]?.map fun i => (i.workflow, i.status) := by
    rw [← List.getElem?_map, instances, List.getElem?_map]
  refine ⟨fun n member => ?_, fun key n listed => ?_, fun n member i place lives => ?_⟩
  · have length := congrArg List.length instances
    rw [List.length_map, List.length_map] at length
    exact length ▸ registry.known n member
  · obtain ⟨member, i, place, own⟩ := registry.runs key n (runs ▸ listed)
    have same := places n
    rw [place] at same
    obtain ⟨j, there, equal⟩ := Option.map_eq_some_iff.mp same
    exact ⟨member, j, there, (congrArg (·.1.getWorkflowKey) equal).trans own⟩
  · have same := places n
    rw [place] at same
    obtain ⟨j, there, equal⟩ := Option.map_eq_some_iff.mp same.symm
    have own : j.workflow.getWorkflowKey = i.workflow.getWorkflowKey := congrArg (·.1.getWorkflowKey) equal
    rw [runs, ← own]
    exact registry.live n member j there ((congrArg (·.2.isEndState) equal).trans lives)

theorem getWorkflow? (registry : Registry registered e) {n : Nat} {i : Instance} (member : n ∈ registered)
    (there : e.instances[n]? = some i) (lives : i.status.isEndState = false) :
    e.getWorkflow? i.workflow.getWorkflowKey = some (n, i) := by
  rw [Engine.getWorkflow?, registry.live n member i there lives, Option.bind_some, there]
  rfl

/-- What is found is registered and has the key. -/
theorem found (registry : Registry registered e) {key : String} {n : Nat} {i : Instance}
    (there : e.getWorkflow? key = some (n, i)) :
    n ∈ registered ∧ e.instances[n]? = some i ∧ i.workflow.getWorkflowKey = key := by
  obtain ⟨m, listed, place⟩ := Option.bind_eq_some_iff.mp there
  obtain ⟨j, placed, same⟩ := Option.map_eq_some_iff.mp place
  cases same
  obtain ⟨member, k, again, own⟩ := registry.runs key _ listed
  obtain rfl := Option.some.inj (placed.symm.trans again)
  exact ⟨member, placed, own⟩

/-- A call of an instance changes no other. When it ends the run, the key goes. -/
theorem completes (registry : Registry registered e) (distinct : e.DistinctKeys) {n : Nat} {i : Instance}
    (there : e.instances[n]? = some i) {s : Run} (unlisted : Unlisted i.workflow e.store.workflowsMap s)
    (ended : i.status.isEndState = true → s.status.isEndState = true) : Registry registered (e.save n i s) := by
  have bound := (List.getElem?_eq_some_iff.mp there).1
  have places (m : Nat) : (e.save n i s).instances[m]? = if n = m then some (i.save s) else e.instances[m]? := by
    rw [save, List.getElem?_set]
    by_cases same : n = m
    · simp [← same, bound]
    · rw [if_neg same, if_neg same]
  refine ⟨fun m member => ?_, fun key m listed => ?_, fun m member j place lives => ?_⟩
  · simpa [save] using registry.known m member
  · -- what is listed now was listed before
    have before : e.store.workflowsMap.lookup key = some m := by
      obtain same | ⟨-, same⟩ := unlisted
      · rw [← same]
        exact listed
      · have kept : (e.store.workflowsMap.erase i.workflow.getWorkflowKey).lookup key = some m := same ▸ listed
        by_cases own : key = i.workflow.getWorkflowKey
        · rw [own, AList.lookup_erase] at kept
          cases kept
        · rwa [AList.lookup_erase_ne own] at kept
    obtain ⟨member, j, place, own⟩ := registry.runs key m before
    rw [places]
    split
    next same =>
      obtain rfl := same
      obtain rfl := Option.some.inj (there.symm.trans place)
      exact ⟨member, _, rfl, own⟩
    · exact ⟨member, j, place, own⟩
  · rw [places] at place
    split at place
    next same =>
      obtain rfl := same
      obtain rfl := Option.some.inj place
      -- the run goes on, so its key stays and it lived before
      obtain same | ⟨finished, -⟩ := unlisted
      · refine (congrArg (AList.lookup _) same).trans (registry.live n member i there ?_)
        by_contra finished
        exact absurd (ended (by simpa using finished)) (by simp [show s.status.isEndState = false from lives])
      · exact absurd finished (by simp [show s.status.isEndState = false from lives])
    next other =>
      have before := registry.live m member j place lives
      obtain same | ⟨-, same⟩ := unlisted
      · exact (congrArg (AList.lookup _) same).trans before
      · have foreign : j.workflow.getWorkflowKey ≠ i.workflow.getWorkflowKey :=
          fun same => other (distinct.eq there place same.symm)
        exact (congrArg (AList.lookup _) same).trans ((AList.lookup_erase_ne foreign).trans before)

end Registry

/-- As long as run keys differ, calls of the managers keep the registry right. -/
theorem enduring_registry : Enduring env fun e => e.DistinctKeys → Registry registered e where
  spends _ runs := by
    refine Keeps.of_after fun e holds => ?_
    have same := (runs e.store.workflowsMap).after rfl
    rw [onShared_apply]
    split
    next ended =>
      rw [ended] at same
      exact fun distinct => (holds distinct).of_same same rfl
    next ended =>
      rw [ended] at same
      exact fun distinct => (holds distinct).of_same same rfl
  notices e t noticed holds distinct := (holds distinct).of_same (by rw [noticed.rest]) rfl
  forgets e eventID holds distinct := (holds distinct).of_same rfl rfl
  kills cluster eventID := by
    intro e holds
    rw [killJobHandle, Store.doDispatch, onShared_modify]
    dsimp only
    split
    · exact fun distinct => (holds distinct).of_same rfl rfl
    · exact holds
  -- flags change neither the plans nor the statuses, so the registry is that of before
  flags e n f flags holds distinct := by
    have same : (e.instances.modify n f).map (fun i => (i.workflow, i.status)) =
        e.instances.map fun i => (i.workflow, i.status) := by
      apply List.ext_getElem?
      intro m
      rw [List.getElem?_map, List.getElem?_modify, List.getElem?_map]
      cases e.instances[m]? with
      | none => rfl
      | some i =>
        obtain ⟨timeOut, hasAlarm, changed⟩ := flags i
        by_cases own : n = m <;> simp [own, changed]
    have plans := congrArg (List.map Prod.fst) same
    rw [List.map_map, List.map_map] at plans
    exact (holds (distinct.of_plans plans)).of_same rfl same
  completes n name context := by
    refine Keeps.of_after fun e holds distinct => ?_
    have before := distinct.of_plans (plans_onInstance n _ e)
    cases there : e.instances[n]? with
    | none =>
      simp only [onInstance, there, after_error]
      -- a run that has ended is taken out of the map by the report that ends it
      exact holds before
    | some i =>
      have unlisted := completeJobPlanNode_unlisted env i.workflow name context (i.run e.store)
      have ended := @completeJobPlanNode_ended env i.workflow name context (i.run e.store)
      have saved := (holds before).completes before there unlisted ended
      rw [onInstance_apply there]
      cases same : completeJobPlanNode env i.workflow name context (i.run e.store) <;>
        rw [same] at saved <;> exact saved

end Engine

end Hella
