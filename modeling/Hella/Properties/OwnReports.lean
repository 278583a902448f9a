import Hella.Control.Inert
import Hella.Control.Registry
import Hella.Lib.Runs

/-!
# Reports that come before the registration

`startJobPlan` enters the first nodes and dispatches their jobs before it calls
`addWorkflow`. A result that comes in between finds no workflow and is answered with a
KILL_JOB event, although the workflow lives. From its registration on a living workflow is
found, and a result completes its node as long as the event has its entry.
-/
namespace Hella

open Exec Runs

/-- Up to this request `generateID` has returned readings of a clock that goes forward and
has a fixed number of digits. -/
structure Env.Clock (env : Env) (tick : Nat) : Prop where
  distinct : ∀ m n, m < tick → n < tick → env.generateID m = env.generateID n → m = n
  digits : ∀ m n, m < tick → n < tick →
    (toString (env.generateID m)).length = (toString (env.generateID n)).length

namespace Engine

variable {env : Env} {e t : Engine}

/-! ### The two halves of `startJobPlan` -/

section Managers

variable (env : Env)

/-- `startJobPlan` up to the call of `addWorkflow`, with what that call is still to be given. -/
def beginJobPlan (id : Nat) (args : Option String) : EngineM (Option (String × Nat)) := do
  match ← onShared (Store.loadJobExecutionPlan env id) with
  | none => return none
  | some plan =>
    match accepted : addNode plan.jobPlanNodeList [] false with
    | .error e => throw e
    | .ok () =>
      let key ← onShared (Store.generateID env)
      let workflow : Workflow := { workflowManager := ⟨plan, accepted⟩, engineRunKey := key, args := args }
      let n ← modifyGet fun e => (e.instances.length, { e with instances := e.instances ++ [{ workflow := workflow }] })
      onInstance n (start env)
      return some (workflow.getWorkflowKey, n)

end Managers

def registerWorkflow : Option (String × Nat) → EngineM Unit
  | none => pure ()
  | some (key, n) => onShared (Store.addWorkflow key n)

theorem registerWorkflow_instances (started : Option (String × Nat)) (e : Engine) :
    (after (registerWorkflow started e)).instances = e.instances := by
  cases started <;> rfl

theorem addNode_bind {α β : Type} (nodes : List JobPlanNode) (f : Throwable → EngineM α)
    (g : addNode nodes [] false = .ok () → EngineM α) (k : α → EngineM β) :
    (match accepted : addNode nodes [] false with | .error e => f e | .ok () => g accepted) >>= k =
      match accepted : addNode nodes [] false with | .error e => f e >>= k | .ok () => g accepted >>= k := by
  split <;> rfl

theorem startJobPlan_eq (id : Nat) (args : Option String) :
    startJobPlan env id args = beginJobPlan env id args >>= registerWorkflow := by
  unfold startJobPlan beginJobPlan
  rw [bind_assoc]
  congr 1
  funext found
  cases found with
  | none => rfl
  | some plan =>
    refine Eq.trans ?_ (addNode_bind _ _ _ _).symm
    simp only [bind_assoc, pure_bind, registerWorkflow]
    rfl

/-! ### Keys that differ -/

/-- The run keys were drawn with different requests. -/
def Drawn (env : Env) (e : Engine) : Prop :=
  ∃ ticks : List Nat, ticks.Nodup ∧ (∀ k ∈ ticks, k < e.store.tick) ∧
    e.instances.map (·.workflow.engineRunKey) = ticks.map env.generateID

theorem Drawn.distinctKeys (drawn : Drawn env e) (clock : env.Clock e.store.tick) : e.DistinctKeys := by
  obtain ⟨ticks, nodup, past, keys⟩ := drawn
  have numbers : (e.instances.map (·.workflow.engineRunKey)).Nodup := by
    rw [keys]
    exact nodup.map_on fun m member n other same => clock.distinct m n (past m member) (past n other) same
  have drawnAt (i : Instance) (member : i ∈ e.instances) :
      ∃ k < e.store.tick, env.generateID k = i.workflow.engineRunKey := by
    have inside : i.workflow.engineRunKey ∈ ticks.map env.generateID := keys ▸ List.mem_map_of_mem member
    obtain ⟨k, listed, same⟩ := List.mem_map.mp inside
    exact ⟨k, past k listed, same⟩
  refine List.pairwise_map.mpr ((List.pairwise_map.mp numbers).imp_of_mem ?_)
  intro i j memberI memberJ differ same
  apply differ
  obtain ⟨m, before, isI⟩ := drawnAt i memberI
  obtain ⟨n, before', isJ⟩ := drawnAt j memberJ
  -- the numbers have as many digits, so the plan ids begin at the same place
  have digits := clock.digits m n before before'
  rw [isI, isJ] at digits
  have texts := congrArg String.toList same
  simp only [Workflow.getWorkflowKey, String.toList_append] at texts
  have numerals := (List.append_inj texts (by rwa [String.length_toList, String.length_toList])).1
  have equal : toString i.workflow.engineRunKey = toString j.workflow.engineRunKey := String.toList_inj.mp numerals
  exact Text.toString_inj equal

/-- The same instances run the same plans, and no time was taken back. -/
structure Continues (e t : Engine) : Prop where
  plans : t.instances.map (·.workflow) = e.instances.map (·.workflow)
  later : e.store.tick ≤ t.store.tick

namespace Continues

theorem of_store (before : Continues e t) {s : Store} (later : t.store.tick ≤ s.tick) :
    Continues e { t with store := s } := ⟨before.plans, before.later.trans later⟩

theorem drawn (continues : Continues e t) (drawn : Drawn env e) : Drawn env t := by
  obtain ⟨ticks, nodup, past, keys⟩ := drawn
  refine ⟨ticks, nodup, fun k member => (past k member).trans_le continues.later, ?_⟩
  have same := congrArg (List.map Workflow.engineRunKey) continues.plans
  rw [List.map_map, List.map_map] at same
  exact same.trans keys

theorem reference (continues : Continues e t) {n : Nat} {key : String}
    (there : ∃ i, e.instances[n]? = some i ∧ i.workflow.getWorkflowKey = key) :
    ∃ i, t.instances[n]? = some i ∧ i.workflow.getWorkflowKey = key := by
  obtain ⟨i, place, own⟩ := there
  have same := congrArg (·[n]?) continues.plans
  simp only [List.getElem?_map, place, Option.map_some] at same
  obtain ⟨j, now, equal⟩ := Option.map_eq_some_iff.mp same
  exact ⟨j, now, equal ▸ own⟩

end Continues

theorem later_write {s s' : Store} (write : Store.Write env s s') : s.tick ≤ s'.tick := by
  cases write <;> first | exact le_rfl | exact Nat.le_succ _

theorem later_writes {s s' : Store} (writes : Store.Writes env s s') : s.tick ≤ s'.tick :=
  writes.related (R := fun s s' => s.tick ≤ s'.tick) (fun _ => le_rfl) Nat.le_trans fun _ _ => later_write

theorem onInstance_later {α : Type} (n : Nat) {body : Workflow → RunM α}
    (writes : ∀ wf s, Keeps (Wrote env s) (body wf)) (e : Engine) :
      e.store.tick ≤ (after (onInstance n body e)).store.tick := by
  cases there : e.instances[n]? with
  | none => simp only [onInstance, there, after_error, le_rfl]
  | some i =>
    have wrote := (writes i.workflow e.store).after (s := i.run e.store) .refl
    rw [onInstance_apply there]
    cases same : body i.workflow (i.run e.store) <;> rw [same] at wrote <;> exact later_writes wrote

theorem enduring_continues (e : Engine) : Enduring env (Continues e) where
  spends spends _ := by
    refine Keeps.of_after fun t before => ?_
    have writes := (spends t.store).keeps.after .refl
    rw [onShared_apply]
    split
    next ended =>
      rw [ended] at writes
      exact before.of_store (later_writes writes)
    next ended =>
      rw [ended] at writes
      exact before.of_store (later_writes writes)
  notices t s noticed before := before.of_store noticed.later
  forgets t eventID before := before.of_store le_rfl
  kills cluster eventID := by
    intro t before
    rw [killJobHandle, Store.doDispatch, onShared_modify]
    dsimp only
    split
    · exact before.of_store le_rfl
    · exact before
  flags t n f flags before := by
    -- flags are not part of a run's plan, so the plans stay the same one by one
    refine ⟨Eq.trans ?_ before.plans, before.later⟩
    apply List.ext_getElem?
    intro m
    rw [List.getElem?_map, List.getElem?_modify, List.getElem?_map]
    cases t.instances[m]? with
    | none => rfl
    | some i =>
      obtain ⟨timeOut, hasAlarm, changed⟩ := flags i
      by_cases own : n = m <;> simp [own, changed]
  completes n name context := by
    refine Keeps.of_after fun t before => ⟨(plans_onInstance n _ t).trans before.plans, before.later.trans ?_⟩
    exact onInstance_later n (fun wf s => (wrote_complete name context : Keeps (Wrote env s) _)) t

/-! ### What a start leaves -/

/-- There is at most one more instance, with a key of its own, and nothing is registered yet. -/
structure Begun (env : Env) (e : Engine) (started : Option (String × Nat)) (t : Engine) : Prop where
  runs : t.store.workflowsMap = e.store.workflowsMap
  later : e.store.tick ≤ t.store.tick
  instances : t.instances = e.instances ∨ ∃ i k, t.instances = e.instances ++ [i] ∧ e.store.tick ≤ k ∧
    k < t.store.tick ∧ i.workflow.engineRunKey = env.generateID k
  reference : ∀ key n, started = some (key, n) → ∃ i, t.instances[n]? = some i ∧ i.workflow.getWorkflowKey = key

/-- Nothing but tables and times has changed so far. -/
structure Idle (e t : Engine) : Prop where
  runs : t.store.workflowsMap = e.store.workflowsMap
  later : e.store.tick ≤ t.store.tick
  instances : t.instances = e.instances

theorem Idle.begun (idle : Idle e t) : Begun env e none t :=
  ⟨idle.runs, idle.later, .inl idle.instances, fun _ _ absurd => by cases absurd⟩

theorem idle_spends {α : Type} {body : StoreM α} (spends : ∀ s, Store.Spends env s body) (runs : Store.KeepsRuns body) :
    Keeps (Idle e) (onShared body) := by
  refine Keeps.of_after fun t idle => ?_
  have writes := (spends t.store).keeps.after .refl
  have same := (runs t.store.workflowsMap).after rfl
  rw [onShared_apply]
  split
  next ended =>
    rw [ended] at writes same
    exact ⟨same.trans idle.runs, idle.later.trans (later_writes writes), idle.instances⟩
  next ended =>
    rw [ended] at writes same
    exact ⟨same.trans idle.runs, idle.later.trans (later_writes writes), idle.instances⟩

theorem Begun.none {started : Option (String × Nat)} (begun : Begun env e started t) : Begun env e none t :=
  ⟨begun.runs, begun.later, begun.instances, fun _ _ absurd => by cases absurd⟩

/-- The new instance is the last one, and its start leaves the map alone. -/
structure Created (env : Env) (e : Engine) (workflow : Workflow) (t : Engine) : Prop where
  runs : t.store.workflowsMap = e.store.workflowsMap
  later : e.store.tick ≤ t.store.tick
  instances : ∃ i, t.instances = e.instances ++ [i] ∧ i.workflow = workflow
  key : ∃ k, e.store.tick ≤ k ∧ k < t.store.tick ∧ workflow.engineRunKey = env.generateID k

namespace Created

variable {workflow : Workflow}

theorem begun (created : Created env e workflow t) :
    Begun env e (some (workflow.getWorkflowKey, e.instances.length)) t := by
  obtain ⟨i, grown, same⟩ := created.instances
  obtain ⟨k, after, before, drawn⟩ := created.key
  refine ⟨created.runs, created.later, .inr ⟨i, k, grown, after, before, same ▸ drawn⟩, fun key n given => ?_⟩
  cases given
  exact ⟨i, by rw [grown, List.getElem?_concat_length], by rw [same]⟩

theorem start (e : Engine) (workflow : Workflow) :
    Keeps (Created env e workflow) (onInstance e.instances.length (start env)) := by
  refine Keeps.of_after fun t created => ?_
  have runs := (tread_runs env workflow t.store.workflowsMap).start fun _ _ => trivial
  have later :=
    onInstance_later e.instances.length (fun wf s => (wrote_start : Keeps (Wrote env s) (Hella.start env wf))) t
  obtain ⟨i, grown, rfl⟩ := created.instances
  obtain ⟨k, after_, before, drawn⟩ := created.key
  have there : t.instances[e.instances.length]? = some i := by rw [grown, List.getElem?_concat_length]
  have same := runs.after (s := i.run t.store) rfl
  refine ⟨?_, created.later.trans later, ?_, k, after_, before.trans_le later, drawn⟩
  · rw [onInstance_apply there]
    cases ended : Hella.start env i.workflow (i.run t.store) <;> rw [ended] at same <;> exact same.trans created.runs
  · have set (s : Run) : (t.save e.instances.length i s).instances = e.instances ++ [i.save s] := by
      simp [save, grown]
    rw [onInstance_apply there]
    cases Hella.start env i.workflow (i.run t.store) <;> exact ⟨_, set _, rfl⟩

end Created

theorem beginJobPlan_begun (id : Nat) (args : Option String) :
    Triple (Idle e) (beginJobPlan env id args) (fun started t => Begun env e started t) fun _ t =>
      Begun env e none t := by
  have idle {α : Type} {x : EngineM α} (keeps : Keeps (Idle e) x) :
      Triple (Idle e) x (fun _ => Idle e) fun _ t => Begun env e none t :=
    keeps.conseq (fun _ holds => holds) (fun _ _ holds => holds) fun _ _ holds => holds.begun
  refine (idle (idle_spends (fun _ => Store.writes_loadJobExecutionPlan id)
    (Store.runs_loadJobExecutionPlan id))).bind ?_
  intro found
  cases found with
  | none => exact Triple.pure fun _ holds => holds.begun
  | some plan =>
    dsimp only
    split
    · exact Triple.throw fun _ holds => holds.begun
    next accepted =>
      -- the key is drawn, the instance is created with it, and only then is it started
      let Keyed (key : Nat) (t : Engine) := ∃ k, e.store.tick ≤ k ∧ k < t.store.tick ∧ key = env.generateID k
      refine Triple.bind (Q := fun key t => Idle e t ∧ Keyed key t) (fun t holds => ?_) fun key => ?_
      · have later := holds.later.trans (Nat.le_succ _)
        exact ⟨⟨holds.runs, later, holds.instances⟩, _, holds.later, Nat.lt_succ_self _, rfl⟩
      · generalize same :
          ({ workflowManager := ⟨plan, accepted⟩, engineRunKey := key, args := args } : Workflow) = workflow
        refine Triple.bind (Q := fun n t => n = e.instances.length ∧ Created env e workflow t) ?_ fun n => ?_
        · rintro t ⟨holds, drawn⟩
          refine ⟨congrArg _ holds.instances, holds.runs, holds.later, ⟨_, congrArg (· ++ _) holds.instances, rfl⟩, ?_⟩
          rw [← same]
          exact drawn
        · refine Triple.of_imp (p := n = e.instances.length) (fun last => ?_) fun _ holds => holds.1
          subst last
          refine Triple.bind (Q := fun _ => Created env e workflow) ?_ fun _ => ?_
          · exact (Created.start e workflow).conseq (fun _ holds => holds.2) (fun _ _ holds => holds)
              fun _ _ holds => holds.begun.none
          · exact Triple.pure fun _ created => created.begun

end Engine

/-! ### Starts, heartbeats and sweeps in any order -/

/-- The engine, the starts that have still to call `addWorkflow`, and the numbers of the instances for
which it has been called. -/
structure Launching where
  engine : Engine
  pending : List (String × Nat) := []
  registered : List Nat := []

namespace Launching

open Engine

inductive Action where
  | startJobPlan (id : Nat) (args : Option String)
  | addWorkflow (key : String) (n : Nat)
  | getJobEvents (cluster : String)
  | handlejobProgress (cluster : String) (jobProgress : JobProgress)
  | autoTimeOutHandlejobProgress
  | executeJobPlanNode (id : Nat) (type : XjobExecutorType) (args : Option String)
  | elsewhere (s : Store)

inductive Step (env : Env) : Launching → Action → Launching → Prop where
  | begins {w id args started e} (ran : beginJobPlan env id args w.engine = .ok started e) :
    Step env w (.startJobPlan id args) { w with engine := e, pending := w.pending ++ started.toList }
  /-- a start that throws never comes to `addWorkflow` -/
  | fails {w id args t e} (threw : beginJobPlan env id args w.engine = .error t e) :
    Step env w (.startJobPlan id args) { w with engine := e }
  | registers {w key n} (waiting : (key, n) ∈ w.pending) :
    Step env w (.addWorkflow key n)
      { engine := after (registerWorkflow (some (key, n)) w.engine)
        pending := w.pending.erase (key, n)
        registered := n :: w.registered }
  | fetches {w cluster} :
    Step env w (.getJobEvents cluster)
      { w with engine := after (onShared (Store.getJobEventsByExecutorClusterID cluster) w.engine) }
  | handles {w cluster jobProgress} :
    Step env w (.handlejobProgress cluster jobProgress)
      { w with engine := after (Engine.handlejobProgress env cluster jobProgress w.engine) }
  | sweeps {w} :
    Step env w .autoTimeOutHandlejobProgress
      { w with engine := after (Engine.autoTimeOutHandlejobProgress env w.engine) }
  | executes {w id type args} :
    Step env w (.executeJobPlanNode id type args)
      { w with engine := after (Engine.executeJobPlanNode env id type args w.engine) }
  | elsewhere {w s} (other : Elsewhere w.engine.store s) :
    Step env w (.elsewhere s) { w with engine := { w.engine with store := s } }

/-- The engine has just been started. -/
structure Initial (w : Launching) : Prop where
  instances : w.engine.instances = []
  workflowsMap : w.engine.store.workflowsMap = ∅
  pending : w.pending = []
  registered : w.registered = []

def system (env : Env) : System Launching Action := ⟨Initial, Step env⟩

variable {env : Env} {w w' : Launching}

/-- What is true in every state. -/
structure Invariant (env : Env) (w : Launching) : Prop where
  drawn : Drawn env w.engine
  registry : w.engine.DistinctKeys → Registry w.registered w.engine
  pending : ∀ key n, (key, n) ∈ w.pending → ∃ i, w.engine.instances[n]? = some i ∧ i.workflow.getWorkflowKey = key

namespace Invariant

theorem initially (initial : Initial w) : Invariant env w where
  drawn := ⟨[], List.nodup_nil, by simp, by simp [initial.instances]⟩
  registry _ := by
    refine ⟨by simp [initial.registered], fun key n listed => ?_, by simp [initial.registered]⟩
    rw [initial.workflowsMap] at listed
    cases listed
  pending := by simp [initial.pending]

/-- Calls of the managers that start nothing. -/
theorem called (invariant : Invariant env w) {α : Type} {x : EngineM α}
    (keeps : ∀ J, Enduring env J → Keeps J x) : Invariant env { w with engine := after (x w.engine) } := by
  have continues := (keeps _ (enduring_continues w.engine)).after ⟨rfl, le_rfl⟩
  refine ⟨continues.drawn invariant.drawn, (keeps _ enduring_registry).after invariant.registry,
    fun key n waiting => ?_⟩
  exact continues.reference (invariant.pending key n waiting)

theorem begun (invariant : Invariant env w) {started : Option (String × Nat)} {e : Engine}
    (begun : Begun env w.engine started e) :
    Invariant env { w with engine := e, pending := w.pending ++ started.toList } := by
  have places (n : Nat) {i : Instance} (there : w.engine.instances[n]? = some i) : e.instances[n]? = some i := by
    obtain same | ⟨j, k, grown, -⟩ := begun.instances
    · rwa [same]
    · rw [grown, List.getElem?_append_left (List.getElem?_eq_some_iff.mp there).1, there]
  -- the new run draws its key when it begins and waits to be registered
  refine ⟨?_, fun distinct => ?_, fun key n waiting => ?_⟩
  · obtain ⟨ticks, nodup, past, keys⟩ := invariant.drawn
    obtain same | ⟨j, k, grown, after_, before, drawn⟩ := begun.instances
    · exact ⟨ticks, nodup, fun k member => (past k member).trans_le begun.later, by rw [same, keys]⟩
    · refine ⟨ticks ++ [k], ?_, fun m member => ?_, by simp [grown, keys, drawn]⟩
      · -- the new request comes after all those before
        refine nodup.append (List.nodup_singleton k) fun m inside new => ?_
        obtain rfl := List.mem_singleton.mp new
        exact absurd (past m inside) (Nat.not_lt.mpr after_)
      · obtain inside | new := List.mem_append.mp member
        · exact (past m inside).trans_le begun.later
        · exact List.mem_singleton.mp new ▸ before
  · have before : w.engine.DistinctKeys := by
      -- if the keys are distinct with the new run they were distinct without it
      obtain same | ⟨j, k, grown, -⟩ := begun.instances
      · rwa [DistinctKeys, same] at distinct
      · rw [DistinctKeys, grown, List.map_append] at distinct
        exact distinct.of_append_left
    have registry := invariant.registry before
    have known (n : Nat) (member : n ∈ w.registered) : ∃ i, w.engine.instances[n]? = some i :=
      ⟨_, List.getElem?_eq_getElem (registry.known n member)⟩
    refine ⟨fun n member => ?_, fun key n listed => ?_, fun n member i place lives => ?_⟩
    · obtain ⟨i, there⟩ := known n member
      exact (List.getElem?_eq_some_iff.mp (places n there)).1
    · obtain ⟨member, i, place, own⟩ := registry.runs key n (begun.runs ▸ listed)
      exact ⟨member, i, places n place, own⟩
    · obtain ⟨j, there⟩ := known n member
      obtain rfl := Option.some.inj ((places n there).symm.trans place)
      exact (congrArg (AList.lookup _) begun.runs).trans (registry.live n member j there lives)
  · obtain old | new := List.mem_append.mp waiting
    · obtain ⟨i, place, own⟩ := invariant.pending key n old
      exact ⟨i, places n place, own⟩
    · exact begun.reference key n (Option.mem_toList.mp new)

theorem registers (invariant : Invariant env w) {key : String} {n : Nat} (waiting : (key, n) ∈ w.pending) :
    Invariant env { engine := after (registerWorkflow (some (key, n)) w.engine), pending := w.pending.erase (key, n),
                    registered := n :: w.registered } := by
  obtain ⟨i, there, own⟩ := invariant.pending key n waiting
  refine ⟨invariant.drawn, fun distinct => ?_, fun key' m member =>
    invariant.pending key' m (List.mem_of_mem_erase member)⟩
  -- the new entry is the run that was waiting; the others keep theirs
  have registry := invariant.registry distinct
  refine ⟨fun m member => ?_, fun key' m listed => ?_, fun m member j place lives => ?_⟩
  · obtain rfl | old := List.mem_cons.mp member
    · exact (List.getElem?_eq_some_iff.mp there).1
    · exact registry.known m old
  · change (w.engine.store.workflowsMap.insert key n).lookup key' = some m at listed
    by_cases same : key' = key
    · subst same
      rw [AList.lookup_insert] at listed
      obtain rfl := Option.some.inj listed
      exact ⟨List.mem_cons_self, i, there, own⟩
    · rw [AList.lookup_insert_ne same] at listed
      obtain ⟨old, j, place, its⟩ := registry.runs key' m listed
      exact ⟨List.mem_cons_of_mem _ old, j, place, its⟩
  · change (w.engine.store.workflowsMap.insert key n).lookup _ = some m
    by_cases same : m = n
    · subst same
      obtain rfl := Option.some.inj (there.symm.trans place)
      rw [own, AList.lookup_insert]
    · have old : m ∈ w.registered := (List.mem_cons.mp member).resolve_left same
      -- two live runs have different keys, so the new entry hides no other run
      have foreign : j.workflow.getWorkflowKey ≠ key :=
        fun equal => same (distinct.eq place there (equal.trans own.symm))
      rw [AList.lookup_insert_ne foreign]
      exact registry.live m old j place lives

/-- Code outside the managers. -/
theorem outside (invariant : Invariant env w) {s : Store} (later : w.engine.store.tick ≤ s.tick)
    (runs : s.workflowsMap = w.engine.store.workflowsMap) :
    Invariant env { w with engine := { w.engine with store := s } } where
  drawn := by
    obtain ⟨ticks, nodup, past, keys⟩ := invariant.drawn
    exact ⟨ticks, nodup, fun k member => (past k member).trans_le later, keys⟩
  registry distinct := (invariant.registry distinct).of_same runs rfl
  pending := invariant.pending

theorem step {action : Action} (invariant : Invariant env w) (step : Step env w action w') : Invariant env w' := by
  cases step with
  | @begins id args _ _ ran => exact invariant.begun ((beginJobPlan_begun id args).ok ⟨rfl, le_rfl, rfl⟩ ran)
  | @fails id args _ _ threw =>
    have begun := (@beginJobPlan_begun env w.engine id args).error ⟨rfl, le_rfl, rfl⟩ threw
    simpa using invariant.begun begun
  | registers waiting => exact invariant.registers waiting
  | fetches => exact invariant.outside le_rfl rfl
  | handles => exact invariant.called fun J rule => rule.handlejobProgress _ _
  | sweeps => exact invariant.called fun J rule => rule.autoTimeOutHandlejobProgress
  | executes => exact invariant.called fun J rule => rule.executeJobPlanNode _ _ _
  | elsewhere other => exact invariant.outside other.later other.workflowsMap

theorem of_reachable {guard : Launching → Action → Prop} (reachable : Reachable (system env) guard w) :
    Invariant env w :=
  reachable.invariant (fun _ => initially) fun _ _ _ invariant _ step => invariant.step step

end Invariant

end Launching

/-! ### What becomes of a result -/

namespace Engine

variable {env : Env} {cluster name : String} {report : JobProgress} {state : JobPlanNodeState}
  {e t : Engine} {n id : Nat}
  {i : Instance}

/-- The KILL_JOB events queued for a cluster. -/
def kills (e : Engine) (cluster : String) : List JobEvent := (e.queued cluster).filter (·.eventType = .killJob)

/-- The report is handled by completing the node for the row, and no job is to be killed for it. -/
structure Completes (env : Env) (cluster : String) (report : JobProgress) (e : Engine) (n : Nat) (name : String)
    (id : Nat) : Prop where
  completing : ∃ i j, e.instances[n]? = some i ∧
    (after (handlejobProgress env cluster report e)).instances[n]? = some j ∧
      i.trace ++ [.completing name id] <+: j.trace
  kills : ∀ c, (after (handlejobProgress env cluster report e)).kills c = e.kills c

/-- The history of one instance has grown, the other instances are as before, and no job is to
be killed. -/
structure Informed (e : Engine) (n : Nat) (acts : List Act) (t : Engine) : Prop where
  own : ∃ j, t.instances[n]? = some j ∧ acts <+: j.trace
  others : ∀ m, m ≠ n → t.instances[m]? = e.instances[m]?
  kills : ∀ c, t.kills c = e.kills c

theorem Informed.of_store {acts : List Act} (told : Informed e n acts t) {s : Store}
    (same : s.jobEventsMap = t.store.jobEventsMap) : Informed e n acts { t with store := s } := by
  refine ⟨told.own, told.others, fun c => ?_⟩
  rw [← told.kills c, Engine.kills, queued, same]
  rfl

/-- Instances dispatch jobs to be executed, and none to be killed. -/
theorem kills_write {s s' : Store} (write : Store.Write env s s') (c : String) :
    ((s'.jobEventsMap.lookup c).getD []).filter (·.eventType = .killJob) =
      ((s.jobEventsMap.lookup c).getD []).filter (·.eventType = .killJob) := by
  cases write with
  | dispatches event info fresh type =>
    simp only [Store.dispatch]
    split
    · by_cases same : c = event.executorClusterID
      · subst same
        rw [AList.lookup_insert, Option.getD_some, List.filter_append]
        simp [type]
      · rw [AList.lookup_insert_ne same]
    · rfl
  | _ => rfl

theorem completes_informed (there : e.instances[n]? = some i) (name : String) (context : NodeContext) :
    Informed e n (i.trace ++ [.completing name context.xjobStateID])
      (after (onInstance n (fun wf => completeJobPlanNode env wf name context) e)) := by
  have stable := stable_grows env i.workflow (i.trace ++ [Act.completing name context.xjobStateID])
  have grows := (stable.completing name context (P := fun u => u = i.run e.store)
    fun u same => same ▸ List.prefix_rfl).after rfl
  have writes : Wrote env e.store (after (completeJobPlanNode env i.workflow name context (i.run e.store))) :=
    (wrote_complete name context).after .refl
  have told {s : Run} (grown : i.trace ++ [.completing name context.xjobStateID] <+: s.trace)
      (wrote : Wrote env e.store s) : Informed e n (i.trace ++ [.completing name context.xjobStateID])
        (e.save n i s) := by
    refine ⟨⟨_, save_there there s, grown⟩, fun m other => ?_, fun c => ?_⟩
    · rw [save, List.getElem?_set_ne (Ne.symm other)]
    · let toKill (s : Store) := ((s.jobEventsMap.lookup c).getD []).filter (·.eventType = .killJob)
      exact Store.Writes.related (R := fun s s' => toKill s' = toKill s) wrote (fun _ => rfl)
        (fun first second => second.trans first) fun _ _ write => kills_write write c
  rw [onInstance_apply there]
  cases same : completeJobPlanNode env i.workflow name context (i.run e.store) <;> rw [same] at grows writes <;>
    exact told grows writes

theorem handlejobProgress_informed {info : JobNodeRuningInfo} (reads : report.Reads .auto state)
    (result : state.isResultState = true) (found : e.runingInfo? report.eventID = some info)
    (registered : e.getWorkflow? info.workflowRunKey = some (n, i)) (there : e.instances[n]? = some i) :
    Informed e n (i.trace ++ [.completing info.jobNodeName info.xjobStateID])
      (after (handlejobProgress env cluster report e)) := by
  -- the report is about the flow, not one that the server answers aside
  have flow : ¬ Aside .auto state := by
    rintro (rfl | once)
    · cases result
    · cases once
  rw [handlejobProgress_result reads found flow registered result]
  let acts := i.trace ++ [Act.completing info.jobNodeName info.xjobStateID]
  -- notices are written to the store and leave the trace alone
  have quiet {body : StoreM Unit} (returns : ∀ s, Returns body s fun _ => Noticed s) :
      Keeps (Informed e n acts) (onShared body) := by
    refine Keeps.of_after fun t told => ?_
    obtain ⟨a, s, returned, noticed⟩ := returns t.store
    rw [onShared_apply, returned]
    exact told.of_store (by rw [noticed.rest])
  have forgets : Keeps (Informed e n acts) (onShared (Store.removeJobNodeRuningInfo report.eventID)) :=
    fun t told => told.of_store rfl
  -- what the trace shows is written first, before the alarms
  have completes : Triple (fun t => t = e) (completeJobProgress env cluster info.jobNodeName n
      { report with xjobStateID := info.xjobStateID } state) (fun _ => Informed e n acts) fun _ =>
        Informed e n acts := by
    refine Triple.bind (Q := fun _ => Informed e n acts) (Triple.of_after fun t same => ?_) fun _ => ?_
    · subst same
      exact completes_informed there info.jobNodeName
        { jobProgress := some { report with xjobStateID := info.xjobStateID } }
    · refine Keeps.getting.bind fun u => ?_
      split
      · exact Keeps.throw _
      · refine (quiet (alarmFailure_noticed env cluster _ _ _ _)).bind fun _ => ?_
        exact quiet (alarmLateSuccess_noticed env cluster _ _ _)
  exact (completes.bind fun _ => forgets).after rfl

end Engine

namespace Launching

open Engine

variable {env : Env} {w : Launching} {n : Nat} {i : Instance}

/-- A result for an event that a living workflow has dispatched completes the event's node if and
only if the workflow has been registered and the event still has its entry. -/
theorem completes_iff {guard : Launching → Action → Prop} (reachable : Reachable (system env) guard w)
    (clock : env.Clock w.engine.store.tick) (there : w.engine.instances[n]? = some i)
    (lives : i.status.isEndState = false) :
    ∀ name id event, .dispatched name id event ∈ i.trace → ∀ cluster report state, report.eventID = event.eventID →
      report.Reads .auto state → state.isResultState = true →
      (Completes env cluster report w.engine n name id ↔
        n ∈ w.registered ∧ w.engine.runingInfo? event.eventID = some ⟨name, id, i.workflow.getWorkflowKey⟩) := by
  intro name id event _ cluster report state own reads result
  have invariant := Invariant.of_reachable reachable
  have distinct := invariant.drawn.distinctKeys clock
  have registry := invariant.registry distinct
  rw [← own]
  constructor
  · rintro ⟨⟨j, k, place, now, grown⟩, -⟩
    obtain rfl := Option.some.inj (there.symm.trans place)
    -- an instance that is not told anything has the history it had
    have silent (same : (after (Engine.handlejobProgress env cluster report w.engine)).instances[n]? =
        w.engine.instances[n]?) : False := by
      obtain rfl := Option.some.inj (there.symm.trans (same ▸ now))
      have longer := grown.length_le
      rw [List.length_append] at longer
      exact absurd longer (Nat.not_succ_le_self _)
    have flow : ¬ Aside .auto state := by
      rintro (rfl | once)
      · cases result
      · cases once
    cases found : w.engine.runingInfo? report.eventID with
    | none =>
      rw [handlejobProgress_missing reads found] at now silent
      exact (silent rfl).elim
    | some info =>
      cases registered : w.engine.getWorkflow? info.workflowRunKey with
      | none =>
        obtain ⟨t, killed, kills⟩ := killed_of_kill cluster w.engine report.eventID
        rw [handlejobProgress_gone reads found flow registered, killed] at silent
        exact (silent (by rw [after_ok, kills.instances])).elim
      | some place =>
        obtain ⟨m, j⟩ := place
        obtain ⟨member, placed, key⟩ := registry.found registered
        have told :=
          @handlejobProgress_informed env cluster report state w.engine m j info reads result found registered
          placed
        by_cases same : n = m
        · subst same
          obtain rfl := Option.some.inj (there.symm.trans placed)
          -- the history goes on with one note, which names the node and the row of the entry
          obtain ⟨x, there', grown'⟩ := told.own
          obtain rfl := Option.some.inj (now.symm.trans there')
          have notes := List.prefix_of_prefix_length_le grown grown' (by simp)
          obtain ⟨rfl, rfl⟩ : name = info.jobNodeName ∧ id = info.xjobStateID := by
            simpa using notes.eq_of_length (by simp)
          exact ⟨member, by rw [key]⟩
        · exact (silent (told.others n same)).elim
  · rintro ⟨member, entry⟩
    have told := @handlejobProgress_informed env cluster report state w.engine n i _ reads result entry
      (registry.getWorkflow? member there lives) there
    obtain ⟨j, now, grown⟩ := told.own
    exact ⟨⟨i, j, there, now, grown⟩, told.kills⟩

/-! ### A job that is faster than its start -/

namespace Early

def stored : Launching := { engine := { store := { jobPlans := [Diamond.plan], executorRegisterDateMap := ["c"] } } }

/-- The action `a` has been dispatched. -/
def begun : Launching :=
  { engine := after (beginJobPlan Env.calm 1 none stored.engine), pending := [("10031", 0)] }

def started : Launching :=
  { engine := after (registerWorkflow (some ("10031", 0)) begun.engine), pending := [], registered := [0] }

def event : JobEvent :=
  Store.executeEvent "1270011014" (Diamond.action 2 "a" "f")
    { mode := "local", executionContent := "run.sh", jobClassName := "shell" } .auto none

def succeeded : JobProgress :=
  { executorType := "Auto", jobPlanNodeState := "RESULT_SUCCESS", progress := 100, eventID := "1270011014"
    runTime := some "20140129120500" }

theorem succeeded_reads : succeeded.Reads .auto .resultSuccess := ⟨rfl, rfl⟩

theorem begun_returns : beginJobPlan Env.calm 1 none stored.engine =
    .ok (some ("10031", 0)) (after (beginJobPlan Env.calm 1 none stored.engine)) := by
  have answer : (match beginJobPlan Env.calm 1 none stored.engine with
    | .ok started _ => some started
    | .error _ _ => none) = some (some ("10031", 0)) := by decide +kernel
  generalize beginJobPlan Env.calm 1 none stored.engine = result at answer ⊢
  cases result with
  | ok started e => rw [Option.some.inj answer, after_ok]
  | error t e => cases answer

theorem begun_reachable : Reachable (system Env.calm) (fun _ _ => True) begun := by
  have initial : Initial stored := ⟨rfl, rfl, rfl, rfl⟩
  exact (Reachable.start initial).next trivial (.begins begun_returns)

theorem started_reachable : Reachable (system Env.calm) (fun _ _ => True) started :=
  begun_reachable.next trivial (.registers List.mem_cons_self)

theorem dispatched (w : Launching) (same : w.engine.instances = begun.engine.instances) :
    ∃ i, w.engine.instances[0]? = some i ∧ i.status.isEndState = false ∧ .dispatched "a" 2 event ∈ i.trace ∧
      i.workflow.getWorkflowKey = "10031" := by
  obtain ⟨i, there⟩ : ∃ i, begun.engine.instances[0]? = some i := Option.isSome_iff_exists.mp (by decide +kernel)
  have facts : begun.engine.instances[0]?.map
    (fun i => (i.status.isEndState, decide (.dispatched "a" 2 event ∈ i.trace),
      i.workflow.getWorkflowKey)) = some (false, true, "10031") := by decide +kernel
  rw [there] at facts
  simp only [Option.map_some, Option.some.injEq, Prod.mk.injEq, decide_eq_true_eq] at facts
  exact ⟨i, (congrArg (·[0]?) same).trans there, facts⟩

theorem clock : Env.calm.Clock started.engine.store.tick := by
  have tick : started.engine.store.tick = 16 := by decide +kernel
  have digits : ∀ m < 16, (toString (m + 1000)).length = 4 := by decide
  rw [tick]
  refine ⟨fun m n _ _ same => Nat.add_right_cancel same, fun m n first second => ?_⟩
  change (toString (m + 1000)).length = (toString (n + 1000)).length
  rw [digits m first, digits n second]

end Early

/-- Once the workflow is registered, the result of `a` completes `a`. -/
theorem completes_started :
    ∃ i, Reachable (system Env.calm) (fun _ _ => True) Early.started ∧ Early.started.engine.instances[0]? = some i ∧
      i.status.isEndState = false ∧ .dispatched "a" 2 Early.event ∈ i.trace ∧
      Completes Env.calm "c" Early.succeeded Early.started.engine 0 "a" 2 := by
  have same := registerWorkflow_instances (some ("10031", 0)) Early.begun.engine
  obtain ⟨i, there, lives, sent, key⟩ := Early.dispatched Early.started same
  have entry : Early.started.engine.runingInfo? "1270011014" = some ⟨"a", 2, "10031"⟩ := by decide +kernel
  have completes :=
    completes_iff Early.started_reachable Early.clock there lives "a" 2 Early.event sent "c" Early.succeeded
    .resultSuccess rfl Early.succeeded_reads rfl
  refine ⟨i, Early.started_reachable, there, lives, sent, completes.mpr ⟨List.mem_singleton_self 0, ?_⟩⟩
  rw [key]
  exact entry

/-- The result of `a` comes before `addWorkflow` is called. The workflow lives, and the answer is a
KILL_JOB event for the job that has succeeded. -/
theorem not_completes_begun :
    ∃ i, Reachable (system Env.calm) (fun _ _ => True) Early.begun ∧ Early.begun.engine.instances[0]? = some i ∧
      i.status.isEndState = false ∧ .dispatched "a" 2 Early.event ∈ i.trace ∧
      Early.succeeded.eventID = Early.event.eventID ∧
      (after (Engine.handlejobProgress Env.calm "c" Early.succeeded Early.begun.engine)).kills "c" =
        [killJobEvent "c" "1270011014"] ∧
      ¬ Completes Env.calm "c" Early.succeeded Early.begun.engine 0 "a" 2 := by
  obtain ⟨i, there, lives, sent, -⟩ := Early.dispatched Early.begun rfl
  have before : Early.begun.engine.kills "c" = [] := by decide +kernel
  have killed : (after (Engine.handlejobProgress Env.calm "c" Early.succeeded Early.begun.engine)).kills "c" =
      [killJobEvent "c" "1270011014"] := by decide +kernel
  refine ⟨i, Early.begun_reachable, there, lives, sent, rfl, killed, fun completes => ?_⟩
  have same := completes.kills "c"
  rw [killed, before] at same
  cases same

end Launching

end Hella
