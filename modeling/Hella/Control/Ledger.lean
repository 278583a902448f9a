import Hella.Control.Rows
import Hella.Control.Rules
import Hella.Control.Steady

/-!
# Entries and rows of dispatched actions

Every event that an instance has dispatched for an action was dispatched for the row
saved just before, and its entry, for as long as there is one, leads to that row. This
takes a database that answers and event IDs that differ.
-/
namespace Hella

open Exec

/-! ### What stays in the store -/

namespace Store

variable {env : Env} {s t u : Store}

theorem eventIDAt_injective (distinct : Function.Injective env.generateID) : Function.Injective (eventIDAt env) := by
  intro m n same
  have numerals : toString (env.generateID m) = toString (env.generateID n) := by
    simpa [eventIDAt, String.append_right_inj] using same
  exact distinct (Text.toString_inj numerals)

/-- The row is of the same node and the same run. -/
structure SameRow (row now : XjobState) : Prop where
  id : now.id = row.id
  jobPlanNodeID : now.jobPlanNodeID = row.jobPlanNodeID
  currentExecutorKey : now.currentExecutorKey = row.currentExecutorKey

/-- No row gets lost and no entry under an event ID that was drawn before is written. -/
structure Kept (env : Env) (s t : Store) : Prop where
  later : s.tick ≤ t.tick
  numbered : s.Numbered → t.Numbered
  rows : ∀ row ∈ s.xjobStates, ∃ now ∈ t.xjobStates, SameRow row now
  entries : ∀ k < s.tick, t.jobNodeRuningInfosMap.lookup (eventIDAt env k) = none ∨
    t.jobNodeRuningInfosMap.lookup (eventIDAt env k) = s.jobNodeRuningInfosMap.lookup (eventIDAt env k)

namespace Kept

theorem trans (first : Kept env s t) (second : Kept env t u) : Kept env s u where
  later := first.later.trans second.later
  numbered numbered := second.numbered (first.numbered numbered)
  rows row member := by
    obtain ⟨now, there, same⟩ := first.rows row member
    obtain ⟨last, end_, again⟩ := second.rows now there
    exact ⟨last, end_, again.id.trans same.id, again.jobPlanNodeID.trans same.jobPlanNodeID,
      again.currentExecutorKey.trans same.currentExecutorKey⟩
  entries k drawn := by
    have more := second.entries k (drawn.trans_le first.later)
    -- an entry that is gone does not come back
    rcases first.entries k drawn with gone | same
    · exact .inl (more.elim id (·.trans gone))
    · exact more.imp_right (·.trans same)

/-- The rows are the same and at most entries have been dropped. -/
theorem of_rows (later : s.tick ≤ t.tick) (rows : t.xjobStates = s.xjobStates)
    (last : t.lastXjobStateID = s.lastXjobStateID) (entries : ∀ eventID, t.jobNodeRuningInfosMap.lookup eventID = none ∨
      t.jobNodeRuningInfosMap.lookup eventID = s.jobNodeRuningInfosMap.lookup eventID) : Kept env s t where
  later := later
  numbered numbered :=
    { distinct := rows ▸ numbered.distinct
      known := rows ▸ last ▸ numbered.known
      positive := rows ▸ numbered.positive }
  rows row member := ⟨row, rows ▸ member, rfl, rfl, rfl⟩
  entries _ _ := entries _

theorem refl (s : Store) : Kept env s s := of_rows le_rfl rfl rfl fun _ => .inr rfl

theorem insert (x : XjobState) : Kept env s (s.insertXjobState x) where
  later := le_rfl
  numbered numbered := numbered.insert x
  rows row member := ⟨row, List.mem_append_left _ member, rfl, rfl, rfl⟩
  entries _ _ := .inr rfl

theorem update (x : XjobState) : Kept env s (s.updateXjobState x) where
  later := le_rfl
  numbered numbered := numbered.update x
  rows row member := by
    refine ⟨_, List.mem_map_of_mem member, ?_⟩
    split <;> exact ⟨rfl, rfl, rfl⟩
  entries _ _ := .inr rfl

/-- A new event ID is none of those drawn before. -/
theorem dispatch (distinct : Function.Injective env.generateID) {event : JobEvent} {info : JobNodeRuningInfo}
    (fresh : event.eventID = eventIDAt env s.tick) : Kept env s { s.dispatch event info with tick := s.tick + 1 } where
  later := Nat.le_succ _
  numbered numbered := ⟨⟨numbered.distinct, numbered.known⟩, numbered.positive⟩
  rows row member := ⟨row, member, rfl, rfl, rfl⟩
  entries k drawn := by
    -- the entry is written under an ID that no earlier request returned
    refine .inr (AList.lookup_insert_ne fun same => ?_)
    exact drawn.ne (eventIDAt_injective distinct (same.trans fresh))

theorem of_write (distinct : Function.Injective env.generateID) (write : Write env s t) : Kept env s t := by
  cases write with
  | asks => exact of_rows (Nat.le_succ _) rfl rfl fun _ => .inr rfl
  | inserts x => exact insert x
  | updates x => exact update x
  | marks => exact of_rows le_rfl rfl rfl fun _ => .inr rfl
  | dispatches event info fresh => exact dispatch distinct fresh
  | ends => exact of_rows le_rfl rfl rfl fun _ => .inr rfl
  | produces => exact of_rows le_rfl rfl rfl fun _ => .inr rfl

theorem of_change (distinct : Function.Injective env.generateID) (change : Change env s t) : Kept env s t := by
  cases change with
  | writes write => exact of_write distinct write
  | notices noticed =>
    refine of_rows noticed.later ?_ ?_ fun _ => .inr ?_ <;> rw [noticed.rest]
  | forgets eventID =>
    refine of_rows le_rfl rfl rfl fun other => ?_
    by_cases same : other = eventID
    · exact .inl (same ▸ AList.lookup_erase _ _)
    · exact .inr (AList.lookup_erase_ne same)
  | registers => exact of_rows le_rfl rfl rfl fun _ => .inr rfl
  | kills => exact of_rows le_rfl rfl rfl fun _ => .inr rfl

end Kept

/-! ### The ledger of an instance -/

/-- The event was dispatched for a row of the node; its entry leads there or is gone. -/
structure Booked (env : Env) (wf : Workflow) (s : Store) (name : String) (id : Nat) (event : JobEvent) : Prop where
  type : event.xjobExecutorType = XjobExecutorType.auto.name
  drawn : ∃ k < s.tick, event.eventID = eventIDAt env k
  entry : s.jobNodeRuningInfosMap.lookup event.eventID = none ∨
    s.jobNodeRuningInfosMap.lookup event.eventID = some ⟨name, id, wf.getWorkflowKey⟩
  row : ∃ node, wf.getNode name = some node ∧ ∃ row ∈ s.xjobStates,
    row.id = id ∧ row.jobPlanNodeID = node.id ∧ row.currentExecutorKey = wf.getWorkflowKey

theorem Booked.kept {wf : Workflow} {name : String} {id : Nat} {event : JobEvent}
    (booked : Booked env wf s name id event) (kept : Kept env s t) : Booked env wf t name id event := by
  obtain ⟨k, before, named⟩ := booked.drawn
  refine ⟨booked.type, ⟨k, before.trans_le kept.later, named⟩, ?_, ?_⟩
  · have entry := booked.entry
    rw [named] at entry ⊢
    rcases kept.entries k before with gone | same
    · exact .inl gone
    · rwa [same]
  · obtain ⟨node, found, row, member, isId, isNode, isRun⟩ := booked.row
    obtain ⟨now, there, same⟩ := kept.rows row member
    exact ⟨node, found, now, there, same.id.trans isId, same.jobPlanNodeID.trans isNode,
      same.currentExecutorKey.trans isRun⟩

end Store

/-- Every dispatch of an action follows the entry of its node and the saving of its row. -/
structure Ledger (env : Env) (wf : Workflow) (s : Run) : Prop where
  numbered : s.store.Numbered
  booked : ∀ before name id event, before ++ [.dispatched name id event] <+: s.trace → wf.IsAction name →
    [.entered name, .added id] <:+ before ∧ Store.Booked env wf s.store name id event

namespace Ledger

variable {env : Env} {wf : Workflow} {s : Run} {t : Store}

theorem kept (ledger : Ledger env wf s) (kept : Store.Kept env s.store t) : Ledger env wf { s with store := t } where
  numbered := kept.numbered ledger.numbered
  booked before name id event inside action :=
    (ledger.booked before name id event inside action).imp_right (·.kept kept)

theorem noted (ledger : Ledger env wf s) {act : Act} (aloof : act.Aloof wf) :
    Ledger env wf { s with trace := s.trace ++ [act] } where
  numbered := ledger.numbered
  booked before name id event inside action := by
    -- either the note itself or an earlier one; the note is not the dispatch of an action
    obtain whole | earlier := List.prefix_concat_iff.mp inside
    · obtain ⟨-, same⟩ := List.append_inj' whole rfl
      obtain rfl : .dispatched name id event = act := by simpa using same
      exact absurd action aloof
    · exact ledger.booked before name id event earlier action

/-- The dispatch of a row that was just saved. -/
theorem dispatched (ledger : Ledger env wf s) {name : String} {id : Nat} {event : JobEvent}
    (saved : [.entered name, .added id] <:+ s.trace) (booked : Store.Booked env wf s.store name id event) :
    Ledger env wf { s with trace := s.trace ++ [.dispatched name id event] } where
  numbered := ledger.numbered
  booked before other id event inside action := by
    -- the new dispatch is the one given, an older one is in the ledger
    obtain whole | earlier := List.prefix_concat_iff.mp inside
    · obtain ⟨rfl, same⟩ := List.append_inj' whole rfl
      cases same
      exact ⟨saved, booked⟩
    · exact ledger.booked before other id event earlier action

end Ledger

/-- The node has just been entered. -/
structure Ledger.Entered (env : Env) (wf : Workflow) (node : JobPlanNode) (s : Run) : Prop where
  ledger : Ledger env wf s
  acts : [.entered node.name] <:+ s.trace

/-- The node has just been entered and its row has been saved. -/
structure Ledger.Saved (env : Env) (wf : Workflow) (node : JobPlanNode) (id : Nat) (s : Run) : Prop where
  ledger : Ledger env wf s
  acts : [.entered node.name, .added id] <:+ s.trace
  row : ∃ row ∈ s.store.xjobStates, row.id = id ∧ row.jobPlanNodeID = node.id ∧
    row.currentExecutorKey = wf.getWorkflowKey

section Instances

variable {env : Env} {wf : Workflow} {α : Type} {node : JobPlanNode}

theorem saved_addJobState (dao : ∀ n, env.daoSucceeds n = true) (date : String) :
    Triple (Ledger.Entered env wf node)
      (attempt (addJobState env (newXjobState wf node date)) (newXjobState wf node date))
      (fun saved => Ledger.Saved env wf node saved.id) fun _ => Ledger env wf := by
  rintro s ⟨ledger, before, whole⟩
  have saves := attempt_returns (addJobState_returns dao (.refl s) (newXjobState wf node date))
    (newXjobState wf node date)
  obtain ⟨saved, _, returned, rfl, k, later, rfl⟩ := saves
  have noted : Ledger env wf { s with trace := s.trace ++ [.added (s.store.lastXjobStateID + 1)] } :=
    ledger.noted trivial
  rw [returned]
  refine ⟨noted.kept (.trans (.insert _) (.of_rows later rfl rfl fun _ => .inr rfl)), ⟨before, by simp [← whole]⟩, ?_⟩
  exact ⟨_, List.mem_append_right _ (List.mem_singleton_self _), rfl, rfl, rfl⟩

variable (distinct : Function.Injective env.generateID)
include distinct

/-- The event is booked on the row that was saved. -/
theorem ledger_executeXJob (found : wf.getNode node.name = some node) (id : Nat) (args : Option String) :
    Triple (Ledger.Saved env wf node id) (executeXJob env wf node id args) (fun _ => Ledger env wf)
      fun _ => Ledger env wf := by
  rintro s ⟨ledger, saved, row, member, isId, isNode, isRun⟩
  rw [executeXJob, bind_apply, onStore_apply]
  cases given : node.xjobMeta with
  | none =>
    rw [Store.executeXJob_none env given]
    exact ledger.kept (.of_rows (Nat.le_succ _) rfl rfl fun _ => .inr rfl)
  | some xjobMeta =>
    rw [Store.executeXJob_some env given]
    refine Ledger.dispatched (ledger.kept (.dispatch distinct rfl)) saved ?_
    refine ⟨rfl, ⟨s.store.tick, Nat.lt_succ_self _, rfl⟩, .inr ?_, node, found, row, member, isId, isNode, isRun⟩
    exact AList.lookup_insert _

theorem ledger_onStore {body : StoreM α} (spends : ∀ s, Store.Spends env s body) :
    Keeps (Ledger env wf) (onStore body) := by
  intro s ledger
  have result := spends s.store s.store .refl
  have kept {t : Store} (writes : Store.Writes env s.store t) : Store.Kept env s.store t :=
    writes.related .refl .trans fun _ _ => .of_write distinct
  rw [onStore_apply]
  cases same : body s.store <;> simp only [same] at result ⊢
  · exact ledger.kept (kept result)
  · exact ledger.kept (kept result.1)

variable (dao : ∀ n, env.daoSucceeds n = true)
include dao

theorem ledger_enter (found : wf.getNode node.name = some node) (type : node.type = .action) :
    Keeps (Ledger env wf) (NodeHandler.enter env wf { jobPlanNode := node } {}) := by
  unfold NodeHandler.enter
  simp only [type]
  refine Triple.bind (Q := fun _ => Ledger.Entered env wf node) ?_ fun _ => ?_
  · exact Triple.modifying fun s ledger => ⟨ledger.noted trivial, List.suffix_append _ _⟩
  · refine Triple.bind (Q := fun _ => Ledger env wf) ?_ fun _ => Keeps.pure _
    refine Triple.bind (Q := fun _ => Ledger.Entered env wf node) ?_ fun date => ?_
    · exact fun s entered => ⟨entered.ledger.kept (.of_rows (Nat.le_succ _) rfl rfl fun _ => .inr rfl), entered.acts⟩
    · refine Triple.bind (saved_addJobState dao date) fun saved => ?_
      refine Triple.bind (ledger_executeXJob distinct found _ _) fun _ => Keeps.bind ?_ fun _ => Keeps.pure _
      exact (ledger_onStore distinct fun _ => Store.writes_updJobState _).catching fun _ _ => Keeps.pure _

/-- Whatever the instance does, its ledger is right. -/
theorem stable_ledger : Stable env wf (Ledger env wf) where
  writes _ _ write ledger := ledger.kept (.of_write distinct write)
  notes _ _ aloof ledger := ledger.noted aloof
  moves _ _ _ ledger := ⟨ledger.numbered, ledger.booked⟩
  actions _ found type := ledger_enter distinct dao found type

end Instances

/-! ### The ledgers of an engine -/

namespace Engine

/-- Every instance's ledger is right. -/
structure Books (env : Env) (e : Engine) : Prop where
  numbered : e.store.Numbered
  ledgers : ∀ i ∈ e.instances, Ledger env i.workflow (i.run e.store)

namespace Books

variable {env : Env} {e : Engine} {t : Store}

theorem kept (books : Books env e) (kept : Store.Kept env e.store t) : Books env { e with store := t } where
  numbered := kept.numbered books.numbered
  ledgers i member := (books.ledgers i member).kept kept

end Books

section Managers

variable {env : Env} (distinct : Function.Injective env.generateID)
include distinct

/-- An instance writes its own ledger and keeps those of the others. -/
theorem books_onInstance {α : Type} (n : Nat) {body : Workflow → RunM α}
    (writes : ∀ wf s, Keeps (Wrote env s) (body wf)) (ledgers : ∀ wf, Keeps (Ledger env wf) (body wf)) :
    Keeps (Books env) (onInstance n body) := by
  refine Keeps.of_after fun e books => ?_
  cases there : e.instances[n]? with
  | none =>
    unfold onInstance
    simp only [there, after_error]
    exact books
  | some i =>
    have wrote := (writes i.workflow e.store).after (s := i.run e.store) .refl
    have ledger := (ledgers i.workflow).after (books.ledgers i (List.mem_of_getElem? there))
    have saved (s : Run) (wrote : Wrote env e.store s) (ledger : Ledger env i.workflow s) :
      Books env (e.save n i s) := by
      -- the other instances' ledgers only need that rows and entries are kept
      have kept : Store.Kept env e.store s.store := wrote.related .refl .trans fun _ _ => .of_write distinct
      refine ⟨ledger.numbered, fun j member => ?_⟩
      obtain old | rfl := List.mem_or_eq_of_mem_set member
      · exact (books.ledgers j old).kept kept
      · exact ledger
    rw [onInstance_apply there]
    cases same : body i.workflow (i.run e.store) <;> simp only [same, after_ok, after_error] at wrote ledger ⊢
    · exact saved _ wrote ledger
    · exact saved _ wrote ledger

theorem steady_books (dao : ∀ n, env.daoSucceeds n = true) : Steady env (Books env) where
  changes _ _ change books := books.kept (.of_change distinct change)
  flags e n f flags books := by
    refine ⟨books.numbered, fun i member => ?_⟩
    obtain ⟨m, there⟩ := List.mem_iff_getElem?.mp member
    rw [List.getElem?_modify] at there
    obtain ⟨old, before, changed⟩ := Option.map_eq_some_iff.mp there
    have ledger := books.ledgers old (List.mem_of_getElem? before)
    -- the flags are no part of what a ledger speaks about
    obtain ⟨timeOut, hasAlarm, same⟩ := flags old
    split at changed
    · subst changed
      rw [same]
      exact ledger
    · exact changed ▸ ledger
  creates e wf books := by
    refine ⟨books.numbered, fun i member => ?_⟩
    obtain old | rfl := by simpa using member
    · exact books.ledgers i old
    · exact ⟨books.numbered, fun _ _ _ _ inside => by simp [Instance.run] at inside⟩
  starts n := books_onInstance distinct n (fun _ _ => wrote_start) fun _ => (stable_ledger distinct dao).start
  completes n name context := books_onInstance distinct n (fun _ _ => wrote_complete name context)
    fun _ => (stable_ledger distinct dao).completeJobPlanNode name context

theorem books_step (dao : ∀ n, env.daoSucceeds n = true) {e t : Engine} {call : Call} (step : Step env e call t)
    (books : Books env e) : Books env t := by
  refine (steady_books distinct dao).step (fun e s other books => ?_) (fun e s restarted books => ?_) step books
  · refine books.kept (.of_rows other.later other.xjobStates other.lastXjobStateID fun _ => .inr ?_)
    rw [other.jobNodeRuningInfosMap]
  · have kept : Store.Kept env e.store s := by
      refine .of_rows restarted.later restarted.xjobStates restarted.lastXjobStateID fun _ => .inl ?_
      rw [restarted.jobNodeRuningInfosMap]
      rfl
    exact ⟨kept.numbered books.numbered, by simp⟩

end Managers

end Engine

end Hella
