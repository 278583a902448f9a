import Hella.Lib.Simulation
import Hella.Plans.Catalogue
import Mathlib.Logic.Function.Basic

/-!
# What is stored is what was submitted

Whatever fails, the three tables of plans are to their readers one catalogue, and each request is
a step of a machine on it. A submission that is answered with true has replaced the entries of its
plans; one that is not has replaced some of them, up to the one it broke off in, and no others.
-/
namespace Hella

open Exec Runs Text

/-! ### The machine -/

abbrev Catalogue := String × String → Option PlanEntity

namespace Catalogue

/-- No plan has the ID. -/
def Unused (cat : Catalogue) (id : Nat) : Prop := ∀ key entry, cat key = some entry → entry.id ≠ id

def without (cat : Catalogue) (id : Nat) : Catalogue := fun key => (cat key).filter fun entry => entry.id ≠ id

/-- A replacement that breaks off leaves the old plan, none, or the new one with the first of its nodes. -/
inductive Remnant (jep : PlanEntity) (old : Option PlanEntity) : Option PlanEntity → Prop where
  | kept : Remnant jep old old
  | cleared : Remnant jep old none
  | cut (id : Nat) (nodes : List JobPlanNode) (first : nodes.map (·.name) <+: jep.jobPlanNodeList.map (·.name)) :
      Remnant jep old (some { jep.entry with id := id, jobPlanNodeList := nodes })

/-- The plans are entered one after the other, each under an ID of its own, until one fails. -/
inductive Registers : List PlanEntity → Catalogue → Bool → Catalogue → Prop where
  | done (cat : Catalogue) : Registers [] cat true cat
  | replaced {jep : PlanEntity} {jeps : List PlanEntity} {cat cat' : Catalogue} {answer : Bool} {id : Nat}
      (unused : cat.Unused id)
      (rest : Registers jeps (Function.update cat jep.key (some { jep.entry with id := id })) answer cat') :
      Registers (jep :: jeps) cat answer cat'
  | broken {jep : PlanEntity} {jeps : List PlanEntity} {cat cat' : Catalogue}
      (others : ∀ key, key ≠ jep.key → cat' key = cat key) (own : Remnant jep (cat jep.key) (cat' jep.key)) :
      Registers (jep :: jeps) cat false cat'

end Catalogue

/-- A request with its answer; `none` is an exception. -/
abbrev PlanReply := PlanRequest × Option Bool

/-- Submissions and deletions. -/
def PlanRequest.Edits : PlanRequest → Prop
  | .register _ => True
  | .delete _ _ => True
  | .deleteByID _ => True
  | _ => False

inductive CatalogueStep : Catalogue → PlanReply → Catalogue → Prop where
  | registered {cat cat' : Catalogue} {context : JobExecutionPlanSubmissionContext}
      (loop : Catalogue.Registers context.jobExecutionPlans cat true cat') :
      CatalogueStep cat (.register context, some true) cat'
  | notRegistered {cat cat' : Catalogue} {context : JobExecutionPlanSubmissionContext}
    {outcome : Option Bool} {done : Bool}
      (failed : outcome ≠ some true) (loop : Catalogue.Registers context.jobExecutionPlans cat done cat') :
      CatalogueStep cat (.register context, outcome) cat'
  | deleted {cat : Catalogue} {clusterID jepID : String} :
      CatalogueStep cat (.delete clusterID jepID, some true) (Function.update cat (clusterID, jepID) none)
  | notDeleted {cat cat' : Catalogue} {clusterID jepID : String} {outcome : Option Bool} (failed : outcome ≠ some true)
      (either : cat' = cat ∨ cat' = Function.update cat (clusterID, jepID) none) :
      CatalogueStep cat (.delete clusterID jepID, outcome) cat'
  | deletedByID {cat : Catalogue} {id : Nat} : CatalogueStep cat (.deleteByID id, some true) (cat.without id)
  | notDeletedByID {cat cat' : Catalogue} {id : Nat} {outcome : Option Bool} (failed : outcome ≠ some true)
      (either : cat' = cat ∨ cat' = cat.without id) : CatalogueStep cat (.deleteByID id, outcome) cat'
  | others {cat : Catalogue} {request : PlanRequest} {outcome : Option Bool} (reads : ¬ request.Edits) :
      CatalogueStep cat (request, outcome) cat

/-! ### The requests with their answers -/

namespace PlanRequest

open JobPlanManager

def answer (env : PlanEnv) : PlanRequest → PlanM Bool
  | .register context => registerJobExecutionPlanSubmissionContext env context
  | .pause jobExecutionPlan => pauseJobExecutionPlan env jobExecutionPlan
  | .pauseOf clusterID jepID => pauseJobExecutionPlans env clusterID jepID
  | .resume id => resumeJobExecutionPlan env id
  | .resumeOf clusterID jepID => resumeJobExecutionPlans env clusterID jepID
  | .disable id => disableJobExecutionPlans env id
  | .disableOf clusterID jepID => disableJobExecutionPlansOf env clusterID jepID
  | .delete clusterID jepID => deleteJobExecutionPlan env clusterID jepID
  | .deleteByID id => deleteJobExecutionPlanByID env id
  | .publishEvent id => do JobPlanManager.publishEvent env id; return true

/-- Submissions as the parser builds them, and deletions that name a plan. -/
def Named : PlanRequest → Prop
  | .register context => context.WellFormed
  | .delete clusterID jepID => isBlank (some clusterID) = false ∧ isBlank (some jepID) = false
  | _ => True

end PlanRequest

/-- The request is answered, or it ends with an exception. -/
inductive Serves (env : PlanEnv) (s : PlanSystem) : PlanReply → PlanSystem → Prop where
  | answered {request : PlanRequest} {answer : Bool} {t : PlanSystem} (returned : request.answer env s = .ok answer t) :
      Serves env s (request, some answer) t
  | exception {request : PlanRequest} {e : Throwable} {t : PlanSystem} (thrown : request.answer env s = .error e t) :
      Serves env s (request, none) t

namespace PlanTables

variable {env : PlanEnv} {cat : Catalogue} {t : PlanTables} {key : String × String} {id : Nat} {row jep : PlanEntity}
  {clusterId jepID : String} {node : JobPlanNode} {rest : List JobPlanNode}

/-! ### While a plan is replaced -/

/-- Apart from the plan of the key all is as in the catalogue. -/
structure Besides (key : String × String) (cat : Catalogue) (t : PlanTables) : Prop where
  filed : t.Filed
  others : ∀ k, k ≠ key → t.catalogue k = cat k
  bound : ∀ k entry, cat k = some entry → entry.id ≤ t.lastJobExecutionPlanID

theorem Filed.besides (filed : t.Filed) (key : String × String) : Besides key t.catalogue t :=
  ⟨filed, fun _ _ => rfl, fun _ _ found => filed.toNumbered.entry_bound found⟩

/-- Rows with other keys have other IDs. -/
theorem Keyed.spares (keyed : t.Keyed) (member : row ∈ t.jobExecutionPlans) {k : String × String}
    (other : k ≠ row.key) : ∀ r ∈ t.plansOf k, r.id ≠ row.id := by
  intro r inside same
  obtain ⟨there, own⟩ := mem_plansOf.mp inside
  rw [keyed.eq_of_id there member same] at own
  exact other own.symm

/-- The plan has its row, and some of its nodes are still to be stored. -/
structure Writing (jep : PlanEntity) (cat : Catalogue) (id : Nat) (rest : List JobPlanNode) (t : PlanTables) : Prop
    extends Besides jep.key cat t where
  unused : cat.Unused id
  row : { jep with id := id, jobPlanNodeList := [] } ∈ t.jobExecutionPlans
  nodes : (t.loadedNodes id ++ rest).map (·.unnumbered) = jep.jobPlanNodeList.map (·.unnumbered)

theorem Writing.spares (writing : Writing jep cat id rest t) {k : String × String} (other : k ≠ jep.key) :
    ∀ r ∈ t.plansOf k, r.id ≠ id := writing.filed.toKeyed.spares writing.row other

theorem Writing.stored (writing : Writing jep cat id rest t) : id ≤ t.lastJobExecutionPlanID :=
  writing.filed.planBound _ writing.row

/-- Between the node and its job. -/
theorem Writing.insertJobPlanNode (writing : Writing jep cat id rest t) (node : JobPlanNode) :
    Besides jep.key cat (t.insertJobPlanNode { node with jobExecutionPlanID := id }) where
  filed := writing.filed.insertJobPlanNode writing.stored node
  others k other := (catalogue_insertJobPlanNode (writing.spares other) node).trans (writing.others k other)
  bound := writing.bound

theorem Writing.insertNode (writing : Writing jep cat id (node :: rest) t) :
    Writing jep cat id rest (t.insertNode id node) := by
  have nodes : ((t.insertNode id node).loadedNodes id ++ rest).map (·.unnumbered) =
      jep.jobPlanNodeList.map (·.unnumbered) := by
    rw [loadedNodes_insertNode writing.filed, ← writing.nodes]
    simp [JobPlanNode.unnumbered]
  have besides := writing.insertJobPlanNode node
  unfold PlanTables.insertNode at nodes ⊢
  cases given : node.xjobMeta with
  | none =>
    rw [given] at nodes
    exact ⟨besides, writing.unused, writing.row, nodes⟩
  | some xjobMeta =>
    rw [given] at nodes
    refine ⟨⟨besides.filed.insertXjobMeta writing.stored (Nat.le_refl _) xjobMeta, fun k other => ?_, writing.bound⟩,
      writing.unused, writing.row, nodes⟩
    have spared : ∀ r ∈ (t.insertJobPlanNode { node with jobExecutionPlanID := id }).plansOf k, r.id ≠ id :=
      writing.spares other
    exact (catalogue_insertXjobMeta spared _ xjobMeta).trans (besides.others k other)

/-- All nodes are stored. -/
theorem Writing.complete (writing : Writing jep cat id [] t) :
    t.catalogue = Function.update cat jep.key (some { jep.entry with id := id }) := by
  funext k
  by_cases here : k = jep.key
  · rw [here, Function.update_self]
    have entered := writing.filed.toKeyed.catalogue_of_row writing.row
    have nodes := writing.nodes
    rw [List.append_nil] at nodes
    rw [show jep.key = PlanEntity.key { jep with id := id, jobPlanNodeList := [] } from rfl, entered]
    simp only [loaded, PlanEntity.entry, List.nil_append, nodes]
  · rw [Function.update_of_ne here]
    exact writing.others k here

theorem Besides.insertJobExecutionPlan (besides : Besides jep.key cat t) (free : t.Free jep.key) :
    Writing jep cat (t.lastJobExecutionPlanID + 1) jep.jobPlanNodeList (t.insertJobExecutionPlan jep) where
  filed := besides.filed.insertJobExecutionPlan free
  others k other := (catalogue_insertJobExecutionPlan_ne other).trans (besides.others k other)
  bound k entry found := Nat.le_succ_of_le (besides.bound k entry found)
  unused k entry found same := by
    have bound := besides.bound k entry found
    omega
  row := List.mem_append_right _ (List.mem_singleton.mpr rfl)
  nodes := by
    -- no node refers to a plan that is still to come
    have none_ : t.nodesByJPID (t.lastJobExecutionPlanID + 1) = [] := by
      rw [nodesByJPID, List.filter_eq_nil_iff]
      intro node member same
      have bound := besides.filed.nodeBound node member
      have equal : node.jobExecutionPlanID = t.lastJobExecutionPlanID + 1 := by simpa using same
      omega
    have same : (t.insertJobExecutionPlan jep).loadedNodes (t.lastJobExecutionPlanID + 1) = [] := by
      change (t.nodesByJPID (t.lastJobExecutionPlanID + 1)).map _ = []
      rw [none_, List.map_nil]
    rw [same, List.nil_append]

/-- The replacement may break off here. -/
structure Halted (jep : PlanEntity) (cat : Catalogue) (t : PlanTables) : Prop extends Besides jep.key cat t where
  remnant : Catalogue.Remnant jep (cat jep.key) (t.catalogue jep.key)

theorem names_unnumbered (nodes : List JobPlanNode) : (nodes.map (·.unnumbered)).map (·.name) = nodes.map (·.name) := by
  rw [List.map_map]
  rfl

theorem Writing.names (writing : Writing jep cat id rest t) :
    (t.loadedNodes id).map (·.name) ++ rest.map (·.name) = jep.jobPlanNodeList.map (·.name) := by
  rw [← List.map_append, ← names_unnumbered, writing.nodes, names_unnumbered]

/-- The plan has its row, with the nodes that are stored. -/
theorem Besides.halted (besides : Besides jep.key cat t)
    (row : { jep with id := id, jobPlanNodeList := [] } ∈ t.jobExecutionPlans)
    (first : (t.loadedNodes id).map (·.name) <+: jep.jobPlanNodeList.map (·.name)) : Halted jep cat t where
  toBesides := besides
  remnant := by
    have entered := besides.filed.toKeyed.catalogue_of_row row
    rw [show jep.key = PlanEntity.key { jep with id := id, jobPlanNodeList := [] } from rfl, entered]
    refine .cut id ((t.loadedNodes id).map (·.unnumbered)) ?_
    rw [names_unnumbered]
    exact first

theorem Writing.halted (writing : Writing jep cat id rest t) : Halted jep cat t :=
  writing.toBesides.halted writing.row ⟨_, writing.names⟩

theorem Writing.halted_insertJobPlanNode (writing : Writing jep cat id (node :: rest) t) :
    Halted jep cat (t.insertJobPlanNode { node with jobExecutionPlanID := id }) := by
  apply (writing.insertJobPlanNode node).halted writing.row
  rw [loadedNodes_insertJobPlanNode writing.filed, ← writing.names]
  exact ⟨rest.map (·.name), by simp⟩

/-! ### While a plan is deleted -/

/-- At most one row has the key. -/
theorem Keyed.select (keyed : t.Keyed) (named : isBlank (some clusterId) = false)
    (named' : isBlank (some jepID) = false) :
    t.selectJobExecutionPlan 0 (some clusterId) (some jepID) none = [] ∨ ∃ row ∈ t.jobExecutionPlans,
      row.key = (clusterId, jepID) ∧ t.selectJobExecutionPlan 0 (some clusterId) (some jepID) none = [row] := by
  have distinct : (t.selectJobExecutionPlan 0 (some clusterId) (some jepID) none).Nodup :=
    (List.perm_insertionSort _ _).nodup_iff.mpr (keyed.planIDs.of_map.filter _)
  have found (row : PlanEntity) := @mem_select t clusterId jepID row named named'
  cases rows : t.selectJobExecutionPlan 0 (some clusterId) (some jepID) none with
  | nil => exact .inl rfl
  | cons row rest =>
    rw [rows] at distinct found
    obtain ⟨member, own⟩ := (found row).mp List.mem_cons_self
    cases rest with
    | nil => exact .inr ⟨row, member, own, rfl⟩
    | cons next rest =>
      obtain ⟨member', own'⟩ := (found next).mp (List.mem_cons_of_mem _ List.mem_cons_self)
      have same := keyed.eq_of_key member member' (own.trans own'.symm)
      simp [same] at distinct

/-- An ID is that of one plan. -/
theorem Filed.without (filed : t.Filed) (member : row ∈ t.jobExecutionPlans) :
    Catalogue.without t.catalogue row.id = Function.update t.catalogue row.key none := by
  funext k
  by_cases here : k = row.key
  · rw [here, Function.update_self, Catalogue.without, filed.toKeyed.catalogue_of_row member]
    simp [PlanEntity.entry, loaded]
  · rw [Function.update_of_ne here, Catalogue.without]
    cases found : t.catalogue k with
    | none => rfl
    | some entry =>
      obtain ⟨other, there, own, rfl⟩ := row_of_catalogue found
      have ne : other.id ≠ row.id := by
        intro same
        rw [filed.eq_of_id there member same] at own
        exact here own.symm
      simp [PlanEntity.entry, loaded, ne]

/-- The row is gone. -/
structure Deleted (key : String × String) (id : Nat) (cat : Catalogue) (t : PlanTables) :
  Prop extends Besides key cat t where
  gone : ∀ row ∈ t.jobExecutionPlans, row.id ≠ id
  free : t.Free key

theorem Deleted.catalogue_eq (deleted : Deleted key id cat t) : t.catalogue = Function.update cat key none := by
  funext k
  by_cases here : k = key
  · rw [here, Function.update_self, catalogue_of_free deleted.free]
  · rw [Function.update_of_ne here]
    exact deleted.others k here

theorem Filed.deleteRow (filed : t.Filed) (member : row ∈ t.jobExecutionPlans) :
    Deleted row.key row.id t.catalogue (t.deleteJobExecutionPlan row.id) where
  filed := filed.deleteJobExecutionPlan row.id
  others k other := catalogue_deleteJobExecutionPlan (filed.toKeyed.spares member other)
  bound k entry found := filed.toNumbered.entry_bound found
  gone r inside := by simpa using (List.mem_filter.mp inside).2
  free r inside own := by
    obtain ⟨there, kept⟩ := List.mem_filter.mp inside
    rw [filed.eq_of_key there member own] at kept
    simp at kept

theorem Deleted.deleteJobPlanNode (deleted : Deleted key id cat t) : Deleted key id cat (t.deleteJobPlanNode id) where
  filed := deleted.filed.deleteJobPlanNode id
  others k other := (catalogue_deleteJobPlanNode fun r inside => deleted.gone r (mem_plansOf.mp inside).1).trans
    (deleted.others k other)
  bound := deleted.bound
  gone := deleted.gone
  free := deleted.free

theorem Deleted.deleteXjobMeta (deleted : Deleted key id cat t) : Deleted key id cat (t.deleteXjobMeta id) where
  filed := deleted.filed.deleteXjobMeta id
  others k other := (catalogue_deleteXjobMeta fun r inside => deleted.gone r (mem_plansOf.mp inside).1).trans
    (deleted.others k other)
  bound := deleted.bound
  gone := deleted.gone
  free := deleted.free

end PlanTables

/-! ### The calls -/

section Calls

open PlanTables

variable {env : PlanEnv} {cat : Catalogue} {t : PlanTables} {key : String × String} {id : Nat} {row jep : PlanEntity}
  {clusterId jepID : String} {node : JobPlanNode} {rest : List JobPlanNode}

theorem deleteJobPlan_rule (filed : t.Filed) (member : row ∈ t.jobExecutionPlans) :
    Triple (fun s => s.tables = t) (JobPlanManager.deleteJobPlan env row.id)
      (fun _ s => Deleted row.key row.id t.catalogue s.tables)
      fun _ s => s.tables = t ∨ Deleted row.key row.id t.catalogue s.tables := by
  apply deleteJobPlan_triple (P := fun u => u = t) (Q := Deleted row.key row.id t.catalogue)
    (E := fun u => u = t ∨ Deleted row.key row.id t.catalogue u)
  · rintro u rfl
    exact filed.deleteRow member
  · exact fun u deleted => deleted.deleteJobPlanNode
  · exact fun u deleted => deleted.deleteXjobMeta
  · exact fun u same => .inl same
  · exact fun u deleted => .inr deleted

/-- A query changes nothing, and a failure of it is one of the database. -/
theorem query_rule {α : Type} (f : PlanTables → α) :
    Triple (fun s => s.tables = t) (do PlanSystem.daoCall env; return f (← get).tables)
      (fun answer s => s.tables = t ∧ answer = f t) fun e s => s.tables = t ∧ e = .daoException := by
  rintro s rfl
  cases succeeds : env.daoSucceeds s.tick with
  | true =>
    rw [bind_ok (daoCall_succeeds succeeds)]
    exact ⟨rfl, rfl⟩
  | false =>
    rw [bind_error (daoCall_error succeeds)]
    exact ⟨rfl, rfl⟩

theorem queryJobPlanByID_rule (id : Nat) :
    Triple (fun s => s.tables = t) (JobExecutionPlanDao.queryJobPlanByID env id)
      (fun found s => s.tables = t ∧ found = t.byID? id) fun e s => s.tables = t ∧ e = .daoException := by
  unfold JobExecutionPlanDao.queryJobPlanByID PlanTables.byID?
  split
  · exact .pure fun s same => ⟨same, rfl⟩
  · exact query_rule fun t => (t.selectJobExecutionPlan id none none none).head?

theorem clearJobPlan_rule (filed : t.Filed) (named : isBlank (some jep.clusterID) = false)
    (named' : isBlank (some jep.jepID) = false) :
    Triple (fun s => s.tables = t) (JobPlanManager.clearJobPlan env jep.clusterID jep.jepID)
      (fun _ s => Besides jep.key t.catalogue s.tables ∧ s.tables.Free jep.key)
      fun _ s => Halted jep t.catalogue s.tables := by
  have unchanged : Halted jep t.catalogue t := ⟨filed.besides jep.key, .kept⟩
  have queries := @query_rule env t _ fun t => t.selectJobExecutionPlan 0 (some jep.clusterID) (some jep.jepID) none
  apply (queries.conseq (fun _ => id) (fun _ _ => id) fun _ s same =>
    (same.1 ▸ unchanged : Halted jep t.catalogue s.tables)).bind
  intro list
  -- without an old row the key is free already
  cases found : list.head? with
  | none =>
    apply Triple.pure
    rintro s ⟨same, rfl⟩
    rw [same]
    exact ⟨unchanged.toBesides, free_of_stored?_none named named' found⟩
  | some old =>
    apply Triple.pointwise
    rintro s ⟨same, rfl⟩
    obtain ⟨stored, own⟩ := stored?_some named named' found
    have deletes := @deleteJobPlan_rule env t old filed stored
    rw [show old.key = jep.key from own] at deletes
    apply deletes.conseq
    · rintro _ rfl
      exact same
    · exact fun _ s deleted => ⟨deleted.toBesides, deleted.free⟩
    · rintro _ s (same | deleted)
      · rw [same]
        exact unchanged
      · refine ⟨deleted.toBesides, ?_⟩
        rw [catalogue_of_free deleted.free]
        exact .cleared

theorem saveJobPlanNode_rule :
    Triple (fun s => Writing jep cat id (node :: rest) s.tables)
      (JobExecutionPlanDao.saveJobPlanNode env { node with jobExecutionPlanID := id })
      (fun saved s => saved.xjobMeta = node.xjobMeta ∧ ∃ t, Writing jep cat id (node :: rest) t ∧
        saved.id = t.lastJobPlanNodeID + 1 ∧ s.tables = t.insertJobPlanNode { node with jobExecutionPlanID := id })
      fun _ s => Halted jep cat s.tables := by
  intro s writing
  -- the key of the new row is known before the call
  have written : JobExecutionPlanDao.saveJobPlanNode env { node with jobExecutionPlanID := id } s = (do
      PlanSystem.update env (·.insertJobPlanNode { node with jobExecutionPlanID := id })
      return { node with jobExecutionPlanID := id, id := s.tables.lastJobPlanNodeID + 1 }) s := rfl
  rw [written]
  cases succeeds : env.daoSucceeds s.tick with
  | true =>
    rw [bind_ok (update_ok _ succeeds)]
    exact ⟨rfl, s.tables, writing, rfl, rfl⟩
  | false =>
    rw [bind_error (update_error _ succeeds)]
    exact writing.halted

theorem saveNode_rule :
    Triple (fun s => Writing jep cat id (node :: rest) s.tables) (JobPlanManager.saveNode env id node)
      (fun _ s => Writing jep cat id rest s.tables) fun _ s => Halted jep cat s.tables := by
  apply saveJobPlanNode_rule.bind
  intro saved
  apply Triple.of_imp (p := saved.xjobMeta = node.xjobMeta) _ fun s holds => holds.1
  intro same
  rw [same]
  cases given : node.xjobMeta with
  | none =>
    apply Triple.pure
    rintro s ⟨-, t, writing, -, stored⟩
    have next := writing.insertNode
    unfold PlanTables.insertNode at next
    rw [given] at next
    rw [stored]
    exact next
  | some xjobMeta =>
    apply Triple.pointwise
    rintro s ⟨-, t, writing, number, stored⟩
    have next := writing.insertNode
    unfold PlanTables.insertNode at next
    rw [given] at next
    rw [number]
    apply (update_triple (P := fun u => u = t.insertJobPlanNode { node with jobExecutionPlanID := id })
      (Q := Writing jep cat id rest) _ fun u here => here ▸ next).conseq
    · rintro _ rfl
      exact stored
    · exact fun _ _ holds => holds
    · rintro _ u here
      rw [here]
      exact writing.halted_insertJobPlanNode

/-- The plan is entered under a new ID. -/
theorem saveJobExecutionPlan_rule (besides : Besides jep.key cat t) (free : t.Free jep.key)
    (remnant : Catalogue.Remnant jep (cat jep.key) none) :
    Triple (fun s => s.tables = t) (JobPlanManager.saveJobExecutionPlan env jep)
      (fun _ s => s.tables.Filed ∧ ∃ id, cat.Unused id ∧
        s.tables.catalogue = Function.update cat jep.key (some { jep.entry with id := id }))
      fun _ s => Halted jep cat s.tables := by
  have saves : Triple (fun s => s.tables = t) (JobExecutionPlanDao.save env jep)
      (fun saved s => saved.jobPlanNodeList = jep.jobPlanNodeList ∧
        Writing jep cat saved.id jep.jobPlanNodeList s.tables)
      fun _ s => Halted jep cat s.tables := by
    rintro s rfl
    have written : JobExecutionPlanDao.save env jep s = (do
        PlanSystem.update env (·.insertJobExecutionPlan jep)
        return { jep with id := s.tables.lastJobExecutionPlanID + 1 }) s := rfl
    rw [written]
    cases succeeds : env.daoSucceeds s.tick with
    | true =>
      rw [bind_ok (update_ok _ succeeds)]
      exact ⟨rfl, besides.insertJobExecutionPlan free⟩
    | false =>
      rw [bind_error (update_error _ succeeds)]
      refine ⟨besides, ?_⟩
      rw [catalogue_of_free free]
      exact remnant
  apply saves.bind
  intro saved
  apply Triple.of_imp (p := saved.jobPlanNodeList = jep.jobPlanNodeList) _ fun s holds => holds.1
  intro same
  rw [same]
  have turn (node : JobPlanNode) (rest : List JobPlanNode) :
      Triple (fun s => Writing jep cat saved.id (node :: rest) s.tables) (JobPlanManager.saveNode env saved.id node)
        (fun _ s => Writing jep cat saved.id rest s.tables) fun _ s => Halted jep cat s.tables := saveNode_rule
  have nodes :=
    Triple.forM (I := fun rest (s : PlanSystem) => Writing jep cat saved.id rest s.tables) turn jep.jobPlanNodeList
  apply (nodes.conseq (fun _ holds => holds.2) (fun _ _ holds => holds) fun _ _ holds => holds).bind
  exact fun _ => .pure fun s writing => ⟨writing.filed, saved.id, writing.unused, writing.complete⟩

theorem replaceJobPlan_rule (filed : t.Filed) (named : isBlank (some jep.clusterID) = false)
    (named' : isBlank (some jep.jepID) = false) :
    Triple (fun s => s.tables = t) (JobPlanManager.replaceJobPlan env jep.clusterID jep)
      (fun _ s => s.tables.Filed ∧ ∃ id, Catalogue.Unused t.catalogue id ∧
        s.tables.catalogue = Function.update t.catalogue jep.key (some { jep.entry with id := id }))
      fun _ s => Halted jep t.catalogue s.tables := by
  apply (clearJobPlan_rule filed named named').bind
  intro _
  apply Triple.pointwise
  rintro s ⟨besides, free⟩
  apply (saveJobExecutionPlan_rule besides free .cleared).conseq
  · rintro _ rfl
    rfl
  · exact fun _ _ holds => holds
  · exact fun _ _ holds => holds

theorem saveJobPlans_rule (clusterId : String) (jeps : List PlanEntity) (filed : t.Filed)
    (named : isBlank (some clusterId) = false) (own : ∀ jep ∈ jeps, jep.clusterID = clusterId)
    (named' : ∀ jep ∈ jeps, isBlank (some jep.jepID) = false) :
    Triple (fun s => s.tables = t) (JobPlanManager.saveJobPlans env clusterId jeps)
      (fun _ s => s.tables.Filed ∧ Catalogue.Registers jeps t.catalogue true s.tables.catalogue)
      fun _ s => s.tables.Filed ∧ Catalogue.Registers jeps t.catalogue false s.tables.catalogue := by
  induction jeps generalizing t with
  | nil =>
    apply Triple.pure
    rintro s rfl
    exact ⟨filed, .done _⟩
  | cons jep jeps ih =>
    have here := own jep List.mem_cons_self
    have replaces := @replaceJobPlan_rule env t jep filed (here ▸ named) (named' jep List.mem_cons_self)
    rw [here] at replaces
    have breaks : ∀ (_ : Throwable) (s : PlanSystem), Halted jep t.catalogue s.tables →
        s.tables.Filed ∧ Catalogue.Registers (jep :: jeps) t.catalogue false s.tables.catalogue :=
      fun _ _ halted => ⟨halted.filed, .broken halted.others halted.remnant⟩
    apply (replaces.conseq (fun _ => id) (fun _ _ => id) breaks).bind
    intro saved
    apply Triple.pointwise
    rintro s ⟨filed', id, unused, entered⟩
    have rest := @ih s.tables filed' (fun other member => own other (List.mem_cons_of_mem _ member))
      fun other member => named' other (List.mem_cons_of_mem _ member)
    rw [entered] at rest
    have goes (answer : Bool) (u : PlanSystem) (holds : u.tables.Filed ∧ Catalogue.Registers jeps
        (Function.update t.catalogue jep.key (some { jep.entry with id := id })) answer u.tables.catalogue) :
        u.tables.Filed ∧ Catalogue.Registers (jep :: jeps) t.catalogue answer u.tables.catalogue :=
      ⟨holds.1, .replaced unused holds.2⟩
    apply (rest.conseq (fun u same => by rw [same]) (fun _ => goes true) fun _ => goes false).bind
    exact fun _ => .pure fun _ holds => holds

theorem saveJobPlan_rule {context : JobExecutionPlanSubmissionContext} (filed : t.Filed)
    (wellFormed : context.WellFormed) : Triple (fun s => s.tables = t) (JobPlanManager.saveJobPlan env context)
      (fun _ s => s.tables.Filed ∧ Catalogue.Registers context.jobExecutionPlans t.catalogue true s.tables.catalogue)
      fun _ s =>
        s.tables.Filed ∧ Catalogue.Registers context.jobExecutionPlans t.catalogue false s.tables.catalogue := by
  unfold JobPlanManager.saveJobPlan
  by_cases none_ : context.jobExecutionPlans = []
  · rw [none_]
    apply Triple.pure
    rintro s rfl
    exact ⟨filed, .done _⟩
  · rw [if_neg (by simpa using none_)]
    apply (saveJobPlans_rule context.clusterId context.jobExecutionPlans filed wellFormed.clusterId
      wellFormed.clusterIDs
      wellFormed.jepIDs).bind
    exact fun _ => .pure fun _ holds => holds

theorem register_rule {context : JobExecutionPlanSubmissionContext} (filed : t.Filed)
    (wellFormed : context.WellFormed) :
    Triple (fun s => s.tables = t) (JobPlanManager.registerJobExecutionPlanSubmissionContext env context)
      (fun answer s => s.tables.Filed ∧ CatalogueStep t.catalogue (.register context, some answer) s.tables.catalogue)
      fun _ s => s.tables.Filed ∧ CatalogueStep t.catalogue (.register context, none) s.tables.catalogue := by
  let Loop (done : Bool) (u : PlanTables) : Prop :=
    u.Filed ∧ Catalogue.Registers context.jobExecutionPlans t.catalogue done u.catalogue
  have failed {outcome : Option Bool} (ne : outcome ≠ some true) (s : PlanSystem) (holds : ∃ done, Loop done s.tables) :
      s.tables.Filed ∧ CatalogueStep t.catalogue (.register context, outcome) s.tables.catalogue := by
    obtain ⟨done, filed', loop⟩ := holds
    exact ⟨filed', .notRegistered ne loop⟩
  unfold JobPlanManager.registerJobExecutionPlanSubmissionContext
  rw [if_neg (by simp [wellFormed.clusterId])]
  apply Triple.catching (F := fun _ s => ∃ done, Loop done s.tables)
  · apply ((saveJobPlan_rule filed wellFormed).conseq (fun _ => id) (fun _ _ => id) fun _ s holds =>
      (⟨false, holds⟩ : ∃ done, Loop done s.tables)).bind
    intro list
    cases list with
    | none => exact .throw fun s holds => ⟨true, holds⟩
    | some buildJobPlanList =>
      -- the builds are apart from the tables
      have builds := (@keeps_buildJobPlan env (Loop true) buildJobPlanList).conseq (fun _ => id)
        (fun _ _ => id) fun _ s holds => (⟨true, holds⟩ : ∃ done, Loop done s.tables)
      apply builds.bind
      exact fun _ => .pure fun s holds => ⟨holds.1, .registered holds.2⟩
  · intro e _
    exact .pure fun s holds => failed (by simp) s holds
  · exact fun e s _ holds => failed (by simp) s holds

/-- The row is deleted, or nothing is; if the answer is true it is. -/
theorem deleteRow_rule (filed : t.Filed) (member : row ∈ t.jobExecutionPlans) :
    Triple (fun s => s.tables = t) (do
        if ← JobPlanBuilder.deleteJobPlan env [row] then JobPlanManager.deleteRows env [row] else return false)
      (fun answer s => s.tables.Filed ∧
        (s.tables.catalogue = Function.update t.catalogue row.key none ∨ answer = false ∧
          s.tables.catalogue = t.catalogue))
      fun _ s => s.tables.Filed ∧
        (s.tables.catalogue = t.catalogue ∨ s.tables.catalogue = Function.update t.catalogue row.key none) := by
  let Post (answer : Bool) (s : PlanSystem) : Prop := s.tables.Filed ∧
    (s.tables.catalogue = Function.update t.catalogue row.key none ∨ answer = false ∧ s.tables.catalogue = t.catalogue)
  let Either (s : PlanSystem) : Prop := s.tables.Filed ∧
    (s.tables.catalogue = t.catalogue ∨ s.tables.catalogue = Function.update t.catalogue row.key none)
  have unchanged (s : PlanSystem) (same : s.tables = t) : Either s :=
    ⟨same ▸ filed, .inl (congrArg PlanTables.catalogue same)⟩
  have either (s : PlanSystem) (holds : s.tables = t ∨ Deleted row.key row.id t.catalogue s.tables) : Either s :=
    holds.elim (unchanged s) fun deleted => ⟨deleted.filed, .inr deleted.catalogue_eq⟩
  have failed (s : PlanSystem) (holds : Either s) : Post false s :=
    ⟨holds.1, holds.2.symm.imp_right fun same => ⟨rfl, same⟩⟩
  apply Triple.bind (Q := fun _ s => s.tables = t)
  · have jobs : Keeps (fun s => s.tables = t) (JobPlanBuilder.deleteJobPlan env [row]) :=
      keeps_onJobs _ (fun _ same => same) (fun _ _ same => same) [row]
    exact jobs.conseq (fun _ => id) (fun _ _ => id) fun _ => unchanged
  · intro rs
    cases rs with
    | false => exact .pure fun s same => failed s (unchanged s same)
    | true =>
      apply Triple.bind (Q := Post)
      · apply Triple.catching (F := fun _ s => s.tables = t ∨ Deleted row.key row.id t.catalogue s.tables)
        · apply (deleteJobPlan_rule filed member).bind
          exact fun _ => .pure fun s deleted => ⟨deleted.filed, .inl deleted.catalogue_eq⟩
        · exact fun _ _ => .pure fun s holds => failed s (either s holds)
        · exact fun _ s _ => either s
      · exact fun deleted => .pure fun s holds => holds

theorem delete_rule (filed : t.Filed) (named : isBlank (some clusterId) = false)
    (named' : isBlank (some jepID) = false) :
    Triple (fun s => s.tables = t) (JobPlanManager.deleteJobExecutionPlan env clusterId jepID)
      (fun answer s =>
        s.tables.Filed ∧ CatalogueStep t.catalogue (.delete clusterId jepID, some answer) s.tables.catalogue)
      fun _ s => s.tables.Filed ∧ CatalogueStep t.catalogue (.delete clusterId jepID, none) s.tables.catalogue := by
  have unchanged {outcome : Option Bool} (ne : outcome ≠ some true) (s : PlanSystem) (same : s.tables = t) :
      s.tables.Filed ∧ CatalogueStep t.catalogue (.delete clusterId jepID, outcome) s.tables.catalogue := by
    rw [same]
    exact ⟨filed, .notDeleted ne (.inl rfl)⟩
  let Found (list : List PlanEntity) : Prop :=
    list = [] ∨ ∃ row ∈ t.jobExecutionPlans, row.key = (clusterId, jepID) ∧ list = [row]
  apply Triple.bind (Q := fun list s => s.tables = t ∧ Found list)
  · apply Triple.catching (F := fun _ s => s.tables = t)
    · apply (query_rule fun t => t.selectJobExecutionPlan 0 (some clusterId) (some jepID) none).conseq (fun _ => id) _
        fun _ _ holds => holds.1
      rintro _ s ⟨same, rfl⟩
      exact ⟨same, filed.toKeyed.select named named'⟩
    · exact fun _ _ => .pure fun s same => ⟨same, .inl rfl⟩
    · exact fun _ s _ same => unchanged (by simp) s same
  · intro list
    apply Triple.of_imp (p := Found list) _ fun s holds => holds.2
    rintro (rfl | ⟨row, member, own, rfl⟩)
    · exact .pure fun s holds => unchanged (by simp) s holds.1
    · have deletes := @deleteRow_rule env t row filed member
      rw [own] at deletes
      apply deletes.conseq (fun s holds => holds.1)
      · rintro answer s ⟨filed', gone | ⟨rfl, same⟩⟩
        · rw [gone]
          cases answer with
          | true => exact ⟨filed', .deleted⟩
          | false => exact ⟨filed', .notDeleted (by simp) (.inr rfl)⟩
        · exact ⟨filed', .notDeleted (by simp) (.inl same)⟩
      · exact fun _ s holds => ⟨holds.1, .notDeleted (by simp) holds.2⟩

theorem deleteByID_rule (filed : t.Filed) (id : Nat) :
    Triple (fun s => s.tables = t) (JobPlanManager.deleteJobExecutionPlanByID env id)
      (fun answer s => s.tables.Filed ∧ CatalogueStep t.catalogue (.deleteByID id, some answer) s.tables.catalogue)
      fun _ s => s.tables.Filed ∧ CatalogueStep t.catalogue (.deleteByID id, none) s.tables.catalogue := by
  have unchanged {outcome : Option Bool} (ne : outcome ≠ some true) (s : PlanSystem) (same : s.tables = t) :
      s.tables.Filed ∧ CatalogueStep t.catalogue (.deleteByID id, outcome) s.tables.catalogue := by
    rw [same]
    exact ⟨filed, .notDeletedByID ne (.inl rfl)⟩
  apply Triple.bind ((queryJobPlanByID_rule id).conseq (fun _ same => same) (fun _ _ same => same) fun _ s same =>
    unchanged (by simp) s same.1)
  intro found
  apply Triple.of_imp (p := found = t.byID? id) _ fun s holds => holds.2
  intro same
  cases found with
  | none => exact .pure fun s holds => unchanged (by simp) s holds.1
  | some row =>
    obtain ⟨member, rfl⟩ := byID?_some same.symm
    have deletes := @deleteRow_rule env t row filed member
    rw [← filed.without member] at deletes
    apply deletes.conseq (fun s holds => holds.1)
    · rintro answer s ⟨filed', gone | ⟨rfl, same⟩⟩
      · rw [gone]
        cases answer with
        | true => exact ⟨filed', .deletedByID⟩
        | false => exact ⟨filed', .notDeletedByID (by simp) (.inr rfl)⟩
      · exact ⟨filed', .notDeletedByID (by simp) (.inl same)⟩
    · exact fun _ s holds => ⟨holds.1, .notDeletedByID (by simp) holds.2⟩

/-- Other requests store and delete nothing. -/
theorem keeps_others {J : PlanSystem → Prop} (enduring : PlanSystem.Enduring J) (request : PlanRequest)
    (reads : ¬ request.Edits) : Keeps J (request.answer env) := by
  cases request with
  | register context => exact absurd trivial reads
  | pause jep => exact enduring.pauseJobExecutionPlan jep
  | pauseOf clusterID jepID => exact enduring.pauseJobExecutionPlans clusterID jepID
  | resume id => exact enduring.resumeJobExecutionPlan id
  | resumeOf clusterID jepID => exact enduring.resumeJobExecutionPlans clusterID jepID
  | disable id => exact enduring.disableJobExecutionPlans id
  | disableOf clusterID jepID => exact enduring.disableJobExecutionPlansOf clusterID jepID
  | delete clusterID jepID => exact absurd trivial reads
  | deleteByID id => exact absurd trivial reads
  | publishEvent id => exact (enduring.publishEvent id).bind fun _ => .pure _

theorem answer_rule (filed : t.Filed) (request : PlanRequest) (named : request.Named) :
    Triple (fun s => s.tables = t) (request.answer env)
      (fun answer s => s.tables.Filed ∧ CatalogueStep t.catalogue (request, some answer) s.tables.catalogue)
      fun _ s => s.tables.Filed ∧ CatalogueStep t.catalogue (request, none) s.tables.catalogue := by
  by_cases edits : request.Edits
  · cases request with
    | register context => exact register_rule filed named
    | delete clusterID jepID => exact delete_rule filed named.1 named.2
    | deleteByID id => exact deleteByID_rule filed id
    | _ => exact edits.elim
  · have enduring : PlanSystem.Enduring fun s => s.tables.Filed ∧ s.tables.catalogue = t.catalogue :=
      .ofTables (I := fun u => u.Filed ∧ u.catalogue = t.catalogue) fun u id clusterID state holds =>
        ⟨holds.1.updateState id clusterID state,
          (funext fun _ => catalogue_updateState clusterID state _).trans holds.2⟩
    have step (outcome : Option Bool) (s : PlanSystem) (holds : s.tables.Filed ∧ s.tables.catalogue = t.catalogue) :
        s.tables.Filed ∧ CatalogueStep t.catalogue (request, outcome) s.tables.catalogue := by
      rw [holds.2]
      exact ⟨holds.1, .others edits⟩
    apply (keeps_others enduring request edits).conseq
    · rintro s rfl
      exact ⟨filed, rfl⟩
    · exact fun answer => step (some answer)
    · exact fun _ => step none

theorem byID?_of_row (filed : t.Filed) (member : row ∈ t.jobExecutionPlans) : t.byID? row.id = some row := by
  have positive := filed.positive row member
  have inside : row ∈ t.selectJobExecutionPlan row.id none none none := by
    simp [PlanTables.selectJobExecutionPlan, isBlank, member]
  rw [PlanTables.byID?, if_neg positive]
  cases rows : t.selectJobExecutionPlan row.id none none none with
  | nil => simp [rows] at inside
  | cons first rest =>
    have found : t.byID? row.id = some first := by rw [PlanTables.byID?, if_neg positive, rows, List.head?_cons]
    obtain ⟨there, same⟩ := byID?_some found
    rw [List.head?_cons, filed.eq_of_id there member same]

/-- It ends with a failure of the database, or with the plan of the row. -/
theorem loadJobExecutionPlan_rule (filed : t.Filed) (id : Nat) :
    Triple (fun s => s.tables = t) (JobExecutionPlanDao.loadJobExecutionPlan env id)
      (fun found s => s.tables = t ∧ found = (t.byID? id).map t.loaded) fun e s =>
        s.tables = t ∧ e = .daoException := by
  apply (queryJobPlanByID_rule id).bind
  intro found
  apply Triple.of_imp (p := found = t.byID? id) _ fun s holds => holds.2
  intro same
  rw [← same]
  cases found with
  | none => exact .pure fun s holds => ⟨holds.1, rfl⟩
  | some row =>
    have positive := filed.positive row (byID?_some same.symm).1
    have nodes : Triple (fun s => s.tables = t) (JobExecutionPlanDao.queryJobPlanNodeByJPID env row.id)
        (fun list s => s.tables = t ∧ list = some (t.nodesByJPID row.id)) fun e s =>
          s.tables = t ∧ e = .daoException := by
      unfold JobExecutionPlanDao.queryJobPlanNodeByJPID
      rw [if_neg positive]
      exact query_rule fun t => some (t.nodesByJPID row.id)
    have metas : Triple (fun s => s.tables = t) (JobExecutionPlanDao.queryXjobMetaByJPID env row.id)
        (fun list s => s.tables = t ∧ list = some (t.xjobMetasByJPID row.id)) fun e s =>
          s.tables = t ∧ e = .daoException := by
      unfold JobExecutionPlanDao.queryXjobMetaByJPID
      rw [if_neg positive]
      exact query_rule fun t => some (t.xjobMetasByJPID row.id)
    apply (nodes.conseq (fun s holds => holds.1) (fun _ _ holds => holds) fun _ _ holds => holds).bind
    intro list
    apply Triple.of_imp (p := list = some (t.nodesByJPID row.id)) _ fun s holds => holds.2
    rintro rfl
    apply (metas.conseq (fun s holds => holds.1) (fun _ _ holds => holds) fun _ _ holds => holds).bind
    intro list
    apply Triple.of_imp (p := list = some (t.xjobMetasByJPID row.id)) _ fun s holds => holds.2
    rintro rfl
    exact .pure fun s holds => ⟨holds.1, rfl⟩

end Calls

/-! ### Runs -/

namespace PlanTables

theorem Empty.filed {t : PlanTables} (empty : t.Empty) : t.Filed := by
  obtain ⟨plans, nodes, metas⟩ := empty
  refine ⟨⟨⟨?_, ?_, ?_, ?_⟩, ?_⟩, ?_, ?_, ?_⟩ <;> simp [plans, nodes, metas]

theorem Empty.catalogue {t : PlanTables} (empty : t.Empty) : t.catalogue = fun _ => none := by
  funext key
  apply catalogue_of_free
  rw [Free, empty.jobExecutionPlans]
  exact fun row member => absurd member List.not_mem_nil

end PlanTables

variable {env : PlanEnv} {s t : PlanSystem} {labels : List PlanReply}

theorem serves_refines {label : PlanReply} (filed : s.tables.Filed) (named : label.1.Named)
    (serves : Serves env s label t) : t.tables.Filed ∧ CatalogueStep s.tables.catalogue label t.tables.catalogue := by
  cases serves with
  | answered returned => exact (answer_rule filed _ named).ok rfl returned
  | exception thrown => exact (answer_rule filed _ named).error rfl thrown

/-- The entry with the ID, unless the database fails. -/
theorem loads_entry (filed : s.tables.Filed) (id : Nat) :
    Triple (· = s) (JobExecutionPlanDao.loadJobExecutionPlan env id)
      (fun found t => t.tables = s.tables ∧ ∀ entry, found.map (·.entry) = some entry ↔
        ∃ key, s.tables.catalogue key = some entry ∧ entry.id = id)
      fun e t => t.tables = s.tables ∧ e = .daoException := by
  apply (loadJobExecutionPlan_rule filed id).conseq
  · rintro _ rfl
    rfl
  · rintro _ t ⟨unchanged, rfl⟩
    refine ⟨unchanged, fun entry => ⟨fun found => ?_, ?_⟩⟩
    · rw [Option.map_map] at found
      obtain ⟨row, stored, rfl⟩ := Option.map_eq_some_iff.mp found
      obtain ⟨member, rfl⟩ := PlanTables.byID?_some stored
      exact ⟨row.key, filed.toKeyed.catalogue_of_row member, rfl⟩
    · rintro ⟨key, entered, rfl⟩
      obtain ⟨row, member, -, rfl⟩ := PlanTables.row_of_catalogue entered
      have found : s.tables.byID? row.id = some row := byID?_of_row filed member
      rw [show (s.tables.loaded row).entry.id = row.id from rfl, found]
      rfl
  · exact fun _ _ holds => holds

theorem filed_path (empty : s.tables.Empty) (run : Path (Serves env) s labels t)
    (named : ∀ label ∈ labels, label.1.Named) :
    t.tables.Filed ∧ Path CatalogueStep (fun _ => none) labels t.tables.catalogue := by
  obtain ⟨cat, path, filed, rfl⟩ := run.simulates (R := fun u cat => u.tables.Filed ∧ u.tables.catalogue = cat)
    (fun label member u cat v related serves => by
      obtain ⟨filed, rfl⟩ := related
      obtain ⟨filed', made⟩ := serves_refines filed (named label member) serves
      exact ⟨v.tables.catalogue, made, filed', rfl⟩) ⟨empty.filed, empty.catalogue⟩
  exact ⟨filed, path⟩

/-- Every run of the manager from tables without rows, whatever fails in it, is a run of the catalogue,
and what can be loaded are its entries. -/
theorem plans_as_filed (empty : s.tables.Empty) (run : Path (Serves env) s labels t)
    (named : ∀ label ∈ labels, label.1.Named) :
    Path CatalogueStep (fun _ => none) labels t.tables.catalogue ∧
      ∀ id, Triple (· = t) (JobExecutionPlanDao.loadJobExecutionPlan env id)
        (fun found u => u.tables = t.tables ∧ ∀ entry, found.map (·.entry) = some entry ↔
          ∃ key, t.tables.catalogue key = some entry ∧ entry.id = id)
        fun e u => u.tables = t.tables ∧ e = .daoException := by
  obtain ⟨filed, path⟩ := filed_path empty run named
  exact ⟨path, loads_entry filed⟩

/-- A plan is submitted and deleted. -/
theorem plans_as_filed_plain : ∃ (t : PlanSystem) (deleted : Bool),
    Path CatalogueStep (fun _ => none) [(.register ⟨"c", [.plain "p" "a"]⟩, some true), (.delete "c" "p", some deleted)]
      t.tables.catalogue := by
  obtain ⟨_, s, registered, rfl, -⟩ := @register_calm _ PlanEnv.calm_calm {} ⟨"c", [.plain "p" "a"]⟩
    (by decide) (by simp)
  obtain ⟨deleted, t, gone, -⟩ := deleteJobExecutionPlan_calm PlanEnv.calm_calm (s := s) "c" "p"
  have first : Serves .calm {} (.register ⟨"c", [.plain "p" "a"]⟩, some true) s := .answered registered
  have second : Serves .calm s (.delete "c" "p", some deleted) t := .answered gone
  have run : Path (Serves .calm) {} _ t := .cons first (.cons second (.nil t))
  refine ⟨t, deleted, (plans_as_filed ⟨rfl, rfl, rfl⟩ run ?_).1⟩
  intro label member
  simp only [List.mem_cons, List.not_mem_nil, or_false] at member
  rcases member with rfl | rfl
  · exact plain_wellFormed ["a"]
  · exact ⟨by decide, by decide⟩

end Hella
