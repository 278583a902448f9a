import Hella.Control.Steady

/-!
# Queues only grow

Whatever the engine does apart from answering a heartbeat, it appends to the
dispatcher's queue of a cluster and takes nothing out of it.
-/
namespace Hella

open Exec

/-- The queue of the cluster is extended. -/
def Store.Grown (cluster : String) (s t : Store) : Prop :=
  (s.jobEventsMap.lookup cluster).getD [] <+: (t.jobEventsMap.lookup cluster).getD []

namespace Store.Grown

variable {env : Env} {cluster : String} {s t u : Store}

theorem refl (s : Store) : Grown cluster s s := List.prefix_rfl

theorem trans (first : Grown cluster s t) (second : Grown cluster t u) : Grown cluster s u :=
  List.IsPrefix.trans first second

theorem of_same (same : t.jobEventsMap = s.jobEventsMap) : Grown cluster s t := ⟨[], by rw [same, List.append_nil]⟩

theorem of_append (event : JobEvent) (rest : t.jobEventsMap = if event.executorClusterID ∈
    s.executorRegisterDateMap then
      s.jobEventsMap.insert event.executorClusterID ((s.jobEventsMap.lookup event.executorClusterID).getD [] ++ [event])
      else s.jobEventsMap) : Grown cluster s t := by
  rw [Grown, rest]
  split
  · by_cases same : cluster = event.executorClusterID
    · rw [same, AList.lookup_insert]
      exact List.prefix_append _ _
    · exact ⟨[], by rw [AList.lookup_insert_ne same, List.append_nil]⟩
  · exact List.prefix_rfl

theorem of_write (write : Write env s t) : Grown cluster s t := by
  cases write with
  | dispatches event info fresh type => exact of_append event rfl
  | _ => exact of_same rfl

theorem doDispatch (event : JobEvent) : Keeps (Grown cluster s) (Store.doDispatch event) := by
  refine Keeps.modifying fun t holds => holds.trans (of_append event ?_)
  split <;> rfl

end Store.Grown

namespace Engine

variable {env : Env} {cluster : String} {s₀ : Store} {α : Type}

def Grown (cluster : String) (s₀ : Store) (e : Engine) : Prop := Store.Grown cluster s₀ e.store

theorem grown_onShared {body : StoreM α} (keeps : Keeps (Store.Grown cluster s₀) body) :
    Keeps (Grown cluster s₀) (onShared body) :=
  keeps.zoom (fun _ holds => holds) fun _ _ _ holds => holds

/-- The managers and the instances only append. -/
theorem steady_grown : Steady env (Grown cluster s₀) := by
  apply steady_of_store
  intro s t change holds
  refine holds.trans ?_
  cases change with
  | writes write => exact .of_write write
  | notices noticed => exact .of_same (by rw [noticed.rest])
  | forgets => exact .of_same rfl
  | registers => exact .of_same rfl
  | kills event => exact .of_append event rfl

end Engine

end Hella
