import Hella.Cluster.Manager
import Hella.Protocol.World

/-!
# The executors of one cluster at their engine

The processes that exchange heartbeats with the engine and the same processes at
ZooKeeper. A process reports once its status reporter is started; the engine is told
the cluster ID and nothing about mastership.
-/
namespace Hella

open Runs

structure Deployment where
  world : World := {}
  cluster : Cluster := {}

/-- The process whose reporter or job makes a step. -/
def Action.process : Action → Option Nat
  | .report p _ | .giveUp p | .advance p _ _ => some p
  | .receive r => some r.process
  | _ => none

inductive DeploymentAction where
  | zookeeper (a : ClusterAction)
  | engine (a : Action)

namespace Deployment

variable (set : Setting)

/-- `isMasterNode` of a process. -/
def IsMasterNode (s : Deployment) (p : Nat) : Prop := ∃ M, s.cluster.members[p]? = some M ∧ M.isMasterStatus = true

inductive Step : Deployment → DeploymentAction → Deployment → Prop where
  | starts {s w c} (joined : World.Step set s.world .join w) (started : Cluster.Step .executor s.cluster .start c) :
    Step s (.zookeeper .start) ⟨w, c⟩
  | elects {s a c} (step : Cluster.Step .executor s.cluster a c) (other : a ≠ .start) :
    Step s (.zookeeper a) ⟨s.world, c⟩
  | beats {s a w} (step : World.Step set s.world a w) (other : a ≠ .join)
      (reporting : ∀ p, a.process = some p → ∃ M, s.cluster.members[p]? = some M ∧ M.live = true ∧ M.started = true) :
    Step s (.engine a) ⟨w, s.cluster⟩

def system : System Deployment DeploymentAction :=
  ⟨fun s => World.Initial set s.world ∧ s.cluster = {}, Step set⟩

end Deployment

end Hella
