import Hella.Engine.NodeHandlers
import Hella.Parser.Parser
import Hella.Parser.Schema

/-!
# The paths of a fork

A fork's paths are stored in one column: the parser joins their targets with commas, and
the handler splits the column again. The list comes back unless a target has a comma of its
own or the last target is empty, and the schema allows both.
-/
namespace Hella

open Text Xml ExecutionPlanParser

/-- The targets that a fork element names, trimmed. -/
def targets (fork : Node) : List String := fork.elements.map fun path => trim (path.attributeText "to")

/-- The handler of the stored node answers with the targets the element names, and counts them
in the pair's variable. -/
def PathsSurvive (fork : Node) (clusterID : String) : Prop :=
  ∃ node, buildForkNode fork clusterID = .ok node ∧ ∀ s : Run,
    ∃ s', ForkNodeHandler.multiExit node.jobPlanNode s = .ok (targets fork) s' ∧
      s'.vars.lookup (node.name ++ orNull node.joinName) = some (toString (targets fork).length)

theorem requiredProperty_declared {node : Node} {element name : String} {attributes : List Attribute}
    (valid : declares element attributes node = true) (declared : Schema.nameAttribute name ∈ attributes) :
    requiredProperty node name = .ok (trim (node.attributeText name)) := by
  obtain ⟨value, read⟩ := required_of_declares valid declared rfl
  exact requiredProperty_eq read

theorem path_target {path : Node} (valid : Schema.path path = true) :
    path.getNodeName = "path" ∧ requiredProperty path "to" = .ok (trim (path.attributeText "to")) := by
  simp only [Schema.path, Schema.leaf, Bool.and_eq_true] at valid
  constructor
  · obtain ⟨given, children, rfl⟩ := element_of_declares valid.1
    rfl
  · exact requiredProperty_declared valid.1 (by simp)

theorem forkPaths_eq {fork : Node} (valid : ∀ path ∈ fork.elements, Schema.path path = true) :
    forkPaths fork = .ok (targets fork) := by
  have all : fork.elements.filter (·.getNodeName = "path") = fork.elements := by
    rw [List.filter_eq_self]
    intro path member
    simpa using (path_target (valid path member)).1
  rw [forkPaths, all]
  apply mapM_ok
  intro path member
  exact (path_target (valid path member)).2

/-- What the parser makes of a valid fork element. -/
def forkNode (fork : Node) (clusterID : String) : SubmittedNode where
  type := .fork
  name := trim (fork.attributeText "name")
  executorClusterID := clusterID
  joinName := some (trim (fork.attributeText "joinName"))
  toNode := some (",".intercalate (targets fork))

theorem buildForkNode_eq {fork : Node} (valid : Schema.fork fork = true) (clusterID : String) :
    buildForkNode fork clusterID = .ok (forkNode fork clusterID) := by
  simp only [Schema.fork, Bool.and_eq_true, List.all_eq_true] at valid
  obtain ⟨⟨⟨declared, -⟩, -⟩, paths⟩ := valid
  have name : requiredProperty fork "name" = _ := requiredProperty_declared declared (by simp)
  have joinName : requiredProperty fork "joinName" = _ := requiredProperty_declared declared (by simp)
  rw [buildForkNode, name, joinName, forkPaths_eq paths]
  rfl

theorem multiExit_eq {node : JobPlanNode} {column : String} (stored : node.toNode = some column) (s : Run) :
    ∃ s', ForkNodeHandler.multiExit node s = .ok (split column) s' ∧
      s'.vars.lookup (node.name ++ orNull node.joinName) = some (toString (split column).length) := by
  simp only [ForkNodeHandler.multiExit, stored]
  refine ⟨_, rfl, ?_⟩
  simp

theorem several_targets {fork : Node} (valid : Schema.fork fork = true) : 2 ≤ (targets fork).length := by
  simp only [Schema.fork, Bool.and_eq_true, decide_eq_true_eq] at valid
  simpa [targets] using valid.1.2

/-- Nothing else matters than what `split` makes of the column. -/
theorem survive_iff_split {fork : Node} (valid : Schema.fork fork = true) (clusterID : String) :
    PathsSurvive fork clusterID ↔ split (",".intercalate (targets fork)) = targets fork := by
  have built := buildForkNode_eq valid clusterID
  have handled := @multiExit_eq (forkNode fork clusterID).jobPlanNode _ rfl
  constructor
  · rintro ⟨node, same, survives⟩
    rw [built] at same
    cases same
    obtain ⟨s', answer, -⟩ := survives {}
    obtain ⟨s'', actual, -⟩ := handled {}
    rw [actual] at answer
    exact (EStateM.Result.ok.inj answer).1
  · intro same
    refine ⟨_, built, ?_⟩
    intro s
    obtain ⟨s', answer, counter⟩ := handled s
    rw [same] at answer counter
    exact ⟨s', answer, counter⟩

/-- A valid fork's paths come back from the stored node, in order and with the right count,
exactly when no target has a comma and the last one is not empty. -/
theorem paths_survive_iff (fork : Node) (valid : Schema.fork fork = true) (clusterID : String) :
    PathsSurvive fork clusterID ↔
      (∀ target ∈ targets fork, ',' ∉ target.toList) ∧ (targets fork).getLast? ≠ some "" := by
  rw [survive_iff_split valid]
  exact split_intercalate_iff (several_targets valid)

/-- A fork element named `f` for the join `j`, with a path to each target. -/
def forkTo (names : List String) : Node :=
  .element "fork" [("joinName", "j"), ("name", "f")] (names.map fun name => .element "path" [("to", name)] [])

theorem paths_survive_two : PathsSurvive (forkTo ["collect", "store"]) "engine" :=
  (paths_survive_iff (forkTo ["collect", "store"]) (by decide) "engine").mpr (by decide)

/-- A target with a comma is read back as two, and the join waits for a third path. -/
theorem paths_lost_comma :
    ¬ ∀ (fork : Node) (clusterID : String), Schema.fork fork = true → PathsSurvive fork clusterID := by
  intro survive
  have valid : Schema.fork (forkTo ["a,b", "c"]) = true := by decide
  have same := (survive_iff_split valid "engine").mp (survive _ "engine" valid)
  have plain := ((split_intercalate_iff (several_targets valid)).mp same).1
  exact plain "a,b" (by decide) (by decide)

end Hella
