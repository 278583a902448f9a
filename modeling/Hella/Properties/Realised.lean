import Hella.Lib.Lexical
import Hella.Parser.Meaning
import Hella.Properties.ForkPaths

/-!
# Which valid documents the parser understands

The schema and the parser read one format twice. The parser trims every attribute, knows
one word for truth, has no constant for what is left out, keeps integers in 32 bits, and
puts the cluster of the caller in place of some that are given.
-/
namespace Hella

open Text Xml ExecutionPlanParser

/-! ### What a document has to keep to -/

/-- A text without outer white space, if there is one. -/
def Plain (node : Node) (name : String) : Prop := ∀ text ∈ node.getAttribute name, trim text = text

/-- A number of 32 bits, if there is one. -/
def FitsInt (node : Node) (name : String) : Prop :=
  ∀ text ∈ node.getAttribute name, ∀ n ∈ integerValue text, -2 ^ 31 ≤ n ∧ n < 2 ^ 31

/-- A cluster that is blank is the caller's. -/
def NamesCluster (clusterID : String) (node : Node) : Prop :=
  ∀ text ∈ node.getAttribute "executorClusterID", if trim text = "" then clusterID = text else trim text = text

/-- The user of the job of a node. -/
def PlainUser (node : Node) : Prop := Inside node "job" (Plain · "executeUser")

structure ReadableStart (clusterID : String) (node : Node) : Prop where
  to_ : Plain node "to"
  executorClusterID : ∀ text ∈ node.getAttribute "executorClusterID", clusterID = text

structure ReadableFork (node : Node) : Prop where
  name : Plain node "name"
  joinName : Plain node "joinName"
  paths : ∀ path ∈ node.elements, Plain path "to"

structure ReadableJoin (node : Node) : Prop where
  name : Plain node "name"
  to_ : Plain node "to"
  forkName : Plain node "forkName"

structure ReadableAction (clusterID : String) (node : Node) : Prop where
  name : Plain node "name"
  executorClusterID : NamesCluster clusterID node
  delayType : (node.getAttribute "delayType").isSome = true
  delayTime : FitsInt node "delayTime"
  errorMaxRedoTimes : FitsInt node "errorMaxRedoTimes"
  errorRedoPeriod : FitsInt node "errorRedoPeriod"
  ok : Inside node "ok" (Plain · "to")
  error : Inside node "error" (Plain · "to")
  executeUser : PlainUser node

structure ReadableClosing (clusterID : String) (node : Node) : Prop where
  name : Plain node "name"
  executorClusterID : NamesCluster clusterID node
  executeUser : PlainUser node

def ReadableNode (clusterID : String) (node : Node) : Prop :=
  if node.getNodeName = "start" then ReadableStart clusterID node
  else if node.getNodeName = "fork" then ReadableFork node
  else if node.getNodeName = "join" then ReadableJoin node
  else if node.getNodeName = "action" then ReadableAction clusterID node
  else ReadableClosing clusterID node

structure ReadablePlan (clusterID : String) (node : Node) : Prop where
  name : Plain node "name"
  cronExpression : Plain node "cronExpression"
  event : Plain node "event"
  ignoreError : ∀ text ∈ node.getAttribute "ignoreError", collapse text ≠ "1"
  type : (node.getAttribute "type").isSome = true
  /-- no instruction bears the name of an element -/
  instructions : ∀ child ∈ node.getChildNodes, child.isElement = false → builder child.getNodeName = none
  nodes : ∀ child ∈ node.elements, ReadableNode clusterID child

/-- No two plans have the same number. -/
def DistinctIds (root : Node) : Prop := (root.elements.map fun plan => integerValue (plan.attributeText "id")).Nodup

instance (root : Node) : Decidable (DistinctIds root) := inferInstanceAs (Decidable (List.Nodup _))

/-! ### Attributes -/

theorem bind_ok_iff {α β : Type} {x : ParserM α} {f : α → ParserM β} {b : β} :
    x >>= f = .ok b ↔ ∃ a, x = .ok a ∧ f a = .ok b := by
  cases x with
  | error thrown => exact iff_of_false (fun read => by cases read) (fun ⟨_, read, _⟩ => by cases read)
  | ok a => exact ⟨fun read => ⟨a, rfl, read⟩, fun ⟨_, read, rest⟩ => by cases read; exact rest⟩

theorem pure_ok_iff {α : Type} {a b : α} : (pure a : ParserM α) = .ok b ↔ a = b := by
  constructor
  · exact Except.ok.inj
  · rintro rfl
    rfl

theorem ok_bind {α β : Type} (a : α) (f : α → ParserM β) : (Except.ok a >>= f) = f a := rfl

section Attributes

variable {node : Node} {name : String}

theorem attributeText_eq {text : String} (read : node.getAttribute name = some text) :
    node.attributeText name = text := by
  rw [Node.attributeText, read]
  rfl

theorem attributeText_none (absent : node.getAttribute name = none) : node.attributeText name = "" := by
  rw [Node.attributeText, absent]
  rfl

theorem lookup_getAttributes {given : List (String × String)} (attributes : node.getAttributes = some given) :
    given.lookup name = node.getAttribute name := by
  rw [Node.getAttribute, attributes]
  rfl

theorem getAttributes_of_element (element : node.isElement = true) : ∃ given, node.getAttributes = some given := by
  cases node with
  | element elementName given children => exact ⟨given, rfl⟩
  | text data => cases element
  | instruction target data => cases element

theorem getProperty_eq (element : node.isElement = true) :
    getProperty node name = .ok (trim (node.attributeText name)) := by
  obtain ⟨given, attributes⟩ := getAttributes_of_element element
  have read : getProperty node name =
      (given.lookup name).elim (Except.ok "") fun value => Except.ok (trim value) := by
    rw [getProperty, getAttributes, attributes]
    cases found : given.lookup name with
    | none =>
      simp [found]
      rfl
    | some value =>
      simp [found]
      rfl
  rw [read, lookup_getAttributes attributes]
  cases found : node.getAttribute name with
  | none =>
    rw [attributeText_none found]
    rfl
  | some text =>
    rw [attributeText_eq found]
    rfl

/-- The cluster the parser gives to a node that names one. -/
def clusterOf (clusterID : String) (node : Node) : String :=
  if trim (node.attributeText "executorClusterID") = "" then clusterID
    else trim (node.attributeText "executorClusterID")

theorem getPropertyOr_eq (element : node.isElement = true) (clusterID : String) :
    getPropertyOr node "executorClusterID" clusterID = .ok (clusterOf clusterID node) := by
  rw [getPropertyOr, getProperty_eq element]
  rfl

theorem plain_iff : Plain node name ↔ trim (node.attributeText name) = node.attributeText name := by
  cases found : node.getAttribute name with
  | none => simp [Plain, found, attributeText_none found, show trim "" = "" by decide]
  | some text => simp [Plain, found, attributeText_eq found]

/-- The trimmed text is the value exactly when there is nothing to trim. -/
theorem carries_trim : Carries node name (some (trim (node.attributeText name))) ↔ Plain node name := by
  constructor
  · intro carries text read
    have same := carries text read
    rw [attributeText_eq read] at same
    exact Option.some.inj same
  · intro plain text read
    rw [attributeText_eq read, plain text read]

theorem carries_clusterOf {clusterID : String} :
    Carries node "executorClusterID" (some (clusterOf clusterID node)) ↔ NamesCluster clusterID node := by
  have meets {text : String} (read : node.getAttribute "executorClusterID" = some text) :
      some (clusterOf clusterID node) = some text ↔
        if trim text = "" then clusterID = text else trim text = text := by
    rw [clusterOf, attributeText_eq read, Option.some.injEq]
    split <;> rfl
  simp only [Carries, NamesCluster, Option.mem_def]
  exact forall₂_congr fun text read => meets read

theorem carries_enumeration {values : List String} (tight : ∀ value ∈ values, trim value = value)
    (valid : ∀ text, node.getAttribute name = some text → enumeration values text = true) :
    Carries node name (some (trim (node.attributeText name))) := by
  apply carries_trim.mpr
  intro text read
  exact tight text (by simpa [enumeration] using valid text read)

/-- An optional enumeration has a constant exactly where it is given. -/
theorem enumeration_read {E : Type} {constants : List (String × E)} {values : List String}
    (known : ∀ value ∈ values, (constants.lookup value).isSome = true)
    (tight : ∀ value ∈ values, trim value = value ∧ isBlank (some value) = false)
    (valid : ∀ text, node.getAttribute name = some text → enumeration values text = true) :
    Carries node name (some (trim (node.attributeText name))) ∧
      (node.getAttribute name = none → enumGetter constants (trim (node.attributeText name)) = .ok none) ∧
      ((∃ constant, enumGetter constants (trim (node.attributeText name)) = .ok (some constant)) ↔
        (node.getAttribute name).isSome = true) := by
  have carries := carries_enumeration (fun value member => (tight value member).1) valid
  have blank (absent : node.getAttribute name = none) :
      enumGetter constants (trim (node.attributeText name)) = .ok none := by
    have empty : isBlank (some (trim "")) = true := by decide +kernel
    rw [attributeText_none absent, enumGetter, if_pos empty]
  refine ⟨carries, blank, ?_⟩
  cases found : node.getAttribute name with
  | none =>
    rw [blank found]
    simp
  | some text =>
    have member : text ∈ values := by simpa [enumeration] using valid text found
    obtain ⟨constant, value⟩ := Option.isSome_iff_exists.mp (known text member)
    rw [Option.some.inj (carries text found), enumGetter, if_neg (by simp [(tight text member).2]), value]
    exact iff_of_true ⟨constant, rfl⟩ rfl

section Integers

variable (valid : ∀ text, node.getAttribute name = some text → integer text = true) (element : node.isElement = true)
include valid element

theorem getIntegerProperty_eq : getIntegerProperty node name 0 = match node.getAttribute name with
    | none => .ok 0
    | some text =>
      match (integerValue text).filter (fun n => decide (-2 ^ 31 ≤ n ∧ n < 2 ^ 31)) with
      | none => .error .numberFormatException
      | some n => .ok n := by
  obtain ⟨given, attributes⟩ := getAttributes_of_element element
  have read : getAttributes node = .ok given := by
    rw [getAttributes, attributes]
    rfl
  rw [getIntegerProperty, read, ok_bind, lookup_getAttributes attributes]
  cases found : node.getAttribute name with
  | none => rfl
  | some text =>
    obtain ⟨n, value⟩ := Option.isSome_iff_exists.mp (valid text found)
    have number : integerValueOf (trim text) = if -2 ^ 31 ≤ n ∧ n < 2 ^ 31 then some n else none := by
      rw [trim_eq_collapse_of_integer value]
      exact integerValueOf_of_parseInt value
    simp only [number, value, Option.filter_some, decide_eq_true_eq]
    by_cases fits : -2 ^ 31 ≤ n ∧ n < 2 ^ 31
    · simp only [if_pos fits]
      rfl
    · simp only [if_neg fits]
      rfl

theorem carries_of_getIntegerProperty {n : Int} (read : getIntegerProperty node name 0 = .ok n) :
    CarriesInteger node name n := by
  intro text found
  rw [getIntegerProperty_eq valid element, found] at read
  dsimp only at read
  split at read
  · cases read
  next m value =>
    cases read
    exact (Option.filter_eq_some_iff.mp value).1

theorem getIntegerProperty_ok_iff : (∃ n, getIntegerProperty node name 0 = .ok n) ↔ FitsInt node name := by
  rw [getIntegerProperty_eq valid element]
  cases found : node.getAttribute name with
  | none => simp [FitsInt, found]
  | some text =>
    obtain ⟨n, value⟩ := Option.isSome_iff_exists.mp (valid text found)
    have small : FitsInt node name ↔ -2 ^ 31 ≤ n ∧ n < 2 ^ 31 := by
      simp only [FitsInt, found, value, Option.mem_def, Option.some.injEq, forall_eq']
    rw [small]
    simp only [value, Option.filter_some, decide_eq_true_eq]
    by_cases fits : -2 ^ 31 ≤ n ∧ n < 2 ^ 31
    · rw [if_pos fits]
      exact ⟨fun _ => fits, fun _ => ⟨n, rfl⟩⟩
    · rw [if_neg fits]
      constructor
      · rintro ⟨_, ⟨⟩⟩
      · exact fun small => absurd small fits

end Integers

end Attributes

/-! ### The elements of a plan -/

/-- The value of a declared attribute is one of its type. -/
theorem valid_attribute {element name : String} {attributes : List Attribute} {type : String → Bool} {node : Node}
    (required : Bool) (valid : declares element attributes node = true) (distinct : (attributes.map (·.name)).Nodup)
    (declared : ⟨name, required, type⟩ ∈ attributes) :
    ∀ text, node.getAttribute name = some text → type text = true :=
  fun _ read => typed_of_declares valid declared distinct read

theorem getNodeName_of_declares {element : String} {attributes : List Attribute} {node : Node}
    (valid : declares element attributes node = true) : node.getNodeName = element ∧ node.isElement = true := by
  obtain ⟨given, children, rfl⟩ := element_of_declares valid
  exact ⟨rfl, rfl⟩

section Elements

variable {node : Node} {clusterID : String}

theorem start_iff (valid : Schema.start node = true) :
    (∃ built, buildStartNode node clusterID = .ok built ∧ built.RealisesStart node) ↔ ReadableStart clusterID node := by
  simp only [Schema.start, Schema.leaf, Bool.and_eq_true] at valid
  have to_ : requiredProperty node "to" = _ := requiredProperty_declared valid.1 (by simp)
  have target := @carries_trim node "to"
  rw [buildStartNode, to_]
  generalize trim (node.attributeText "to") = to_ at target ⊢
  constructor
  · rintro ⟨_, ⟨⟩, realises⟩
    exact ⟨target.mp realises.to_, fun text read => Option.some.inj (realises.executorClusterID text read)⟩
  · intro readable
    refine ⟨_, rfl, rfl, target.mpr readable.to_, fun text read => ?_⟩
    exact congrArg some (readable.executorClusterID text read)

theorem join_iff (valid : Schema.join node = true) :
    (∃ built, buildJoinNode node clusterID = .ok built ∧ built.RealisesJoin node) ↔ ReadableJoin node := by
  simp only [Schema.join, Schema.leaf, Bool.and_eq_true] at valid
  have name : requiredProperty node "name" = _ := requiredProperty_declared valid.1 (by simp)
  have to_ : requiredProperty node "to" = _ := requiredProperty_declared valid.1 (by simp)
  have forkName : requiredProperty node "forkName" = _ := requiredProperty_declared valid.1 (by simp)
  have named := @carries_trim node "name"
  have target := @carries_trim node "to"
  have fork := @carries_trim node "forkName"
  rw [buildJoinNode, name, to_, forkName]
  generalize trim (node.attributeText "name") = name at named ⊢
  generalize trim (node.attributeText "to") = to_ at target ⊢
  generalize trim (node.attributeText "forkName") = forkName at fork ⊢
  constructor
  · rintro ⟨_, ⟨⟩, realises⟩
    exact ⟨named.mp realises.name, target.mp realises.to_, fork.mp realises.forkName⟩
  · intro readable
    exact ⟨_, rfl, rfl, named.mpr readable.name, target.mpr readable.to_, fork.mpr readable.forkName⟩

/-- Trimmed or not, joined paths are the same only where nothing is trimmed. -/
theorem fork_iff (valid : Schema.fork node = true) :
    (∃ built, buildForkNode node clusterID = .ok built ∧ built.RealisesFork node) ↔ ReadableFork node := by
  have paths : (forkNode node clusterID).toNode = some (",".intercalate (node.elements.map (·.attributeText "to"))) ↔
      ∀ path ∈ node.elements, Plain path "to" := by
    have split_ : targets node = (node.elements.map (·.attributeText "to")).map trim := by
      rw [targets, List.map_map]
      rfl
    have joined (names : List String) : ",".intercalate (names.map trim) = ",".intercalate names ↔
        ∀ name ∈ names, trim name = name :=
      intercalate_map_eq_iff (length_strip_le _) (fun _ => strip_eq_self) names
    rw [forkNode, Option.some.injEq, split_, joined, List.forall_mem_map]
    exact forall₂_congr fun path member => plain_iff.symm
  rw [buildForkNode_eq valid]
  constructor
  · rintro ⟨_, ⟨⟩, realises⟩
    exact ⟨carries_trim.mp realises.name, carries_trim.mp realises.joinName, paths.mp realises.paths⟩
  · intro readable
    refine ⟨forkNode node clusterID, rfl, rfl, ?_, ?_, paths.mpr readable.paths⟩
    · exact carries_trim.mpr readable.name
    · exact carries_trim.mpr readable.joinName

/-- The texts of a job come over as they are. -/
theorem job_iff (valid : Schema.job node = true) :
    ∃ job, getXjobMeta node = .ok job ∧ (job.Realises node ↔ Plain node "executeUser") := by
  simp only [Schema.job, Bool.and_eq_true] at valid
  obtain ⟨⟨declared, -⟩, contents⟩ := valid
  have element := (getNodeName_of_declares declared).2
  -- of the four attributes only the mode is required, and it is a constant
  have mode : Carries node "mode" (some (trim (node.attributeText "mode"))) := by
    apply @carries_enumeration node "mode" ["httpGet", "httpPost", "script"] (by decide)
    exact valid_attribute true declared (by decide) List.mem_cons_self
  split at contents
  -- the schema asks for the four children in this order
  next executionContent jobClassName args description children =>
    simp only [Schema.content, Bool.and_eq_true] at contents
    obtain ⟨⟨⟨⟨first, -⟩, ⟨second, -⟩⟩, ⟨third, -⟩⟩, ⟨fourth, -⟩⟩ := contents
    have first := (getNodeName_of_declares first).1
    have second := (getNodeName_of_declares second).1
    have third := (getNodeName_of_declares third).1
    have fourth := (getNodeName_of_declares fourth).1
    refine ⟨{
      mode := trim (node.attributeText "mode")
      executeUser := trim (node.attributeText "executeUser")
      executionContent := some executionContent.getTextContent
      jobClassName := some jobClassName.getTextContent
      args := some args.getTextContent
      description := some description.getTextContent }, ?_, ?_, ?_⟩
    · rw [getXjobMeta, getProperty_eq element, ok_bind, getProperty_eq element, ok_bind, onElements, children]
      simp [jobPropertie, first, second, third, fourth]
      rfl
    · exact fun realises => carries_trim.mp realises.executeUser
    · intro plain
      constructor
      · exact mode
      · exact carries_trim.mpr plain
      -- each text of the job is that of the one child with its name
      all_goals
        intro child member own
        rw [children] at member
        simp only [List.mem_cons, List.not_mem_nil, or_false] at member
        rcases member with rfl | rfl | rfl | rfl <;> simp_all
  next => cases contents

/-! ### The nodes with jobs -/

variable {built : SubmittedNode} {job child : Node} {name : String} {holds : Node → Prop}

/-- Where one child alone has the name, it decides. -/
theorem inside_iff (there : child ∈ node.elements) (own : child.getNodeName = name)
    (alone : ∀ other ∈ node.elements, other.getNodeName = name → other = child) :
      Inside node name holds ↔ holds child := by
  constructor
  · exact fun inside => inside child there own
  · intro here other member same
    rw [alone other member same]
    exact here

theorem inside_of_absent (absent : ∀ other ∈ node.elements, other.getNodeName ≠ name) : Inside node name holds :=
  fun other member same => absurd same (absent other member)

theorem realisesJob_iff {submitted : SubmittedJob} (made : built.xjobMeta = some submitted)
    (there : job ∈ node.elements)
    (own : job.getNodeName = "job") (alone : ∀ other ∈ node.elements, other.getNodeName = "job" → other = job)
    (read : submitted.Realises job ↔ Plain job "executeUser") : built.RealisesJob node ↔ PlainUser node := by
  rw [SubmittedNode.RealisesJob, PlainUser, inside_iff there own alone, inside_iff there own alone, made]
  simpa using read

theorem realisesJob_absent (absent : ∀ other ∈ node.elements, other.getNodeName ≠ "job") :
    built.RealisesJob node ↔ PlainUser node :=
  iff_of_true (inside_of_absent absent) (inside_of_absent absent)

theorem closing_iff {type : JobPlanNodeType} (valid : Schema.closing name node = true) :
    (∃ built, buildClosingNode type node clusterID = .ok built ∧ built.RealisesClosing node type) ↔
      ReadableClosing clusterID node := by
  simp only [Schema.closing, Bool.and_eq_true] at valid
  obtain ⟨⟨declared, -⟩, jobs⟩ := valid
  have element := (getNodeName_of_declares declared).2
  have cluster := getPropertyOr_eq element clusterID
  have placed := @carries_clusterOf node clusterID
  have property : getProperty node "name" = _ := getProperty_eq element
  have named := @carries_trim node "name"
  generalize clusterOf clusterID node = executorClusterID at cluster placed
  generalize trim (node.attributeText "name") = ownName at property named
  let base : SubmittedNode := { type := type, name := ownName, executorClusterID := executorClusterID }
  -- the children fill in the job and nothing else
  have filled : ∃ xjobMeta, buildClosingNode type node clusterID = .ok { base with xjobMeta := xjobMeta } ∧
      (SubmittedNode.RealisesJob { base with xjobMeta := xjobMeta } node ↔ PlainUser node) := by
    rw [buildClosingNode, cluster, ok_bind, property, ok_bind, onElements]
    cases children : node.elements with
    | nil => exact ⟨none, rfl, realisesJob_absent (by simp [children])⟩
    | cons job rest =>
      rw [children] at jobs
      cases rest with
      | cons second rest => cases jobs
      | nil =>
        have valid : Schema.job job = true := jobs
        obtain ⟨submitted, got, read⟩ := job_iff valid
        simp only [Schema.job, Bool.and_eq_true] at valid
        have own := (getNodeName_of_declares valid.1.1).1
        refine ⟨some submitted, ?_, realisesJob_iff rfl (by simp [children]) own (by simp [children]) read⟩
        rw [List.foldlM_cons, closingPropertie, if_pos own, got]
        rfl
  obtain ⟨xjobMeta, made, job⟩ := filled
  rw [made]
  constructor
  · rintro ⟨_, ⟨⟩, realises⟩
    exact ⟨named.mp realises.name, placed.mp realises.executorClusterID, job.mp realises.job⟩
  · intro readable
    exact ⟨_, rfl, rfl, named.mpr readable.name, placed.mpr readable.executorClusterID, job.mpr readable.executeUser⟩

/-- The job, if there is one, comes first, then the two targets. -/
structure ActionChildren (node okNode errorNode : Node) (jobs : List Node) : Prop where
  children : node.elements = jobs ++ [okNode, errorNode]
  jobs : Schema.optionalJob jobs = true
  ok : Schema.ok okNode = true
  error : Schema.error errorNode = true

theorem actionChildren (valid : Schema.action node = true) :
    ∃ okNode errorNode jobs, ActionChildren node okNode errorNode jobs := by
  simp only [Schema.action, Bool.and_eq_true] at valid
  have contents := valid.2
  split at contents
  next errorNode okNode jobs reversed =>
    simp only [Bool.and_eq_true] at contents
    refine ⟨okNode, errorNode, jobs.reverse, ?_, contents.1.1, contents.1.2, contents.2⟩
    rw [← List.reverse_reverse node.elements, reversed]
    simp
  next => cases contents

namespace ActionChildren

variable {okNode errorNode : Node} {jobs : List Node} (parts : ActionChildren node okNode errorNode jobs)
include parts

theorem targets_read :
    requiredProperty okNode "to" = .ok (trim (okNode.attributeText "to")) ∧
      requiredProperty errorNode "to" = .ok (trim (errorNode.attributeText "to")) := by
  have ok := parts.ok
  have error := parts.error
  simp only [Schema.ok, Schema.error, Schema.leaf, Bool.and_eq_true] at ok error
  exact ⟨requiredProperty_declared ok.1 (by simp), requiredProperty_declared error.1 (by simp)⟩

theorem names : okNode.getNodeName = "ok" ∧ errorNode.getNodeName = "error" ∧ ∀ job ∈ jobs,
    job.getNodeName = "job" := by
  obtain ⟨-, optional, ok, error⟩ := parts
  simp only [Schema.ok, Schema.error, Schema.leaf, Bool.and_eq_true] at ok error
  refine ⟨(getNodeName_of_declares ok.1).1, (getNodeName_of_declares error.1).1, ?_⟩
  cases jobs with
  | nil => simp
  | cons job rest =>
    cases rest with
    | nil =>
      have valid : Schema.job job = true := optional
      simp only [Schema.job, Bool.and_eq_true] at valid
      simpa using (getNodeName_of_declares valid.1.1).1
    | cons second rest => cases optional

theorem inside_ok : Inside node "ok" holds ↔ holds okNode := by
  obtain ⟨ok, error, jobs⟩ := parts.names
  apply inside_iff _ ok
  · intro other member same
    rw [parts.children] at member
    rcases List.mem_append.mp member with job | target
    · exact absurd ((jobs other job).symm.trans same) (by decide)
    · rcases List.mem_pair.mp target with rfl | rfl
      · rfl
      · exact absurd (error.symm.trans same) (by decide)
  · rw [parts.children]
    simp

theorem inside_error : Inside node "error" holds ↔ holds errorNode := by
  obtain ⟨ok, error, jobs⟩ := parts.names
  apply inside_iff _ error
  · intro other member same
    rw [parts.children] at member
    rcases List.mem_append.mp member with job | target
    · exact absurd ((jobs other job).symm.trans same) (by decide)
    · rcases List.mem_pair.mp target with rfl | rfl
      · exact absurd (ok.symm.trans same) (by decide)
      · rfl
  · rw [parts.children]
    simp

/-- The last two children set the targets. -/
theorem targets_set (base : SubmittedNode) : [okNode, errorNode].foldlM xjobPropertie base =
    .ok { base with
      okNode := some (trim (okNode.attributeText "to"))
      errorNode := some (trim (errorNode.attributeText "to")) } := by
  obtain ⟨ok, error, -⟩ := parts.names
  obtain ⟨okTo, errorTo⟩ := parts.targets_read
  rw [List.foldlM_cons, xjobPropertie, ok, okTo]
  change [errorNode].foldlM xjobPropertie _ = _
  rw [List.foldlM_cons, xjobPropertie, error, errorTo]
  rfl

/-- What the children fill in. -/
theorem filled (base : SubmittedNode) (unset : base.xjobMeta = none) :
    ∃ xjobMeta, onElements xjobPropertie node base = .ok { base with
        xjobMeta := xjobMeta
        okNode := some (trim (okNode.attributeText "to"))
        errorNode := some (trim (errorNode.attributeText "to")) } ∧
      ∀ built : SubmittedNode, built.xjobMeta = xjobMeta → (built.RealisesJob node ↔ PlainUser node) := by
  obtain ⟨ok, error, named⟩ := parts.names
  have set_ := parts.targets_set
  have optional := parts.jobs
  -- the targets are set after the job, by their own children
  rw [onElements, parts.children, List.foldlM_append]
  -- the schema allows one job at most
  cases jobs with
  | nil =>
    refine ⟨none, ?_, fun built _ => realisesJob_absent (by simp [parts.children, ok, error])⟩
    rw [List.foldlM_nil, ← unset]
    exact set_ base
  | cons job rest =>
    cases rest with
    | cons second rest => cases optional
    | nil =>
      obtain ⟨submitted, got, read⟩ := @job_iff job optional
      have own : job.getNodeName = "job" := named job List.mem_cons_self
      have turn : xjobPropertie base job = .ok { base with xjobMeta := some submitted } := by
        rw [xjobPropertie, if_pos own, got]
        rfl
      refine ⟨some submitted, ?_, fun built made => ?_⟩
      · rw [List.foldlM_cons, turn]
        exact set_ { base with xjobMeta := some submitted }
      · exact realisesJob_iff made (by simp [parts.children]) own (by simp [parts.children, ok, error]) read

end ActionChildren

theorem delayType_read (valid : Schema.action node = true) :
    checkDelayType (trim (node.attributeText "delayType")) = .ok () ∧
      Carries node "delayType" (some (trim (node.attributeText "delayType"))) ∧
      ((∃ constant, enumGetter DelayType.constants (trim (node.attributeText "delayType")) = .ok (some constant)) ↔
        (node.getAttribute "delayType").isSome = true) := by
  simp only [Schema.action, Bool.and_eq_true] at valid
  have typed : ∀ text, node.getAttribute "delayType" = some text → enumeration ["soft", "hard"] text = true :=
    valid_attribute false valid.1.1 (by decide)
      (List.mem_cons_of_mem _ List.mem_cons_self)
  have known : ∀ value ∈ ["soft", "hard"], (DelayType.constants.lookup value).isSome = true := by decide
  obtain ⟨carries, blank, constant⟩ := enumeration_read known (by decide +kernel) typed
  refine ⟨?_, carries, constant⟩
  rw [checkDelayType]
  cases found : node.getAttribute "delayType" with
  | none =>
    rw [blank found]
    rfl
  | some text =>
    obtain ⟨value, read⟩ := constant.mpr (by rw [found]; rfl)
    rw [read]
    rfl

/-- The action is built where its numbers fit. -/
theorem action_iff (valid : Schema.action node = true) :
    (∃ built, buildActionNode node clusterID = .ok built ∧ built.RealisesAction node) ↔
      ReadableAction clusterID node := by
  obtain ⟨okNode, errorNode, jobs, parts⟩ := actionChildren valid
  obtain ⟨checked, carries, constant⟩ := delayType_read valid
  simp only [Schema.action, Bool.and_eq_true] at valid
  have declared := valid.1.1
  have element := (getNodeName_of_declares declared).2
  have time : ∀ text, node.getAttribute "delayTime" = some text → integer text = true :=
    valid_attribute false declared (by decide) (by simp [Schema.integerAttribute])
  have times : ∀ text, node.getAttribute "errorMaxRedoTimes" = some text → integer text = true :=
    valid_attribute false declared (by decide) (by simp [Schema.integerAttribute])
  have period : ∀ text, node.getAttribute "errorRedoPeriod" = some text → integer text = true :=
    valid_attribute false declared (by decide) (by simp [Schema.integerAttribute])
  have cluster := getPropertyOr_eq element clusterID
  have placed := @carries_clusterOf node clusterID
  have property : getProperty node "name" = _ := getProperty_eq element
  have named := @carries_trim node "name"
  have okTarget := @carries_trim okNode "to"
  have errorTarget := @carries_trim errorNode "to"
  have fills := parts.filled
  -- the texts are independent of each other from here on
  generalize trim (okNode.attributeText "to") = okTo at okTarget fills
  generalize trim (errorNode.attributeText "to") = errorTo at errorTarget fills
  generalize clusterOf clusterID node = executorClusterID at cluster placed
  generalize trim (node.attributeText "name") = ownName at property named
  generalize delayTypeText : trim (node.attributeText "delayType") = delayType at checked carries constant
  let base (delayTime errorMaxRedoTimes errorRedoPeriod : Int) : SubmittedNode :=
    { type := .action
      name := ownName
      executorClusterID := executorClusterID
      delayType := delayType
      delayTime := delayTime
      errorMaxRedoTimes := errorMaxRedoTimes
      errorRedoPeriod := errorRedoPeriod }
  -- the three numbers are read before the children, in this order
  have made (built : SubmittedNode) : buildActionNode node clusterID = .ok built ↔
      ∃ t, getIntegerProperty node "delayTime" 0 = .ok t ∧ ∃ m, getIntegerProperty node "errorMaxRedoTimes" 0 = .ok m ∧
        ∃ p, getIntegerProperty node "errorRedoPeriod" 0 = .ok p ∧
          onElements xjobPropertie node (base t m p) = .ok built := by
    simp only [buildActionNode, property, getProperty_eq element, ok_bind, delayTypeText, cluster, checked, bind_ok_iff]
    rfl
  constructor
  · rintro ⟨built, read, realises⟩
    obtain ⟨t, timeRead, m, timesRead, p, periodRead, fill⟩ := (made built).mp read
    obtain ⟨xjobMeta, filled, job⟩ := fills (base t m p) rfl
    rw [filled] at fill
    cases fill
    constructor
    · exact named.mp realises.name
    · exact placed.mp realises.executorClusterID
    · exact constant.mp realises.delayTypeConstant
    · exact (getIntegerProperty_ok_iff time element).mp ⟨t, timeRead⟩
    · exact (getIntegerProperty_ok_iff times element).mp ⟨m, timesRead⟩
    · exact (getIntegerProperty_ok_iff period element).mp ⟨p, periodRead⟩
    · exact parts.inside_ok.mpr (okTarget.mp (parts.inside_ok.mp realises.ok))
    · exact parts.inside_error.mpr (errorTarget.mp (parts.inside_error.mp realises.error))
    · exact (job _ rfl).mp realises.job
  · intro readable
    obtain ⟨t, timeRead⟩ := (getIntegerProperty_ok_iff time element).mpr readable.delayTime
    obtain ⟨m, timesRead⟩ := (getIntegerProperty_ok_iff times element).mpr readable.errorMaxRedoTimes
    obtain ⟨p, periodRead⟩ := (getIntegerProperty_ok_iff period element).mpr readable.errorRedoPeriod
    obtain ⟨xjobMeta, filled, job⟩ := fills (base t m p) rfl
    have build := (made _).mpr ⟨t, timeRead, m, timesRead, p, periodRead, filled⟩
    refine ⟨_, build, ?_⟩
    constructor
    · rfl
    · exact named.mpr readable.name
    · exact placed.mpr readable.executorClusterID
    · exact carries
    · exact constant.mpr readable.delayType
    · exact carries_of_getIntegerProperty time element timeRead
    · exact carries_of_getIntegerProperty times element timesRead
    · exact carries_of_getIntegerProperty period element periodRead
    · exact parts.inside_ok.mpr (okTarget.mpr (parts.inside_ok.mp readable.ok))
    · exact parts.inside_error.mpr (errorTarget.mpr (parts.inside_error.mp readable.error))
    · exact (job _ rfl).mpr readable.executeUser

end Elements

/-! ### A plan's nodes -/

section Nodes

variable {node : Node} {clusterID : String}

/-- One of the elements a plan is made of. -/
def PlanElement (node : Node) : Prop :=
  Schema.start node = true ∨ Schema.fork node = true ∨ Schema.join node = true ∨ Schema.action node = true ∨
    Schema.fail node = true ∨ Schema.end_ node = true

theorem planElements {nodes : List Node} (valid : Schema.jobPlanContent nodes = true) :
    ∀ node ∈ nodes, PlanElement node := by
  intro node member
  cases nodes with
  | nil => cases valid
  | cons first rest =>
    simp only [Schema.jobPlanContent, Bool.and_eq_true] at valid
    rcases List.mem_cons.mp member with rfl | inside
    · exact .inl valid.1
    · have contents := valid.2
      split at contents
      next last beforeLast middle reversed =>
        simp only [Bool.and_eq_true, List.all_eq_true, Bool.or_eq_true] at contents
        rw [← List.mem_reverse, reversed] at inside
        rcases List.mem_cons.mp inside with rfl | inside
        · exact .inr (.inr (.inr (.inr (.inr contents.2))))
        · rcases List.mem_cons.mp inside with rfl | inside
          · exact .inr (.inr (.inr (.inr (.inl contents.1.2))))
          · rcases contents.1.1 node (List.mem_reverse.mpr inside) with (action | fork) | join
            · exact .inr (.inr (.inr (.inl action)))
            · exact .inr (.inl fork)
            · exact .inr (.inr (.inl join))
      next => cases contents

/-- The builder the parser finds for an element makes a node that stands for it. -/
def Built (clusterID : String) (node : Node) : Prop :=
  ∃ build built, builder node.getNodeName = some build ∧ build node clusterID = .ok built ∧ built.Realises node

theorem built_iff (valid : PlanElement node) : Built clusterID node ↔ ReadableNode clusterID node := by
  -- the builder is found by the element's name, and a plan element has one of six
  have chosen {build : Node → String → ParserM SubmittedNode} {realises : SubmittedNode → Prop}
      (found : builder node.getNodeName = some build)
        (same : ∀ built : SubmittedNode, built.Realises node ↔ realises built) :
      Built clusterID node ↔ ∃ built, build node clusterID = .ok built ∧ realises built := by
    simp [Built, found, same]
  rcases valid with valid | valid | valid | valid | valid | valid
  · have named : node.getNodeName = "start" := by
      simp only [Schema.start, Schema.leaf, Bool.and_eq_true] at valid
      exact (getNodeName_of_declares valid.1).1
    rw [chosen (by rw [named]; rfl) fun built => by rw [SubmittedNode.Realises, if_pos named], start_iff valid,
      ReadableNode, if_pos named]
  · have named : node.getNodeName = "fork" := by
      simp only [Schema.fork, Bool.and_eq_true] at valid
      exact (getNodeName_of_declares valid.1.1.1).1
    have realises (built : SubmittedNode) : built.Realises node ↔ built.RealisesFork node := by
      simp [SubmittedNode.Realises, named]
    rw [chosen (by rw [named]; rfl) realises, fork_iff valid]
    simp [ReadableNode, named]
  · have named : node.getNodeName = "join" := by
      simp only [Schema.join, Schema.leaf, Bool.and_eq_true] at valid
      exact (getNodeName_of_declares valid.1).1
    have realises (built : SubmittedNode) : built.Realises node ↔ built.RealisesJoin node := by
      simp [SubmittedNode.Realises, named]
    rw [chosen (by rw [named]; rfl) realises, join_iff valid]
    simp [ReadableNode, named]
  · have named : node.getNodeName = "action" := by
      simp only [Schema.action, Bool.and_eq_true] at valid
      exact (getNodeName_of_declares valid.1.1).1
    have realises (built : SubmittedNode) : built.Realises node ↔ built.RealisesAction node := by
      simp [SubmittedNode.Realises, named]
    rw [chosen (by rw [named]; rfl) realises, action_iff valid]
    simp [ReadableNode, named]
  · have named : node.getNodeName = "fail" := by
      simp only [Schema.fail, Schema.closing, Bool.and_eq_true] at valid
      exact (getNodeName_of_declares valid.1.1).1
    have realises (built : SubmittedNode) : built.Realises node ↔ built.RealisesClosing node .fail := by
      simp [SubmittedNode.Realises, named]
    have found : builder node.getNodeName = some (buildClosingNode .fail) := by
      rw [named]
      rfl
    rw [chosen found realises, closing_iff valid]
    simp [ReadableNode, named]
  · have named : node.getNodeName = "end" := by
      simp only [Schema.end_, Schema.closing, Bool.and_eq_true] at valid
      exact (getNodeName_of_declares valid.1.1).1
    have realises (built : SubmittedNode) : built.Realises node ↔ built.RealisesClosing node .end_ := by
      simp [SubmittedNode.Realises, named]
    have found : builder node.getNodeName = some (buildClosingNode .end_) := by
      rw [named]
      rfl
    rw [chosen found realises, closing_iff valid]
    simp [ReadableNode, named]

/-- Every builder asks for an attribute first, and only elements have attributes. -/
theorem builder_fails (other : node.isElement = false) {build : Node → String → ParserM SubmittedNode}
    (found : builder node.getNodeName = some build) (built : SubmittedNode) : build node clusterID ≠ .ok built := by
  -- `getAttributes` returns null for text and for a processing instruction
  have none_ : getAttributes node = .error .nullPointerException := by
    cases node with
    | element name attributes children => cases other
    | text data => rfl
    | instruction target data => rfl
  have required (property : String) : requiredProperty node property = .error .nullPointerException := by
    rw [requiredProperty, none_]
    rfl
  have optional (property : String) : getProperty node property = .error .nullPointerException := by
    rw [getProperty, none_]
    rfl
  have refused {x : ParserM SubmittedNode} {thrown : Throwable} (fails : x = .error thrown) : x ≠ .ok built := by
    rw [fails]
    exact fun read => by cases read
  -- each builder fails at the first attribute it reads, required or not
  unfold builder at found
  split at found
  · cases found
    exact refused (by rw [buildStartNode, required]; rfl)
  split at found
  · cases found
    exact refused (by rw [buildForkNode, required]; rfl)
  split at found
  · cases found
    exact refused (by rw [buildJoinNode, required]; rfl)
  split at found
  · cases found
    exact refused (by rw [buildActionNode, optional]; rfl)
  split at found
  · cases found
    exact refused (by rw [buildFailNode, buildClosingNode, getPropertyOr, optional]; rfl)
  split at found
  · cases found
    exact refused (by rw [buildEndNode, buildClosingNode, getPropertyOr, optional]; rfl)
  · cases found

theorem builder_known (valid : PlanElement node) : ∃ build, builder node.getNodeName = some build := by
  have named : node.getNodeName ∈ ["start", "fork", "join", "action", "fail", "end"] := by
    rcases valid with valid | valid | valid | valid | valid | valid <;>
      simp only [Schema.start, Schema.fork, Schema.join, Schema.action, Schema.fail, Schema.end_,
        Schema.closing, Schema.leaf,
        Bool.and_eq_true] at valid
    · simp [(getNodeName_of_declares valid.1).1]
    · simp [(getNodeName_of_declares valid.1.1.1).1]
    · simp [(getNodeName_of_declares valid.1).1]
    · simp [(getNodeName_of_declares valid.1.1).1]
    · simp [(getNodeName_of_declares valid.1.1).1]
    · simp [(getNodeName_of_declares valid.1.1).1]
  have known : ∀ name ∈ ["start", "fork", "join", "action", "fail", "end"], (builder name).isSome = true := by decide
  exact Option.isSome_iff_exists.mp (known _ named)

/-- The loop succeeds where every element is built and nothing else asks to be. -/
theorem buildNodes_iff {children : List Node} (valid : ∀ child ∈ children.filter Node.isElement, PlanElement child) :
    (∃ nodes, buildNodes clusterID children = .ok nodes ∧
      List.Forall₂ (fun child built => built.Realises child) (children.filter Node.isElement) nodes) ↔
    (∀ child ∈ children, child.isElement = false → builder child.getNodeName = none) ∧
      ∀ child ∈ children.filter Node.isElement, ReadableNode clusterID child := by
  induction children with
  | nil => exact iff_of_true ⟨[], rfl, .nil⟩ (by simp)
  | cons child rest ih =>
    -- a child that is no element is skipped, unless its name happens to be that of a builder
    cases kind : child.isElement with
    | false =>
      rw [List.filter_cons_of_neg (by simp [kind])] at valid ⊢
      cases found : builder child.getNodeName with
      | none => simp only [buildNodes, found, List.forall_mem_cons, ih valid, imp_true_iff, true_and]
      | some build =>
        constructor
        · rintro ⟨nodes, read, -⟩
          simp only [buildNodes, found, bind_ok_iff] at read
          obtain ⟨built, made, -⟩ := read
          exact absurd made (builder_fails kind found built)
        · rintro ⟨skips, -⟩
          have none_ := skips child List.mem_cons_self kind
          rw [found] at none_
          cases none_
    -- an element of the plan always has a builder, and the loop keeps its node in front
    | true =>
      rw [List.filter_cons_of_pos kind] at valid ⊢
      obtain ⟨here, others⟩ := List.forall_mem_cons.mp valid
      obtain ⟨build, found⟩ := builder_known here
      have loop (nodes : List SubmittedNode) : buildNodes clusterID (child :: rest) = .ok nodes ↔
          ∃ built, build child clusterID = .ok built ∧ ∃ later, buildNodes clusterID rest = .ok later ∧
            built :: later = nodes := by
        simp only [buildNodes, found, bind_ok_iff, pure_ok_iff]
      simp only [List.forall_mem_cons, kind, Bool.true_eq_false, false_imp_iff, true_and, loop]
      rw [← built_iff here, and_left_comm, ← ih others]
      constructor
      · rintro ⟨_, ⟨built, made, later, read, rfl⟩, realises⟩
        obtain ⟨own, after⟩ := List.forall₂_cons.mp realises
        exact ⟨⟨build, built, found, made, own⟩, later, read, after⟩
      · rintro ⟨⟨build', built, found', made, own⟩, later, read, after⟩
        rw [found] at found'
        cases found'
        exact ⟨built :: later, ⟨built, made, later, read, rfl⟩, .cons own after⟩

end Nodes

/-! ### The plans of a document -/

section Plans

variable {node : Node} {clusterID createDate : String} {temp : List String}

theorem getBooleanProperty_eq (element : node.isElement = true) {name : String} :
    getBooleanProperty node name true = .ok ((node.getAttribute name).elim true fun text =>
      booleanValueOf (trim text)) := by
  obtain ⟨given, attributes⟩ := getAttributes_of_element element
  have read : getBooleanProperty node name true = match given.lookup name with
      | none => Except.ok true
      | some value => Except.ok (booleanValueOf (trim value)) := by
    rw [getBooleanProperty, getAttributes, attributes]
    rfl
  rw [read, lookup_getAttributes attributes]
  cases node.getAttribute name <;> rfl

/-- The parser knows one word for true, and takes every other text for false. -/
theorem carries_boolean_iff {name : String} (valid : ∀ text, node.getAttribute name = some text → boolean text = true) :
    CarriesBoolean node name ((node.getAttribute name).elim true fun text => booleanValueOf (trim text)) ↔
      ∀ text ∈ node.getAttribute name, collapse text ≠ "1" := by
  cases found : node.getAttribute name with
  | none => simp [CarriesBoolean, found]
  | some text =>
    obtain ⟨b, value⟩ := Option.isSome_iff_exists.mp (valid text found)
    have same := trim_eq_collapse_of_boolean value
    have form : collapse text = "true" ∨ collapse text = "1" ∨ collapse text = "false" ∨ collapse text = "0" := by
      unfold booleanValue at value
      split at value
      next yes => exact yes.imp_right .inl
      next =>
        split at value
        next no => exact .inr (.inr no)
        next => cases value
    have meets : booleanValue text = some (booleanValueOf (collapse text)) ↔ collapse text ≠ "1" := by
      rw [booleanValue]
      rcases form with form | form | form | form <;> rw [form] <;> decide +kernel
    simpa [CarriesBoolean, found, same] using meets

/-- What the parser makes of a valid plan whose nodes are built. -/
def submittedPlan (clusterID createDate : String) (node : Node) (nodes : List SubmittedNode) : SubmittedPlan where
  clusterID := clusterID
  createDate := createDate
  jobPlanType := trim (node.attributeText "type")
  jepID := trim (node.attributeText "id")
  jepName := trim (node.attributeText "name")
  cronType := trim (node.attributeText "cronType")
  cronExpression := trim (node.attributeText "cronExpression")
  event := trim (node.attributeText "event")
  ignoreError := (node.getAttribute "ignoreError").elim true fun text => booleanValueOf (trim text)
  jobPlanNodeList := nodes

/-- What a plan's attributes are like. -/
structure PlanAttributes (node : Node) : Prop where
  named : node.getNodeName = "jobPlan"
  element : node.isElement = true
  id : ∃ n, integerValue (node.attributeText "id") = some n
  cronType : Carries node "cronType" (some (trim (node.attributeText "cronType")))
  scheduled : trim (node.attributeText "cronType") ≠ ""
  type : Carries node "type" (some (trim (node.attributeText "type")))
  typeConstant : (∃ constant, enumGetter JobPlanType.constants (trim (node.attributeText "type")) =
    .ok (some constant)) ↔
    (node.getAttribute "type").isSome = true
  ignoreError : ∀ text, node.getAttribute "ignoreError" = some text → boolean text = true
  nodes : ∀ child ∈ node.getChildNodes.filter Node.isElement, PlanElement child

theorem planAttributes (valid : Schema.jobPlan node = true) : PlanAttributes node := by
  simp only [Schema.jobPlan, Bool.and_eq_true] at valid
  obtain ⟨⟨declared, -⟩, contents⟩ := valid
  -- what the schema says about an attribute holds of the text if there is one
  have typed (name : String) (required : Bool) (type : String → Bool)
      (member : (⟨name, required, type⟩ : Attribute) ∈ Schema.jobPlanAttributes) :
      ∀ text, node.getAttribute name = some text → type text = true :=
    valid_attribute required declared (by decide) member
  have id := typed "id" true integer (by simp [Schema.jobPlanAttributes])
  have cronType := typed "cronType" true (enumeration ["simple", "cron", "event"]) (by simp [Schema.jobPlanAttributes])
  have kind := typed "type" false (enumeration ["local", "distributed"]) (by simp [Schema.jobPlanAttributes])
  have ignoreError := typed "ignoreError" false boolean (by simp [Schema.jobPlanAttributes])
  have schedules : ∀ value ∈ ["simple", "cron", "event"], trim value = value ∧ value ≠ "" := by decide
  -- the constants survive trimming, so the value read is the one written
  have kinds : ∀ value ∈ ["local", "distributed"], trim value = value ∧ isBlank (some value) = false := by
    decide +kernel
  have constants : ∀ value ∈ ["local", "distributed"], (JobPlanType.constants.lookup value).isSome = true := by decide
  have carries := carries_enumeration (fun value member => (schedules value member).1) cronType
  obtain ⟨type, -, constant⟩ := enumeration_read constants kinds kind
  constructor
  · exact (getNodeName_of_declares declared).1
  · exact (getNodeName_of_declares declared).2
  · obtain ⟨text, read⟩ :=
      required_of_declares (a := ⟨"id", true, integer⟩) declared (by simp [Schema.jobPlanAttributes]) rfl
    rw [attributeText_eq read]
    exact Option.isSome_iff_exists.mp (id text read)
  · exact carries
  · obtain ⟨text, read⟩ :=
      required_of_declares (a := ⟨"cronType", true, enumeration ["simple", "cron", "event"]⟩) declared
      (by simp [Schema.jobPlanAttributes]) rfl
    rw [Option.some.inj (carries text read)]
    exact (schedules text (by simpa [enumeration] using cronType text read)).2
  · exact type
  · exact constant
  · exact ignoreError
  · exact planElements contents

theorem trim_id_ne_empty {text : String} {n : Int} (value : integerValue text = some n) : trim text ≠ "" := by
  rw [trim_eq_collapse_of_integer value]
  intro empty
  rw [integerValue, empty] at value
  cases value

theorem buildExecutionJobPlan_eq (plan : PlanAttributes node) (fresh : trim (node.attributeText "id") ∉ temp) :
    buildExecutionJobPlan clusterID createDate node temp =
      buildNodes clusterID node.getChildNodes >>= fun nodes =>
        .ok (submittedPlan clusterID createDate node nodes, trim (node.attributeText "id") :: temp) := by
  obtain ⟨n, value⟩ := plan.id
  have some_id := trim_id_ne_empty value
  simp only [buildExecutionJobPlan, getBooleanProperty_eq plan.element, getProperty_eq plan.element,
    ok_bind, if_neg fresh,
    if_neg some_id, if_neg plan.scheduled]
  rfl

/-- The plan of a valid element is built and stands for it. -/
theorem plan_iff (plan : PlanAttributes node) (fresh : trim (node.attributeText "id") ∉ temp) :
    (∃ built, buildExecutionJobPlan clusterID createDate node temp =
      .ok (built, trim (node.attributeText "id") :: temp) ∧
      built.Realises node) ↔ ReadablePlan clusterID node := by
  have nodes := @buildNodes_iff clusterID node.getChildNodes plan.nodes
  simp only [buildExecutionJobPlan_eq plan fresh, bind_ok_iff]
  constructor
  · rintro ⟨_, ⟨built, made, ⟨⟩⟩, realises⟩
    obtain ⟨instructions, readable⟩ := nodes.mp ⟨built, made, realises.nodes⟩
    constructor
    · exact carries_trim.mp realises.name
    · exact carries_trim.mp realises.cronExpression
    · exact carries_trim.mp realises.event
    · exact (carries_boolean_iff plan.ignoreError).mp realises.ignoreError
    · exact plan.typeConstant.mp realises.typeConstant
    · exact instructions
    · exact readable
  · intro readable
    -- what is left to show is that the row built carries each attribute over
    obtain ⟨built, made, realises⟩ := nodes.mpr ⟨readable.instructions, readable.nodes⟩
    refine ⟨submittedPlan clusterID createDate node built, ⟨built, made, rfl⟩, ?_⟩
    obtain ⟨n, value⟩ := plan.id
    constructor
    · intro text read
      rw [attributeText_eq read] at value
      change integerValue (trim (node.attributeText "id")) = integerValue text
      rw [attributeText_eq read, integerValue_trim value, value]
    · exact carries_trim.mpr readable.name
    · exact (carries_boolean_iff plan.ignoreError).mpr readable.ignoreError
    · exact plan.cronType
    · exact carries_trim.mpr readable.cronExpression
    · exact carries_trim.mpr readable.event
    · exact plan.type
    · exact plan.typeConstant.mpr readable.type
    · exact realises

theorem buildPlans_iff {children : List Node}
    (valid : ∀ node ∈ children.filter Node.isElement, Schema.jobPlan node = true)
    (fresh : ∀ node ∈ children.filter Node.isElement, trim (node.attributeText "id") ∉ temp)
    (distinct : ((children.filter Node.isElement).map fun node => integerValue (node.attributeText "id")).Nodup) :
    (∃ plans, buildPlans clusterID createDate children temp = .ok plans ∧
      List.Forall₂ (fun node plan => plan.Realises node) (children.filter Node.isElement) plans) ↔
    ∀ node ∈ children.filter Node.isElement, ReadablePlan clusterID node := by
  induction children generalizing temp with
  | nil => exact iff_of_true ⟨[], rfl, .nil⟩ (by simp)
  | cons node rest ih =>
    cases kind : node.isElement with
    | false =>
      rw [List.filter_cons_of_neg (by simp [kind])] at valid fresh distinct ⊢
      simp only [buildPlans, kind, Bool.false_eq_true, false_and, if_false]
      exact ih valid fresh distinct
    | true =>
      rw [List.filter_cons_of_pos kind] at valid fresh distinct ⊢
      obtain ⟨here, others⟩ := List.forall_mem_cons.mp valid
      obtain ⟨own, unused⟩ := List.forall_mem_cons.mp fresh
      rw [List.map_cons, List.nodup_cons] at distinct
      have plan := planAttributes here
      obtain ⟨n, value⟩ := plan.id
      -- an equal text would be an equal number
      have unused' : ∀ other ∈ rest.filter Node.isElement,
          trim (other.attributeText "id") ∉ trim (node.attributeText "id") :: temp := by
        intro other member listed
        rcases List.mem_cons.mp listed with same | earlier
        · obtain ⟨m, number⟩ := (planAttributes (others other member)).id
          have equal : integerValue (other.attributeText "id") = integerValue (node.attributeText "id") := by
            rw [number, ← integerValue_trim number, same, integerValue_trim value, value]
          exact distinct.1 (List.mem_map.mpr ⟨other, member, equal⟩)
        · exact unused other member earlier
      have loop (plans : List SubmittedPlan) : buildPlans clusterID createDate (node :: rest) temp = .ok plans ↔
          ∃ built, buildExecutionJobPlan clusterID createDate node temp =
              .ok (built, trim (node.attributeText "id") :: temp) ∧
            ∃ later, buildPlans clusterID createDate rest (trim (node.attributeText "id") :: temp) = .ok later ∧
              built :: later = plans := by
        simp only [buildPlans, kind, plan.named, true_and, if_true, buildExecutionJobPlan_eq plan own,
          bind_ok_iff, pure_ok_iff]
        constructor
        · rintro ⟨_, ⟨nodes, made, ⟨⟩⟩, rest'⟩
          exact ⟨_, ⟨nodes, made, rfl⟩, rest'⟩
        · rintro ⟨_, ⟨nodes, made, ⟨⟩⟩, rest'⟩
          exact ⟨_, ⟨nodes, made, rfl⟩, rest'⟩
      have step := ih others unused' distinct.2
      simp only [List.forall_mem_cons, loop, ← @plan_iff node clusterID createDate temp plan own, ← step]
      constructor
      · rintro ⟨_, ⟨built, made, later, read, rfl⟩, realises⟩
        obtain ⟨first, after⟩ := List.forall₂_cons.mp realises
        exact ⟨⟨built, made, first⟩, later, read, after⟩
      · rintro ⟨⟨built, made, first⟩, later, read, after⟩
        exact ⟨built :: later, ⟨built, made, later, read, rfl⟩, .cons first after⟩

/-- The parser realises exactly the valid documents whose texts need no trimming, whose
numbers fit, and that leave nothing to a default of the parser that the schema has not. -/
theorem realised_iff {root : Node} (valid : Schema.jobPlans root = true) (distinct : DistinctIds root)
    (clusterID createDate : String) :
    Realised clusterID createDate root ↔ ∀ plan ∈ root.elements, ReadablePlan clusterID plan := by
  simp only [Schema.jobPlans, Bool.and_eq_true, List.all_eq_true] at valid
  exact buildPlans_iff valid.2 (by simp) distinct

end Plans

/-! ### A document of one plan -/

namespace OnePlan

def start : Node := .element "start" [("to", "a")] []

def action : Node :=
  .element "action" [("name", "a"), ("delayType", "soft"), ("delayTime", "060")]
    [.element "ok" [("to", "end")] [], .element "error" [("to", "fail")] []]

def fail : Node := .element "fail" [("name", "fail")] []

def end_ : Node := .element "end" [("name", "end")] []

def plan (ignoreError : String) : Node :=
  .element "jobPlan" [("cronExpression", "0 0 3 * * ?"), ("id", " +7"), ("ignoreError", ignoreError), ("name", "load"),
    ("cronType", "cron"), ("type", "local")] [start, action, fail, end_]

def root (ignoreError : String) : Node := .element "jobPlans" [] [.text "\n", plan ignoreError]

/-- Its nodes have nothing to trim and leave nothing out. -/
theorem readable_nodes : ∀ child ∈ [start, action, fail, end_], ReadableNode "c" child := by
  simp only [List.forall_mem_cons, List.not_mem_nil, false_imp_iff, imp_true_iff, and_true]
  refine ⟨⟨?_, ?_⟩, ⟨?_, ?_, rfl, ?_, ?_, ?_, ?_, ?_, ?_⟩, ⟨?_, ?_, ?_⟩, ⟨?_, ?_, ?_⟩⟩
  · rintro text ⟨⟩
    decide
  · rintro text ⟨⟩
  · rintro text ⟨⟩
    decide
  · rintro text ⟨⟩
  · rintro text ⟨⟩
    decide +kernel
  · rintro text ⟨⟩
  · rintro text ⟨⟩
  · rintro child (_ | ⟨_, _ | ⟨_, ⟨⟩⟩⟩) - text ⟨⟩ <;> decide
  · rintro child (_ | ⟨_, _ | ⟨_, ⟨⟩⟩⟩) - text ⟨⟩ <;> decide
  · rintro child (_ | ⟨_, _ | ⟨_, ⟨⟩⟩⟩) - text ⟨⟩
  · rintro text ⟨⟩
    decide
  · rintro text ⟨⟩
  · rintro child ⟨⟩
  · rintro text ⟨⟩
    decide
  · rintro text ⟨⟩
  · rintro child ⟨⟩

end OnePlan

open OnePlan in
theorem realised_onePlan : Realised "c" "20140129" (root "true") := by
  apply (realised_iff (by decide +kernel) (by decide +kernel) "c" "20140129").mpr
  intro node member
  cases List.mem_singleton.mp member
  constructor
  · rintro text ⟨⟩
    decide
  · rintro text ⟨⟩
    decide
  · rintro text ⟨⟩
  · rintro text ⟨⟩
    decide
  · rfl
  · rintro child (_ | ⟨_, _ | ⟨_, _ | ⟨_, _ | ⟨_, ⟨⟩⟩⟩⟩⟩) ⟨⟩
  · exact readable_nodes

open OnePlan in
/-- `1` is true to the schema and false to the parser. -/
theorem not_realised_one : ¬ ∀ (clusterID createDate : String) (root : Node), Schema.jobPlans root = true →
    DistinctIds root → Realised clusterID createDate root := by
  intro realises
  obtain ⟨plans, made, stand⟩ := realises "c" "20140129" (root "1") (by decide +kernel) (by decide +kernel)
  have read : (getJobExecutionPlanSubmissionContext "c" "20140129" (root "1")).map
    (·.map (·.ignoreError)) = .ok [false] := by
    decide +kernel
  rw [made] at read
  cases stand with
  | @cons _ built _ _ plan rest =>
    have answer : built.ignoreError = false := List.cons.inj (Except.ok.inj read) |>.1
    have denotes := plan.ignoreError "1" rfl
    rw [answer] at denotes
    exact absurd denotes (by decide +kernel)

end Hella
