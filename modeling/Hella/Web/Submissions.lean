import Hella.Plans.Requests
import Hella.Properties.Realised
import Hella.Web.Requests

/-!
# The plans of an upload

What the console gets from the parser. The library that reads an uploaded file gives a document
or fails; the schema and the parser are applied to the document.
-/
namespace Hella

open Text Xml ExecutionPlanParser

def CronType.constants : List (String × CronType) := [("simple", .simple), ("cron", .cron), ("event", .event)]

/-- The entity behind what the parser leaves. It gets its key when it is saved, and the getters of
its enumerations answer with null where a text is blank. -/
def SubmittedPlan.planEntity (plan : SubmittedPlan) : PlanEntity where
  id := 0
  event := some plan.event
  ignoreError := plan.ignoreError
  jobPlanNodeList := plan.jobPlanNodeList.map (·.jobPlanNode)
  jobPlanType := JobPlanType.constants.lookup plan.jobPlanType
  clusterID := plan.clusterID
  jepID := plan.jepID
  jepName := plan.jepName
  cronType := CronType.constants.lookup plan.cronType
  cronExpression := plan.cronExpression
  createDate := plan.createDate

/-- The console validates and parses the documents of the files; `none` is a file that cannot be read. -/
structure WebApp.Reads (app : WebApp) (document : String → Option Node) : Prop where
  validateXMLByXSD : ∀ content, app.validateXMLByXSD content = (document content).any Schema.jobPlans
  jobPlans : ∀ clusterID content, app.jobPlans clusterID content = (document content).bind fun root =>
    (getJobExecutionPlanSubmissionContext clusterID "" root).toOption.map (·.map (·.planEntity))

/-- What is submitted of the plans of a file. -/
def submission (clusterID createDate : String) (plans : List SubmittedPlan) : JobExecutionPlanSubmissionContext :=
  ⟨clusterID, (plans.map (·.planEntity)).map ({ · with createDate := createDate })⟩

/-- Numbers are found under any spelling, so none is stored when the count is zero. -/
def WebApp.Counts (app : WebApp) : Prop :=
  ∀ ids stored, (∀ id ∈ ids, integer id = true) → app.isJobPlansExist ids stored = some false →
    ∀ id ∈ ids, id ∉ stored

theorem not_blank_of_numeral {text : String} (numeral : integer text = true) : isBlank (some text) = false := by
  obtain ⟨n, value⟩ := Option.isSome_iff_exists.mp numeral
  obtain ⟨-, plain⟩ := decimal_of_parseInt value
  rw [isBlank, List.all_eq_false]
  have some_ : (collapse text).toList ≠ [] := by
    intro empty
    rw [integerValue, parseInt, empty] at value
    cases value
  obtain ⟨c, rest, same⟩ := List.exists_cons_of_ne_nil some_
  have member : c ∈ (collapse text).toList := same ▸ List.mem_cons_self
  refine ⟨c, (strip_sublist isSpace text).subset member, ?_⟩
  rw [Bool.not_eq_true]
  rcases plain c member with ascii | rfl | rfl
  · exact visible_of_digit (digit_of_isDigit ascii)
  · decide
  · decide

section Plans

variable {clusterID createDate : String} {root node : Node} {children : List Node} {temp : List String}
  {plan : SubmittedPlan} {plans : List SubmittedPlan}

/-- A plan is for the cluster it is uploaded to, under a number. -/
structure SubmittedPlan.Numbered (clusterID : String) (plan : SubmittedPlan) : Prop where
  clusterID : plan.clusterID = clusterID
  jepID : integer plan.jepID = true

theorem mem_submission {jep : PlanEntity} (member : jep ∈ (submission clusterID createDate plans).jobExecutionPlans) :
    ∃ plan ∈ plans, jep = { plan.planEntity with createDate := createDate } := by
  obtain ⟨_, mapped, rfl⟩ := List.mem_map.mp member
  obtain ⟨plan, inside, rfl⟩ := List.mem_map.mp mapped
  exact ⟨plan, inside, rfl⟩

theorem submission_wellFormed (named : isBlank (some clusterID) = false)
    (numbered : ∀ plan ∈ plans, plan.Numbered clusterID) : (submission clusterID createDate plans).WellFormed where
  clusterId := named
  clusterIDs jep member := by
    obtain ⟨plan, inside, rfl⟩ := mem_submission member
    exact (numbered plan inside).clusterID
  jepIDs jep member := by
    obtain ⟨plan, inside, rfl⟩ := mem_submission member
    exact not_blank_of_numeral (numbered plan inside).jepID

theorem numbered_of_build {left_ : List String} (valid : Schema.jobPlan node = true)
    (built : buildExecutionJobPlan clusterID createDate node temp = .ok (plan, left_)) : plan.Numbered clusterID := by
  have attributes := planAttributes valid
  by_cases fresh : trim (node.attributeText "id") ∈ temp
  -- an id that was read before is an exception
  · simp only [buildExecutionJobPlan, getBooleanProperty_eq attributes.element,
      getProperty_eq attributes.element, ok_bind,
      if_pos fresh] at built
    cases built
  · rw [buildExecutionJobPlan_eq attributes fresh] at built
    obtain ⟨nodes, -, same⟩ := bind_ok_iff.mp built
    cases same
    obtain ⟨n, value⟩ := attributes.id
    exact ⟨rfl, Option.isSome_iff_exists.mpr ⟨n, integerValue_trim value⟩⟩

theorem numbered_of_plans (valid : ∀ node ∈ children.filter Node.isElement, Schema.jobPlan node = true)
    (built : buildPlans clusterID createDate children temp = .ok plans) : ∀ plan ∈ plans, plan.Numbered clusterID := by
  induction children generalizing temp plans with
  | nil =>
    cases built
    simp
  | cons node rest ih =>
    rw [buildPlans] at built
    split at built
    next named =>
      rw [List.filter_cons_of_pos named.1, List.forall_mem_cons] at valid
      obtain ⟨⟨plan, left_⟩, first, later⟩ := bind_ok_iff.mp built
      obtain ⟨others, read, same⟩ := bind_ok_iff.mp later
      cases same
      exact List.forall_mem_cons.mpr ⟨numbered_of_build valid.1 first, ih valid.2 read⟩
    next =>
      refine ih (fun other member => valid other ?_) built
      obtain ⟨inside, element⟩ := List.mem_filter.mp member
      exact List.mem_filter.mpr ⟨List.mem_cons_of_mem _ inside, element⟩

/-- The plans of a valid document. -/
theorem numbered_of_context (valid : Schema.jobPlans root = true)
    (read : getJobExecutionPlanSubmissionContext clusterID createDate root = .ok plans) :
    ∀ plan ∈ plans, plan.Numbered clusterID := by
  simp only [Schema.jobPlans, Bool.and_eq_true, List.all_eq_true] at valid
  exact numbered_of_plans valid.2 read

end Plans

end Hella
