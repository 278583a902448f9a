import Hella.Properties.Filed
import Hella.Web.Console
import Hella.Web.Keeping
import Hella.Web.Submissions

/-!
# From the upload of a plan to its deletion

Whatever requests are made to the console, by whom and in which order, and whatever fails, a
stored plan came in one file that was valid, through one request that the filter let pass. It
stays as it came, under its ID, until a request deletes it that names the ID, and until then it
has to have been paused.
-/
namespace Hella

open Exec Runs Text Xml WebSystem PlanTables

/-! ### What a request does to one plan -/

/-- A stored plan has the columns of the submitted one, and all of its nodes unless storing them broke off. -/
inductive Copies (jep : PlanEntity) : PlanEntity → Prop where
  | whole (id : Nat) : Copies jep { jep.entry with id := id }
  | cut (id : Nat) (nodes : List JobPlanNode) (first : nodes.map (·.name) <+: jep.jobPlanNodeList.map (·.name)) :
      Copies jep { jep.entry with id := id, jobPlanNodeList := nodes }

/-- The request gets to the upload with a file for the plan's cluster, which is valid and has the plan in it. -/
def Uploads (app : WebApp) (document : String → Option Node) (session : HttpSession) (req : HttpServletRequest)
    (plan : SubmittedPlan) : Prop :=
  ∃ last items item root plans, Invokes app session req .fileUpLoad last ∧
    last.getParameter "cID" = some plan.clusterID ∧
    req.items = some items ∧ item ∈ items ∧ JobPlanAction.isJobPlanFile item = true ∧
      document item.content = some root ∧
    Schema.jobPlans root = true ∧
    ExecutionPlanParser.getJobExecutionPlanSubmissionContext plan.clusterID "" root = .ok plans ∧ plan ∈ plans

/-- The plan of the request is held under its cluster and its own number. -/
def Brings (app : WebApp) (document : String → Option Node) (session : HttpSession) (req : HttpServletRequest)
    (key : String × String) (entry : PlanEntity) : Prop :=
  ∃ plan createDate stored, Uploads app document session req plan ∧ key = (plan.clusterID, plan.jepID) ∧
    Copies { plan.planEntity with createDate := createDate } stored ∧ entry = stored.outline

/-- The request gets to the deletion with the ID. -/
def Deletes (app : WebApp) (session : HttpSession) (req : HttpServletRequest) (id : Nat) : Prop :=
  ∃ last, Invokes app session req .deleteJobPlan last ∧
    (last.getParameter "jobPlanID").bind integerValueOf = some (id : Int)

/-- What may be held of a plan after a request. -/
inductive Fate (stores : PlanEntity → Prop) (deletes : Nat → Prop) (t : PlanTables) (key : String × String) :
    Option PlanEntity → Prop where
  | kept : Fate stores deletes t key (t.held key)
  | stored {entry : PlanEntity} (free : t.held key = none) (brings : stores entry) :
    Fate stores deletes t key (some entry)
  | deleted {row : PlanEntity} (member : row ∈ t.jobExecutionPlans) (own : row.key = key)
    (paused : row.state = .disable)
      (named : deletes row.id) : Fate stores deletes t key none

/-- Of every plan. -/
structure Fates (stores : String × String → PlanEntity → Prop) (deletes : Nat → Prop) (t u : PlanTables) : Prop where
  filed : u.Filed
  fate : ∀ key, Fate (stores key) deletes t key (u.held key)

theorem PlanTables.Keeping.fates {t u : PlanTables} {stores : String × String → PlanEntity → Prop}
    {deletes : Nat → Prop} (keeping : Keeping t u) : Fates stores deletes t u :=
  ⟨keeping.filed, fun _ => keeping.held ▸ .kept⟩

/-! ### Uploads -/

section Uploads

variable {stores : String × String → PlanEntity → Prop} {t u : PlanTables} {jeps : List PlanEntity} {done : Bool}
  {cat cat' orig : Catalogue} {key : String × String}

/-- Only plans were added, and under keys that were free. -/
structure Growing (stores : String × String → PlanEntity → Prop) (t u : PlanTables) : Prop where
  filed : u.Filed
  grown : ∀ key, u.held key = t.held key ∨ t.held key = none ∧ ∃ entry, u.held key = some entry ∧ stores key entry

theorem Growing.fates {deletes : Nat → Prop} (growing : Growing stores t u) : Fates stores deletes t u where
  filed := growing.filed
  fate key := by
    rcases growing.grown key with same | ⟨free, entry, now, brings⟩
    · rw [same]
      exact .kept
    · rw [now]
      exact .stored free brings

theorem Growing.trans {v : PlanTables} (one : Growing stores t u) (other : Growing stores u v) :
    Growing stores t v where
  filed := other.filed
  grown key := by
    rcases other.grown key with same | ⟨free, entry, now, brings⟩
    · rw [same]
      exact one.grown key
    · rcases one.grown key with before | ⟨-, _, there, -⟩
      · exact .inr ⟨before ▸ free, entry, now, brings⟩
      · rw [free] at there
        cases there

/-- A key is as it was, or has the copy of a plan. -/
def Entered (jeps : List PlanEntity) (orig cat : Catalogue) : Prop :=
  ∀ key, cat key = orig key ∨ ∃ jep ∈ jeps, jep.key = key ∧ ∃ stored, cat key = some stored ∧ Copies jep stored

theorem entered_of_registers {all : List PlanEntity} (loop : Catalogue.Registers jeps cat done cat')
    (inside : ∀ jep ∈ jeps, jep ∈ all) (free : ∀ jep ∈ all, orig jep.key = none) (entered : Entered all orig cat) :
    Entered all orig cat' := by
  induction loop with
  | done => exact entered
  | @replaced jep jeps cat cat' answer id unused rest ih =>
    obtain ⟨here, later⟩ := List.forall_mem_cons.mp inside
    apply ih later
    intro key
    by_cases own : key = jep.key
    · rw [own, Function.update_self]
      exact .inr ⟨jep, here, rfl, _, rfl, .whole id⟩
    · rw [Function.update_of_ne own]
      exact entered key
  | @broken jep jeps cat cat' others own =>
    have here := inside jep List.mem_cons_self
    intro key
    by_cases same : key = jep.key
    · rw [same]
      generalize left_ : cat' jep.key = now at own
      cases own with
      | kept => exact entered jep.key
      | cleared => exact .inl (free jep here).symm
      | cut id nodes first => exact .inr ⟨jep, here, rfl, _, rfl, .cut id nodes first⟩
    · rw [others key same]
      exact entered key

theorem registers_of_step {context : JobExecutionPlanSubmissionContext} {outcome : Option Bool}
    (step : CatalogueStep cat (.register context, outcome) cat') :
    ∃ done, Catalogue.Registers context.jobExecutionPlans cat done cat' := by
  cases step with
  | registered loop => exact ⟨true, loop⟩
  | notRegistered failed loop => exact ⟨_, loop⟩
  | others reads => exact absurd trivial reads

/-- A plan under a number that is not stored has a free key. -/
theorem catalogue_of_unstored {jep : PlanEntity} (unstored : jep.jepID ∉ t.jobExecutionPlans.map (·.jepID)) :
    t.catalogue jep.key = none := by
  apply catalogue_of_free
  intro row member own
  apply unstored
  have same : row.jepID = jep.jepID := congrArg Prod.snd own
  exact same ▸ List.mem_map_of_mem member

theorem growing_of_step {context : JobExecutionPlanSubmissionContext} {outcome : Option Bool} (filed : u.Filed)
    (step : CatalogueStep t.catalogue (.register context, outcome) u.catalogue)
    (unstored : ∀ jep ∈ context.jobExecutionPlans, jep.jepID ∉ t.jobExecutionPlans.map (·.jepID))
    (brings : ∀ jep ∈ context.jobExecutionPlans, ∀ stored, Copies jep stored → stores jep.key stored.outline) :
    Growing stores t u := by
  obtain ⟨done, loop⟩ := registers_of_step step
  have free (jep : PlanEntity) (member : jep ∈ context.jobExecutionPlans) : t.catalogue jep.key = none :=
    catalogue_of_unstored (unstored jep member)
  refine ⟨filed, fun key => ?_⟩
  rcases entered_of_registers loop (fun _ member => member) free (fun _ => .inl rfl) key with
    same | ⟨jep, member, rfl, stored, now, copies⟩
  · exact .inl (held_congr same)
  · right
    rw [held, held, free jep member, now]
    exact ⟨rfl, _, rfl, brings jep member stored copies⟩

end Uploads

section Requests

variable {app : WebApp} {env : WebEnv} {document : String → Option Node} {t : PlanTables}
  {session : HttpSession} {req last : HttpServletRequest} {stores : String × String → PlanEntity → Prop}

/-- It is known which ids are not stored when the answer is false. -/
theorem isJobPlansExist_rule (counts : app.Counts) {ids : List String} (numbers : ∀ id ∈ ids, integer id = true) :
    Triple (OnTables (· = t)) (JobPlanService.isJobPlansExist app env ids)
      (fun exist s => OnTables (· = t) s ∧ (exist = false → ∀ id ∈ ids, id ∉ t.jobExecutionPlans.map (·.jepID)))
      fun _ => OnTables (· = t) := by
  unfold JobPlanService.isJobPlansExist
  split
  next none_ =>
    rw [List.isEmpty_iff.mp none_]
    exact Triple.pure fun s same => ⟨same, fun _ id member => absurd member List.not_mem_nil⟩
  next some_ =>
    apply Triple.bind (Q := fun _ => OnTables (· = t)) (keeps_planCall (I := (· = t)))
    intro _ s (same : s.plans.tables = t)
    rw [bind_ok (get_apply s), same]
    cases counted : app.isJobPlansExist ids (t.jobExecutionPlans.map (·.jepID)) with
    | none => exact same
    | some exist =>
      refine ⟨same, fun free => counts ids _ numbers ?_⟩
      rw [counted, free]

/-- Storing the plans that a valid document has for a cluster. -/
theorem submitJobPlan_rule (reads : app.Reads document) (counts : app.Counts) (filed : t.Filed)
    {clusterID content : String}
    {root : Node} (named : isBlank (some clusterID) = false) (there : document content = some root)
    (valid : Schema.jobPlans root = true)
    (brings : ∀ plans, ExecutionPlanParser.getJobExecutionPlanSubmissionContext clusterID "" root =
      .ok plans → ∀ plan ∈ plans,
      plan.clusterID = clusterID → ∀ createDate stored,
        Copies { plan.planEntity with createDate := createDate } stored →
        stores (plan.clusterID, plan.jepID) stored.outline) :
    Triple (OnTables (· = t)) (JobPlanService.submitJobPlan app env clusterID content)
      (fun _ => OnTables (Growing stores t)) fun _ => OnTables (Growing stores t) := by
  have unchanged (s : WebSystem) (same : s.plans.tables = t) : OnTables (Growing stores t) s :=
    (⟨same ▸ filed, fun _ => .inl (same ▸ rfl)⟩ : Growing stores t s.plans.tables)
  unfold JobPlanService.submitJobPlan
  rw [reads.jobPlans, there, Option.bind_some]
  cases parsed : ExecutionPlanParser.getJobExecutionPlanSubmissionContext clusterID "" root with
  | error e => exact .throw unchanged
  | ok plans =>
    have numbered := numbered_of_context valid parsed
    change Triple _ (do
      let createDate := env.engine.now (← request)
      if ← JobPlanService.isJobPlansExist app env ((plans.map (·.planEntity)).map (·.jepID)) then return false
      else
        onPlans (JobPlanManager.registerJobExecutionPlanSubmissionContext env.plans
          (submission clusterID createDate plans)))
      _ _
    apply Triple.bind (Q := fun _ => OnTables (· = t))
      ((keeps_webRequest (I := (· = t))).conseq (fun _ => id) (fun _ _ => id) fun _ => unchanged)
    intro n
    have numbers : ∀ id ∈ (plans.map (·.planEntity)).map (·.jepID), integer id = true := by
      simp only [List.map_map, List.forall_mem_map]
      exact fun plan member => (numbered plan member).jepID
    apply ((isJobPlansExist_rule counts numbers).conseq (fun _ => id) (fun _ _ => id) fun _ => unchanged).bind
    intro exist
    cases exist with
    | true => exact .pure fun s holds => unchanged s holds.1
    | false =>
      generalize env.engine.now n = createDate
      have wellFormed := @submission_wellFormed clusterID createDate plans named numbered
      apply Triple.of_imp (p := ∀ id ∈ (plans.map (·.planEntity)).map (·.jepID),
        id ∉ t.jobExecutionPlans.map (·.jepID)) _
        fun s holds => holds.2 rfl
      intro unstored
      have grows (outcome : Option Bool) (p : PlanSystem) (holds : p.tables.Filed ∧ CatalogueStep t.catalogue
          (.register (submission clusterID createDate plans), outcome) p.tables.catalogue) :
            Growing stores t p.tables := by
        apply growing_of_step holds.1 holds.2
        · intro jep member
          obtain ⟨plan, inside, rfl⟩ := mem_submission member
          exact unstored plan.jepID (List.mem_map.mpr ⟨_, List.mem_map_of_mem inside, rfl⟩)
        · intro jep member stored copies
          obtain ⟨plan, inside, rfl⟩ := mem_submission member
          exact brings plans parsed plan inside (numbered plan inside).clusterID createDate stored copies
      have registers := triple_onPlans (@register_rule env.plans t _ filed wellFormed)
      apply registers.conseq (fun s holds => holds.1)
      · exact fun answer s holds => grows (some answer) s.plans holds
      · exact fun _ s holds => grows none s.plans holds

/-- One part of an upload. -/
theorem uploadItem_rule (reads : app.Reads document) (counts : app.Counts) {clusterID : String} {item : FileItem}
    (named : isBlank (some clusterID) = false)
    (brings : ∀ root plans, JobPlanAction.isJobPlanFile item = true → document item.content = some root →
      Schema.jobPlans root = true → ExecutionPlanParser.getJobExecutionPlanSubmissionContext clusterID "" root =
        .ok plans →
      ∀ plan ∈ plans, plan.clusterID = clusterID → ∀ createDate stored,
        Copies { plan.planEntity with createDate := createDate } stored →
          stores (plan.clusterID, plan.jepID) stored.outline) :
    Keeps (OnTables (Growing stores t)) (JobPlanAction.uploadItem app env clusterID item) := by
  unfold JobPlanAction.uploadItem
  split
  next file =>
    apply keeps_webRequest.bind
    intro n
    split
    · split
      next accepted =>
        rw [reads.validateXMLByXSD] at accepted
        cases there : document item.content with
        | none => simp [there] at accepted
        | some root =>
          have valid : Schema.jobPlans root = true := by simpa [there] using accepted
          apply Keeps.bind
          · apply Keeps.catching
            · apply Triple.pointwise
              intro s (growing : Growing stores t s.plans.tables)
              have submits : Triple (OnTables (· = s.plans.tables))
                (JobPlanService.submitJobPlan app env clusterID item.content)
                  (fun _ => OnTables (Growing stores s.plans.tables)) fun _ =>
                    OnTables (Growing stores s.plans.tables) :=
                submitJobPlan_rule reads counts growing.filed named there valid fun plans =>
                  brings root plans file there valid
              apply submits.conseq
              · rintro _ rfl
                rfl
              · exact fun _ _ (holds : Growing stores s.plans.tables _) => growing.trans holds
              · exact fun _ _ (holds : Growing stores s.plans.tables _) => growing.trans holds
            · exact fun _ _ => Keeps.pure _
          · exact fun _ => Keeps.pure _
      · exact Keeps.pure _
    · exact Keeps.throw _
  · exact Keeps.pure _

theorem keeps_showList {I : PlanTables → Prop} : Keeps (OnTables I) (JobPlanAction.showList env req) := by
  apply keeps_webRequest.bind
  intro n
  split
  · exact keeps_answer _
  · exact Keeps.throw _

theorem fileUpLoad_rule (reads : app.Reads document) (counts : app.Counts) (filed : t.Filed)
    (invokes : Invokes app session req .fileUpLoad last) :
    LeavesTables t (Growing (Brings app document session req) t) (JobPlanAction.fileUpLoad app env last) := by
  have same : Growing (Brings app document session req) t t := ⟨filed, fun _ => .inl rfl⟩
  have shows : LeavesTables t (Growing (Brings app document session req) t) (JobPlanAction.showList env last) :=
    .of_keeps keeps_showList same
  unfold JobPlanAction.fileUpLoad
  split
  · exact shows
  next clusterID given =>
    split
    · exact shows
    next named =>
      split
      · exact shows
      next items parts =>
        have own : req.items = some items := by
          obtain ⟨servlet, target, -, forwarded, -⟩ := invokes.leads
          exact forwarded.items ▸ parts
        have loop : Keeps (OnTables (Growing (Brings app document session req) t))
            (items.forM (JobPlanAction.uploadItem app env clusterID)) := by
          apply Keeps.forM
          intro item member
          apply uploadItem_rule reads counts (by simpa using named)
          intro root plans file there valid parsed plan inside cluster createDate stored copies
          subst cluster
          exact ⟨plan, createDate, stored, ⟨last, items, item, root, plans, invokes, given, own, member,
            file, there, valid,
            parsed, inside⟩, rfl, copies, rfl⟩
        have body : Keeps (OnTables (Growing (Brings app document session req) t)) (do
            catching Throwable.isException (items.forM (JobPlanAction.uploadItem app env clusterID)) fun _ => pure ()
            JobPlanAction.showList env last) :=
          (Keeps.catching loop fun _ _ => Keeps.pure PUnit.unit).bind fun _ => keeps_showList
        exact body.under fun s (here : s.plans.tables = t) => (here ▸ same : Growing _ t s.plans.tables)

/-! ### Deletions -/

/-- The plan with the ID is gone, or none is. -/
theorem fates_of_step {row : PlanEntity} {outcome : Option Bool} {u : PlanTables} (filed : t.Filed) (filed' : u.Filed)
    (found : t.byID? row.id = some row) (paused : row.state = .disable) (deletes : Deletes app session req row.id)
    (step : CatalogueStep t.catalogue (.deleteByID row.id, outcome) u.catalogue) :
    Fates stores (Deletes app session req) t u := by
  have member := (byID?_some found).1
  have either : u.catalogue = t.catalogue ∨ u.catalogue = Catalogue.without t.catalogue row.id := by
    generalize u.catalogue = after at step
    cases step with
    | deletedByID => exact .inr rfl
    | notDeletedByID failed either => exact either
    | others reads => exact absurd trivial reads
  refine ⟨filed', fun key => ?_⟩
  rcases either with same | gone
  · rw [held_congr (congrFun same key)]
    exact .kept
  · rw [filed.without member] at gone
    by_cases own : key = row.key
    · have nothing : u.held key = none := by rw [held, gone, own, Function.update_self, Option.map_none]
      rw [nothing]
      exact .deleted member own.symm paused deletes
    · have other : u.held key = t.held key := held_congr (by rw [gone, Function.update_of_ne own])
      rw [other]
      exact .kept

theorem delJobExecutionPlan_rule {row : PlanEntity} {jid : Int} (filed : t.Filed) (found : t.byID? row.id = some row)
    (number : jid.toNat = row.id) (paused : row.state = .disable) (deletes : Deletes app session req row.id) :
    Triple (OnTables (· = t)) (JobPlanService.delJobExecutionPlan env jid)
      (fun _ => OnTables (Fates stores (Deletes app session req) t)) fun _ =>
        OnTables (Fates stores (Deletes app session req) t) := by
  have fates (outcome : Option Bool) (p : PlanSystem) (holds : p.tables.Filed ∧
      CatalogueStep t.catalogue (.deleteByID row.id, outcome) p.tables.catalogue) :
      Fates stores (Deletes app session req) t p.tables := fates_of_step filed holds.1 found paused deletes holds.2
  unfold JobPlanService.delJobExecutionPlan
  rw [number]
  apply (triple_onPlans (@deleteByID_rule env.plans t filed row.id)).conseq (fun _ same => same)
  · exact fun answer s => fates (some answer) s.plans
  · exact fun _ s => fates none s.plans

/-- Only a plan that is found disabled is deleted. -/
theorem deletion_rule (filed : t.Filed) (invokes : Invokes app session req .deleteJobPlan last) :
    LeavesTables t (Fates stores (Deletes app session req) t) (JobPlanAction.deleteJobPlan env last) := by
  let After (u : PlanTables) : Prop := Fates stores (Deletes app session req) t u
  have same : After t := filed.keeping.fates
  have unchanged (s : WebSystem) (here : s.plans.tables = t) : After s.plans.tables := here ▸ same
  have answers (success : Bool) (msg : String) : LeavesTables t After (ajaxOutJsonResult success msg) :=
    .of_keeps (keeps_ajaxOutJsonResult _ _) same
  unfold JobPlanAction.deleteJobPlan
  apply Triple.bind (Q := fun _ => OnTables (· = t))
    ((keeps_askToLogin (I := (· = t))).conseq (fun _ => id) (fun _ _ => id) fun _ => unchanged)
  intro _
  dsimp only
  split
  · exact .pure unchanged
  · apply Triple.catching (F := fun _ => OnTables After)
    · apply Triple.bind (Q := fun jid s => OnTables (· = t) s ∧
        (last.getParameter "jobPlanID").bind integerValueOf = some jid)
      · unfold integerOf
        split
        · exact .throw unchanged
        next jid read => exact .pure fun s here => ⟨here, read⟩
      · intro jid
        apply Triple.of_imp (p := (last.getParameter "jobPlanID").bind integerValueOf = some jid) _
          fun s holds => holds.2
        intro read
        have query := triple_onPlans (@queryJobPlanByID_rule env.plans t jid.toNat)
        apply Triple.bind (Q := fun state s => OnTables (· = t) s ∧ state = (t.byID? jid.toNat).map (·.state))
        · apply (query.conseq (fun s holds => holds.1) (fun _ _ => id) fun _ s holds => unchanged s holds.1).bind
          exact fun found => .pure fun s holds => ⟨holds.1, by rw [holds.2]⟩
        · intro state
          apply Triple.of_imp (p := state = (t.byID? jid.toNat).map (·.state)) _ fun s holds => holds.2
          intro known
          cases state with
          | none => exact (answers _ _).conseq (fun s holds => holds.1) (fun _ _ => id) fun _ _ => id
          | some state =>
            cases state with
            | able => exact (answers _ _).conseq (fun s holds => holds.1) (fun _ _ => id) fun _ _ => id
            | disable =>
              obtain ⟨row, found, paused⟩ := Option.map_eq_some_iff.mp known.symm
              obtain ⟨member, number⟩ := byID?_some found
              have positive := filed.positive row member
              have deletes : Deletes app session req row.id := ⟨last, invokes, by rw [read]; congr 1; omega⟩
              rw [← number] at found
              have deletion :=
                @delJobExecutionPlan_rule app env t session req stores row jid filed found number.symm paused deletes
              apply Triple.bind (Q := fun _ => OnTables After)
              · exact deletion.conseq (fun s holds => holds.1) (fun _ _ => id) fun _ _ => id
              · intro answer
                split
                · exact keeps_ajaxOutJsonResult _ _
                · exact keeps_ajaxOutJsonResult _ _
    · exact fun _ _ => Keeps.pure _
    · exact fun _ _ _ holds => holds

/-- What a request does to the plans. -/
theorem request_fates {s : WebSystem} (reads : app.Reads document) (counts : app.Counts)
    (filed : s.plans.tables.Filed) :
    Fates (Brings app document s.session req) (Deletes app s.session req) s.plans.tables
      (after (handle app env req s)).plans.tables := by
  apply handle_leaves (Q := Fates (Brings app document s.session req) (Deletes app s.session req) s.plans.tables)
    filed.keeping.fates
  intro method last invokes shows forward
  by_cases stores : method = .fileUpLoad
  · subst stores
    exact (fileUpLoad_rule reads counts filed invokes).conseq (fun _ => id)
      (fun _ _ (growing : Growing _ _ _) => growing.fates) fun _ _ (growing : Growing _ _ _) => growing.fates
  · by_cases deletes : method = .deleteJobPlan
    · subst deletes
      exact deletion_rule filed invokes
    · have keeps : Keeps (OnTables (Keeping s.plans.tables)) (method.invoke app env forward last) :=
        keeping_invoke forward shows stores deletes
      apply keeps.conseq
      · exact fun u (here : u.plans.tables = s.plans.tables) =>
          (here ▸ filed.keeping : Keeping s.plans.tables u.plans.tables)
      · exact fun _ _ (keeping : Keeping _ _) => keeping.fates
      · exact fun _ _ (keeping : Keeping _ _) => keeping.fates

end Requests

/-! ### Runs -/

section Runs

variable {app : WebApp} {env : WebEnv} {document : String → Option Node} {s t u : WebSystem} {action : ConsoleAction}
  {actions more : List ConsoleAction} {key : String × String} {entry : PlanEntity}

theorem keeping_publishEvent {t : PlanTables} (id : Nat) :
    Keeps (OnTables (Keeping t)) (ConsoleAction.publishEvent env id) := by
  apply (keeps_onPlans (enduring_keeping.queryJobPlanByID id)).bind
  intro found
  split
  · exact (keeps_onPlans (enduring_keeping.disableJobExecutionPlans id)).bind fun _ => Keeps.pure _
  · apply Keeps.catching
    · exact keeps_onEngine fun _ => Engine.defines_startJobPlan id none
    · exact fun _ _ => Keeps.pure _

theorem keeping_tries {t : PlanTables} (id n : Nat) : Keeps (OnTables (Keeping t)) (ConsoleAction.tries env id n) := by
  induction n with
  | zero => exact Keeps.pure _
  | succ n ih => exact Keeps.catching (keeping_publishEvent id) fun _ _ => ih

/-- Only requests store and delete plans. -/
theorem step_fates (reads : app.Reads document) (counts : app.Counts) (filed : s.plans.tables.Filed)
    (step : ConsoleStep app env s action t) :
    Keeping s.plans.tables t.plans.tables ∨ ∃ session req, action = .request session req ∧
      Fates (Brings app document session req) (Deletes app session req) s.plans.tables t.plans.tables := by
  have same : OnTables (Keeping s.plans.tables) s := filed.keeping
  subst step
  cases action with
  | request session req =>
    right
    have fates := @request_fates app env document req { s with session := session } reads counts filed
    exact ⟨session, req, rfl, fates⟩
  | fires id => exact .inl ((keeping_tries id 3).after same)
  | reports cluster report =>
    left
    have keeps : Keeps (OnTables (Keeping s.plans.tables))
      (onEngine (Engine.handlejobProgress env.engine cluster report)) :=
      keeps_onEngine fun _ => Engine.defines_handlejobProgress cluster report
    exact keeps.after same
  | sweeps =>
    left
    have keeps : Keeps (OnTables (Keeping s.plans.tables))
      (onEngine (Engine.autoTimeOutHandlejobProgress env.engine)) :=
      keeps_onEngine fun _ => Engine.defines_autoTimeOutHandlejobProgress
    exact keeps.after same

/-- The text has no character that ends or escapes a quoted text in a statement. -/
def Pastable (text : String) : Prop := ∀ c ∈ text.toList, c ≠ '\x27' ∧ c ≠ '\x5c'

instance (text : String) : Decidable (Pastable text) := List.decidableBAll _ text.toList

/-- The texts of the request that a method pastes into its statements. -/
def HttpServletRequest.Plain (req : HttpServletRequest) : Prop :=
  ∀ name ∈ ["cID", "cronExpression"], ∀ text ∈ req.getParameter name, Pastable text

/-- A step in which the statements are the ones that are meant. -/
structure PlainStep (app : WebApp) (env : WebEnv) (s : WebSystem) (action : ConsoleAction) (t : WebSystem) : Prop where
  step : ConsoleStep app env s action t
  plain : ∀ session req, action = .request session req → ∀ method last, Invokes app session req method last → last.Plain

theorem filed_of_path (reads : app.Reads document) (counts : app.Counts) (filed : s.plans.tables.Filed)
    (run : Path (PlainStep app env) s actions t) : t.plans.tables.Filed := by
  apply run.invariant (I := fun s => s.plans.tables.Filed) _ filed
  intro action _ u v filed step
  rcases step_fates reads counts filed step.step with keeping | ⟨_, _, -, fates⟩
  · exact keeping.filed
  · exact fates.filed

/-- In steps with such texts only, a plan that is held came with one request, under a key that was free, and has
been held since. -/
theorem held_since_upload (reads : app.Reads document) (counts : app.Counts) (empty : s.plans.tables.Empty)
    (run : Path (PlainStep app env) s actions t) (held : t.plans.tables.held key = some entry) :
    ∃ before session req after u v, actions = before ++ .request session req :: after ∧
      Path (PlainStep app env) s before u ∧ u.plans.tables.held key = none ∧
      PlainStep app env u (.request session req) v ∧ Brings app document session req key entry ∧
      Path.Throughout (fun w => w.plans.tables.held key = some entry) (PlainStep app env) v after t := by
  rcases run.throughout_or (I := fun w => w.plans.tables.held key = some entry) held with
    always | ⟨before, action, after, u, v, split, path, missing, step, since⟩
  · -- the tables were empty at first
    have first : s.plans.tables.held key = some entry := always.first held
    rw [PlanTables.held, empty.catalogue] at first
    cases first
  · have there : v.plans.tables.held key = some entry := since.first held
    rcases step_fates reads counts (filed_of_path reads counts empty.filed path) step.step with keeping |
      ⟨session, req, rfl, fates⟩
    · exact absurd (keeping.held ▸ there) missing
    · have fate := fates.fate key
      rw [there] at fate
      generalize left_ : some entry = now at fate
      cases fate with
      | kept => exact absurd left_.symm missing
      | stored free brings =>
        cases left_
        exact ⟨before, session, req, after, u, v, split, path, free, step, brings, since⟩
      | deleted => cases left_

/-- In steps with such texts only, a plan that is held stays, as it is and under its ID, until a request deletes
it by that ID; it is disabled then. -/
theorem held_until_deletion (reads : app.Reads document) (counts : app.Counts) (empty : s.plans.tables.Empty)
    (earlier : Path (PlainStep app env) s actions t) (held : t.plans.tables.held key = some entry)
    (run : Path (PlainStep app env) t more u) :
    Path.Throughout (fun w => w.plans.tables.held key = some entry) (PlainStep app env) t more u ∨
      ∃ before session req after v w, more = before ++ .request session req :: after ∧
        Path.Throughout (fun w => w.plans.tables.held key = some entry) (PlainStep app env) t before v ∧
        Deletes app session req entry.id ∧
        (∃ row ∈ v.plans.tables.jobExecutionPlans, row.id = entry.id ∧ row.key = key ∧ row.state = .disable) ∧
        PlainStep app env v (.request session req) w ∧ w.plans.tables.held key = none ∧
          Path (PlainStep app env) w after u := by
  rcases run.throughout_or_breaks (I := fun w => w.plans.tables.held key = some entry) held with
    always | ⟨before, action, after, v, w, split, always, last, step, broken, path⟩
  · exact .inl always
  · right
    have filed : v.plans.tables.Filed :=
      filed_of_path reads counts (filed_of_path reads counts empty.filed earlier) always.path
    rcases step_fates reads counts filed step.step with keeping | ⟨session, req, rfl, fates⟩
    · exact absurd (keeping.held ▸ last) broken
    · have fate := fates.fate key
      generalize left_ : w.plans.tables.held key = now at fate
      cases fate with
      | kept => exact absurd (left_.trans last) broken
      | stored free => cases free.symm.trans last
      | @deleted row member own paused named =>
        have number : row.id = entry.id := by
          have entered := filed.toKeyed.catalogue_of_row member
          rw [own] at entered
          rw [PlanTables.held, entered, Option.map_some, Option.some.injEq] at last
          exact congrArg (·.id) last
        rw [number] at named
        exact ⟨before, session, req, after, v, w, split, always, named, ⟨row, member, number, own, paused⟩,
          step, left_, path⟩

end Runs

/-! ### A plan that is uploaded, paused and deleted -/

namespace OneUpload

/-- The library reads this one file, and the ids of the database are texts. -/
def document (content : String) : Option Node := if content = "<jobPlans>" then some (OnePlan.root "true") else none

def app : WebApp := { console with
  validateXMLByXSD := fun content => (document content).any Schema.jobPlans
  jobPlans := fun clusterID content => (document content).bind fun root =>
    (ExecutionPlanParser.getJobExecutionPlanSubmissionContext clusterID "" root).toOption.map (·.map (·.planEntity)) }

theorem reads : app.Reads document := ⟨fun _ => rfl, fun _ _ => rfl⟩

theorem counts : app.Counts := by
  intro ids stored _ free id member inside
  have none_ : ids.any stored.contains = false := Option.some.inj free
  have found := List.any_eq_false.mp none_ id member
  exact found (by simpa using inside)

/-- `POST /jobplan` of an administrator. -/
def post (method : String) (parameters : List (String × String)) (items : Option (List FileItem)) : ConsoleAction :=
  .request {} {
    method := .post
    requestURI := "/jobplan"
    parameters := [("userName", "scott"), ("password", "123456"), ("method", method)] ++ parameters
    items := items }

def upload : ConsoleAction := post "fileUpLoad" [("cID", "c")] (some [⟨false, "plans.xml", "<jobPlans>"⟩])

def pause : ConsoleAction := post "pauseJob" [("jobExecutionPlanID", "1")] none

def delete : ConsoleAction := post "deleteJobPlan" [("jobPlanID", "1")] none

def next (action : ConsoleAction) (s : WebSystem) : WebSystem := after (action.run app (.calm 0) s)

/-- Nothing is added to the parameters on the way. -/
theorem parameters_of_forwarded {servlet target : Servlet} {req last : HttpServletRequest}
    (forwarded : Forwarded app servlet req target last) : last.parameters = req.parameters := by
  induction forwarded with
  | here => rfl
  | on _ _ _ ih => exact ih

theorem next_plain (s : WebSystem) {method : String} {parameters : List (String × String)}
    {items : Option (List FileItem)} (plain : ∀ name ∈ ["cID", "cronExpression"], ∀ text ∈ List.lookup name
      ([("userName", "scott"), ("password", "123456"), ("method", method)] ++ parameters), Pastable text) :
    PlainStep app (.calm 0) s (post method parameters items) (next (post method parameters items) s) := by
  refine ⟨rfl, ?_⟩
  rintro _ _ ⟨⟩ _ last ⟨-, -, _, _, -, forwarded, -⟩
  unfold HttpServletRequest.Plain HttpServletRequest.getParameter
  rw [parameters_of_forwarded forwarded]
  exact plain

end OneUpload

open OneUpload in
/-- The upload of the document with one plan. -/
theorem held_since_upload_once : ∃ entry, (next upload {}).plans.tables.held ("c", "+7") = some entry ∧
    ∃ session req, Brings app document session req ("c", "+7") entry := by
  have found : ((next upload {}).plans.tables.held ("c", "+7")).isSome = true := by decide +kernel
  obtain ⟨entry, held⟩ := Option.isSome_iff_exists.mp found
  have run : Path (PlainStep app (.calm 0)) {} [upload] (next upload {}) := .cons (next_plain _ (by decide)) (.nil _)
  obtain ⟨before, session, req, after, u, v, -, -, -, -, brings, -⟩ :=
    held_since_upload reads counts ⟨rfl, rfl, rfl⟩ run held
  exact ⟨entry, held, session, req, brings⟩

open OneUpload in
/-- The plan is not held any more at the end, so it was deleted by its ID. -/
theorem held_until_deletion_once : ∃ entry, (next upload {}).plans.tables.held ("c", "+7") = some entry ∧
    ∃ session req, Deletes app session req entry.id := by
  have found : ((next upload {}).plans.tables.held ("c", "+7")).isSome = true := by decide +kernel
  obtain ⟨entry, held⟩ := Option.isSome_iff_exists.mp found
  have gone : (next delete (next pause (next upload {}))).plans.tables.held ("c", "+7") = none := by decide +kernel
  have earlier : Path (PlainStep app (.calm 0)) {} [upload] (next upload {}) :=
    .cons (next_plain _ (by decide)) (.nil _)
  have run : Path (PlainStep app (.calm 0)) (next upload {}) [pause, delete]
    (next delete (next pause (next upload {}))) :=
    .cons (next_plain _ (by decide)) (.cons (next_plain _ (by decide)) (.nil _))
  refine ⟨entry, held, ?_⟩
  rcases held_until_deletion reads counts ⟨rfl, rfl, rfl⟩ earlier held run with
    always | ⟨before, session, req, after, v, w, -, -, deletes, -⟩
  · cases always with
    | cons first rest =>
      cases rest with
      | cons second last =>
        cases last
        cases gone.symm.trans second.2.2
  · exact ⟨session, req, deletes⟩

end Hella
