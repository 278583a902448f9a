import Hella.Properties.Unauthenticated

/-!
# A rule for requests

A request invokes at most one method besides `index`, which only forwards it. What the method
does to the plan tables the request does, and what every method may do every request does.
-/
namespace Hella

open Exec Text WebSystem

variable {app : WebApp} {env : WebEnv} {servlet target : Servlet} {req last : HttpServletRequest}
  {session : HttpSession}
  {method : ActionMethod} {α : Type}

/-- The filter lets the request pass. -/
def LoginFilter.Passes (app : WebApp) (session : HttpSession) (req : HttpServletRequest) : Prop :=
  exempt req.requestURI = true ∨ app.validates (credentials req session).1 (credentials req session).2 = true

/-- The request gets to the method, where it may have been forwarded to. -/
structure Invokes (app : WebApp) (session : HttpSession) (req : HttpServletRequest) (method : ActionMethod)
    (last : HttpServletRequest) : Prop where
  passes : LoginFilter.Passes app session req
  posted : req.method ≠ .other
  leads : ∃ servlet target, Servlet.ofPath (app.pathInContext req.requestURI) = some servlet ∧
    Forwarded app servlet req target last ∧ last.action? target = some method

theorem Forwarded.items (forwarded : Forwarded app servlet req target last) : last.items = req.items := by
  induction forwarded with
  | here => rfl
  | on _ _ _ ih => exact ih

/-- What is said of the plan tables. -/
def OnTables (I : PlanTables → Prop) (s : WebSystem) : Prop := I s.plans.tables

section Keeps

variable {I : PlanTables → Prop}

theorem keeps_answer (a : HttpResponse) : Keeps (OnTables I) (answer a) := Keeps.modifying fun _ holds => holds

theorem keeps_ajaxOutJsonResult (success : Bool) (msg : String) : Keeps (OnTables I) (ajaxOutJsonResult success msg) :=
  keeps_answer _

theorem keeps_webRequest : Keeps (OnTables I) request := fun _ holds => holds

theorem keeps_onPlans {body : PlanM α} (keeps : Keeps (fun p => I p.tables) body) : Keeps (OnTables I) (onPlans body) :=
  keeps.zoom (fun _ holds => holds) fun _ _ _ holds => holds

/-- What a program does to the plans alone. -/
theorem triple_onPlans {body : PlanM α} {P : PlanSystem → Prop} {F : α → PlanSystem → Prop}
    {E : Throwable → PlanSystem → Prop} (triple : Triple P body F E) :
    Triple (fun s => P s.plans) (onPlans body) (fun a s => F a s.plans) fun e s => E e s.plans := by
  intro s holds
  have result := triple s.plans holds
  unfold onPlans zoom
  cases same : body s.plans <;> simpa only [same] using result

theorem keeps_askToLogin : Keeps (OnTables I) JobPlanAction.askToLogin := by
  apply Keeps.getting.bind
  intro s
  split
  · exact keeps_ajaxOutJsonResult _ _
  · exact Keeps.pure _

end Keeps

/-! ### From the filter to the method -/

section Leads

/-- Starting with these tables, the program leaves tables of which this holds. -/
def LeavesTables (t : PlanTables) (Q : PlanTables → Prop) (x : WebM Unit) : Prop :=
  Triple (OnTables (· = t)) x (fun _ => OnTables Q) fun _ => OnTables Q

variable {t : PlanTables} {Q : PlanTables → Prop} {forward : HttpServletRequest → String → WebM Unit}

theorem LeavesTables.of_keeps {x : WebM Unit} (keeps : Keeps (OnTables (· = t)) x) (holds : Q t) : LeavesTables t Q x :=
  keeps.conseq (fun _ same => same) (fun _ s (same : s.plans.tables = t) => (same ▸ holds : Q s.plans.tables))
    fun _ s (same : s.plans.tables = t) => (same ▸ holds : Q s.plans.tables)

theorem page_leaves (holds : Q t) (forwards : ∀ path, req.page? = some path → LeavesTables t Q (forward req path)) :
    LeavesTables t Q (BaseAction.doPost.page forward req (req.getParameter "forward")) := by
  unfold HttpServletRequest.page? at forwards
  cases asked : req.getParameter "forward" with
  | none => exact .of_keeps (Keeps.pure _) holds
  | some path =>
    rw [asked] at forwards
    dsimp only [BaseAction.doPost.page] at forwards ⊢
    split
    · exact .of_keeps (Keeps.pure _) holds
    next named =>
      rw [if_neg named] at forwards
      split
      · refine .of_keeps (Keeps.bind (Keeps.modifying fun _ same => ?_) fun _ => keeps_answer _) holds
        exact same
      next stays =>
        rw [if_neg stays] at forwards
        exact forwards _ rfl

/-- An exception of the method becomes an answer. -/
theorem reflect_leaves (holds : Q t) {name : String}
    (invokes : ∀ method, servlet.getMethod name = some method → LeavesTables t Q (method.invoke app env forward req)) :
    LeavesTables t Q (reflect app env forward servlet req name) := by
  unfold reflect
  cases found : servlet.getMethod name with
  | none => exact .of_keeps (keeps_answer _) holds
  | some method =>
    apply Triple.catching (F := fun _ => OnTables Q)
    · exact invokes method found
    · exact fun _ _ => keeps_answer _
    · exact fun _ _ _ holds => holds

theorem doPost_leaves (holds : Q t) (forwards : ∀ path, req.forwardPath? servlet = some path →
    LeavesTables t Q (forward req path)) (acts : ∀ method, req.action? servlet = some method → method ≠ .index →
      LeavesTables t Q (method.invoke app env forward req)) :
    LeavesTables t Q (BaseAction.doPost app env forward servlet req) := by
  unfold HttpServletRequest.forwardPath? at forwards
  unfold HttpServletRequest.action? at acts
  unfold BaseAction.doPost
  cases named : req.getParameter "method" with
  | none =>
    rw [named] at forwards
    exact page_leaves holds forwards
  | some name =>
    rw [named] at forwards acts
    dsimp only at forwards acts ⊢
    split
    next blank =>
      rw [if_pos blank] at forwards
      exact page_leaves holds forwards
    next filled =>
      rw [if_neg filled] at forwards acts
      apply reflect_leaves holds
      intro method found
      by_cases shows : method = .index
      · subst shows
        rw [if_pos found] at forwards
        apply Triple.bind (Q := fun _ => OnTables (· = t))
        · exact (keeps_webRequest (I := (· = t))).conseq (fun _ same => same) (fun _ _ same => same)
            fun _ s (same : s.plans.tables = t) => (same ▸ holds : Q s.plans.tables)
        · intro n
          split
          · exact forwards _ rfl
          · exact LeavesTables.of_keeps (Keeps.throw _) holds
      · exact acts method found shows

theorem forwardTo_leaves (holds : Q t) (depth : Nat) {path : String}
    (acts : ∀ next target last method, Servlet.ofPath (app.getRequestDispatcher path).1 = some next →
      Forwarded app next (req.withQuery (app.getRequestDispatcher path).2) target last →
        last.action? target = some method →
      method ≠ .index → ∀ forward, LeavesTables t Q (method.invoke app env forward last)) :
    LeavesTables t Q (forwardTo app env depth req path) := by
  induction depth generalizing req path with
  | zero => exact .of_keeps (Keeps.throw _) holds
  | succ depth ih =>
    unfold forwardTo
    dsimp only
    cases mapped : Servlet.ofPath (app.getRequestDispatcher path).1 with
    | none => exact .of_keeps (keeps_answer _) holds
    | some next =>
      apply doPost_leaves holds
      · intro onward leads
        apply ih
        intro later target last method mapped' forwarded named shows
        exact acts next target last method mapped (.on leads mapped' forwarded) named shows
      · intro method named shows
        exact acts next next _ method mapped (.here next _) named shows _

theorem service_leaves (holds : Q t) (acts : ∀ servlet target last method, req.method ≠ .other →
    Servlet.ofPath (app.pathInContext req.requestURI) = some servlet → Forwarded app servlet req target last →
    last.action? target = some method → method ≠ .index →
      ∀ forward, LeavesTables t Q (method.invoke app env forward last)) :
    LeavesTables t Q (service app env req) := by
  unfold service
  cases mapped : Servlet.ofPath (app.pathInContext req.requestURI) with
  | none => exact .of_keeps (keeps_answer _) holds
  | some servlet =>
    dsimp only
    split
    · exact .of_keeps (keeps_answer _) holds
    next posted =>
      apply doPost_leaves holds
      · intro path leads
        apply forwardTo_leaves holds
        intro next target last method mapped' forwarded named shows
        exact acts servlet target last method posted mapped (.on leads mapped' forwarded) named shows
      · intro method named shows
        exact acts servlet servlet req method posted mapped (.here servlet req) named shows _

/-- What the method does that the request gets to, the request does. -/
theorem handle_leaves {s : WebSystem} (holds : Q s.plans.tables)
    (acts : ∀ method last, Invokes app s.session req method last → method ≠ .index → ∀ forward,
      LeavesTables s.plans.tables Q (method.invoke app env forward last)) :
    Q (after (handle app env req s)).plans.tables := by
  have serves (passes : LoginFilter.Passes app s.session req) :
    LeavesTables s.plans.tables Q (service app env req) := by
    apply service_leaves holds
    intro servlet target last method posted mapped forwarded named shows
    exact acts method last ⟨passes, posted, servlet, target, mapped, forwarded, named⟩ shows
  unfold handle LoginFilter.doFilter
  split
  next exempt => exact (serves (.inl exempt)).after (Q := OnTables Q) rfl
  next checked =>
    rw [bind_ok (get_apply s)]
    dsimp only
    split
    · exact holds
    · split
      next valid =>
        have chain : LeavesTables s.plans.tables Q (catching Throwable.isException (do
            modify fun s => { s with session := {
              userName := (LoginFilter.credentials req s.session).1
              password := (LoginFilter.credentials req s.session).2 } }
            service app env req) fun _ => pure ()) := by
          apply Triple.catching (F := fun _ => OnTables Q)
          · apply Triple.bind (Q := fun _ => OnTables (· = s.plans.tables))
            · exact Triple.modifying fun _ same => same
            · exact fun _ => serves (.inr valid)
          · exact fun _ _ => Keeps.pure _
          · exact fun _ _ _ holds => holds
        exact chain.after (Q := OnTables Q) rfl
      · exact holds

end Leads

end Hella
