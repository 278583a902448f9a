import Hella.Web.Effects

/-!
# Requests without a login

`LoginFilter` lets every URI with the ending of an image or a style sheet pass, and the
servlets are mapped by the beginning of a path. So a request that neither carries nor has a
login changes nothing exactly when its URI is checked or nothing it leads to acts on it.
-/
namespace Hella

open Exec Text WebSystem

variable {app : WebApp} {env : WebEnv} {servlet target : Servlet} {req last : HttpServletRequest} {s s₀ : WebSystem}

/-! ### Where a request leads -/

/-- The method a request names. -/
def HttpServletRequest.action? (req : HttpServletRequest) (servlet : Servlet) : Option ActionMethod :=
  match req.getParameter "method" with
  | none => none
  | some name => if isBlank (some name) then none else servlet.getMethod name

/-- The page a request without a method is forwarded to. -/
def HttpServletRequest.page? (req : HttpServletRequest) : Option String :=
  match req.getParameter "forward" with
  | none => none
  | some path => if isBlank (some path) then none else if path = "exit" then none else some ("/jsp/" ++ path)

/-- The path from the request that it is forwarded to. -/
def HttpServletRequest.forwardPath? (req : HttpServletRequest) (servlet : Servlet) : Option String :=
  match req.getParameter "method" with
  | none => req.page?
  | some name =>
    if isBlank (some name) then req.page?
    else if servlet.getMethod name = some .index then some ("/jsp/" ++ orNull (req.getParameter "forward"))
    else none

/-- The request gets to the other servlet in any number of forwards. -/
inductive Forwarded (app : WebApp) : Servlet → HttpServletRequest → Servlet → HttpServletRequest → Prop
  | here (servlet : Servlet) (req : HttpServletRequest) : Forwarded app servlet req servlet req
  | on {servlet next target req path last} (leads : req.forwardPath? servlet = some path)
      (mapped : Servlet.ofPath (app.getRequestDispatcher path).1 = some next)
      (rest : Forwarded app next (req.withQuery (app.getRequestDispatcher path).2) target last) :
    Forwarded app servlet req target last

/-- A method that acts on the request is invoked, at this servlet or after forwards. -/
def ActsOn (app : WebApp) (session : HttpSession) (servlet : Servlet) (req : HttpServletRequest) : Prop :=
  ∃ target last method, Forwarded app servlet req target last ∧ last.action? target = some method ∧
    method.Touches app session last

/-- The filter does not look at the request, and it gets to a method that acts on it. -/
def Bypasses (app : WebApp) (session : HttpSession) (req : HttpServletRequest) : Prop :=
  LoginFilter.exempt req.requestURI = true ∧ req.method ≠ .other ∧
    ∃ servlet, Servlet.ofPath (app.pathInContext req.requestURI) = some servlet ∧ ActsOn app session servlet req

/-- Neither the request nor its session carries a login that is accepted. -/
def Unauthenticated (app : WebApp) (session : HttpSession) (req : HttpServletRequest) : Prop :=
  app.validates (req.getParameter "userName") (req.getParameter "password") = false ∧
    app.validates session.userName session.password = false

/-- Whatever the state and whatever succeeds, the request changes nothing. -/
def ChangesNothing (app : WebApp) (session : HttpSession) (req : HttpServletRequest) : Prop :=
  ∀ env s, s.session = session → Unchanged s (after (handle app env req s))

/-! ### Requests that lead nowhere -/

/-- What comes after an exception of the method is only an answer. -/
theorem unchanged_reflect {x : WebM Unit} :
    Unchanged s₀ (after (catching (fun _ => true) x (fun _ => answer (.sendError 500)) s)) ↔
      Unchanged s₀ (after (x s)) := by
  unfold catching
  cases x s with
  | ok a t => exact .rfl
  | error e t => exact ⟨fun same => { same with }, fun same => { same with }⟩

section Quiet

variable {forward : HttpServletRequest → String → WebM Unit}

/-- The forwards change nothing unless they get to a servlet where something is acted on. -/
def QuietForward (app : WebApp) (forward : HttpServletRequest → String → WebM Unit) : Prop :=
  ∀ req path s, (∀ next, Servlet.ofPath (app.getRequestDispatcher path).1 = some next →
    ¬ ActsOn app s.session next (req.withQuery (app.getRequestDispatcher path).2)) →
    Unchanged s (after (forward req path s))

/-- Nothing is reached by way of a path the request is forwarded to. -/
theorem not_reached {path : String} {session : HttpSession} (quiet : ¬ ActsOn app session servlet req)
    (leads : req.forwardPath? servlet = some path) (next : Servlet)
    (mapped : Servlet.ofPath (app.getRequestDispatcher path).1 = some next) :
    ¬ ActsOn app session next (req.withQuery (app.getRequestDispatcher path).2) := by
  rintro ⟨target, last, method, rest, acts⟩
  exact quiet ⟨target, last, method, .on leads mapped rest, acts⟩

theorem page_unchanged (forwards : QuietForward app forward) (quiet : ¬ ActsOn app s.session servlet req)
    (leads : req.forwardPath? servlet = req.page?) :
    Unchanged s (after (BaseAction.doPost.page forward req (req.getParameter "forward") s)) := by
  unfold HttpServletRequest.page? at leads
  cases asked : req.getParameter "forward" with
  | none => exact .refl s
  | some path =>
    rw [asked] at leads
    dsimp only [BaseAction.doPost.page] at leads ⊢
    split
    · exact .refl s
    next named =>
      rw [if_neg named] at leads
      split
      · exact ⟨rfl, rfl, rfl, rfl, rfl, rfl, rfl⟩
      next stays =>
        rw [if_neg stays] at leads
        exact forwards req _ s (not_reached quiet leads)

theorem doPost_unchanged (forwards : QuietForward app forward) (quiet : ¬ ActsOn app s.session servlet req) :
    Unchanged s (after (BaseAction.doPost app env forward servlet req s)) := by
  unfold BaseAction.doPost
  cases named : req.getParameter "method" with
  -- without a method the page is shown
  | none =>
    have leads : req.forwardPath? servlet = req.page? := by rw [HttpServletRequest.forwardPath?, named]
    exact page_unchanged forwards quiet leads
  | some name =>
    dsimp only
    split
    next blank =>
      have leads : req.forwardPath? servlet = req.page? := by
        rw [HttpServletRequest.forwardPath?, named]
        exact if_pos blank
      exact page_unchanged forwards quiet leads
    -- with one, the method the name leads to is called, if there is any
    next filled =>
      unfold reflect
      cases found : servlet.getMethod name with
      | none => exact ⟨rfl, rfl, rfl, rfl, rfl, rfl, rfl⟩
      | some method =>
        apply unchanged_reflect.mpr
        by_cases shows : method = .index
        · subst shows
          have leads : req.forwardPath? servlet = some ("/jsp/" ++ orNull (req.getParameter "forward")) := by
            rw [HttpServletRequest.forwardPath?, named]
            exact (if_neg filled).trans (if_pos found)
          -- the index page is a forward; every other method acts or leaves all as it is
          change Unchanged s (after ((if env.succeeds s.tick then _ else _ : WebM Unit) { s with tick := s.tick + 1 }))
          split
          · exact (⟨rfl, rfl, rfl, rfl, rfl, rfl, rfl⟩ : Unchanged s { s with tick := s.tick + 1 }).trans
              (forwards req _ { s with tick := s.tick + 1 } (not_reached quiet leads))
          · exact ⟨rfl, rfl, rfl, rfl, rfl, rfl, rfl⟩
        · have acts : req.action? servlet = some method := by
            rw [HttpServletRequest.action?, named]
            exact (if_neg filled).trans found
          apply ((same_invoke forward shows fun touches => ?_).after (Same.refl s)).toUnchanged
          exact quiet ⟨servlet, req, method, .here servlet req, acts, touches⟩

theorem forwardTo_quiet (depth : Nat) : QuietForward app (forwardTo app env depth) := by
  induction depth with
  | zero => exact fun req path s _ => .refl s
  | succ depth ih =>
    intro req path s quiet
    unfold forwardTo
    dsimp only
    cases mapped : Servlet.ofPath (app.getRequestDispatcher path).1 with
    | none => exact ⟨rfl, rfl, rfl, rfl, rfl, rfl, rfl⟩
    | some next => exact doPost_unchanged ih (quiet next mapped)

end Quiet

theorem service_unchanged (harmless : req.method ≠ .other → ∀ servlet,
    Servlet.ofPath (app.pathInContext req.requestURI) = some servlet → ¬ ActsOn app s.session servlet req) :
    Unchanged s (after (service app env req s)) := by
  unfold service
  cases mapped : Servlet.ofPath (app.pathInContext req.requestURI) with
  | none => exact ⟨rfl, rfl, rfl, rfl, rfl, rfl, rfl⟩
  | some servlet =>
    dsimp only
    split
    · exact ⟨rfl, rfl, rfl, rfl, rfl, rfl, rfl⟩
    next posted => exact doPost_unchanged (forwardTo_quiet _) (harmless posted servlet mapped)

/-- A request without a login gets past the filter only under an exempt URI. -/
theorem handle_unchanged (stranger : Unauthenticated app s.session req) (harmless : ¬ Bypasses app s.session req) :
    Unchanged s (after (handle app env req s)) := by
  unfold handle LoginFilter.doFilter
  split
  next exempt =>
    apply service_unchanged
    intro posted servlet mapped reaches
    exact harmless ⟨exempt, posted, servlet, mapped, reaches⟩
  next checked =>
    have refused : app.validates (LoginFilter.credentials req s.session).1 (LoginFilter.credentials req s.session).2 =
        false := by
      unfold LoginFilter.credentials
      dsimp only
      split
      · exact stranger.2
      · exact stranger.1
    rw [bind_ok (get_apply s)]
    dsimp only
    split
    · exact ⟨rfl, rfl, rfl, rfl, rfl, rfl, rfl⟩
    · rw [refused, if_neg Bool.false_ne_true]
      exact ⟨rfl, rfl, rfl, rfl, rfl, rfl, rfl⟩

/-! ### Requests that change something -/

section Loud

variable {forward : HttpServletRequest → String → WebM Unit} {session : HttpSession} {method : ActionMethod}

/-- A request is invoked once it names a method. -/
theorem doPost_invokes (asks : req.action? servlet = some method) :
    Unchanged s₀ (after (BaseAction.doPost app env forward servlet req s)) ↔
      Unchanged s₀ (after (method.invoke app env forward req s)) := by
  unfold HttpServletRequest.action? at asks
  unfold BaseAction.doPost
  cases named : req.getParameter "method" with
  | none =>
    rw [named] at asks
    cases asks
  | some name =>
    rw [named] at asks
    dsimp only at asks ⊢
    split at asks
    · cases asks
    next filled =>
      rw [if_neg filled, reflect, asks]
      exact unchanged_reflect

/-- A page is asked for as the request says. -/
theorem page_forwards {path : String} (leads : req.page? = some path) :
    BaseAction.doPost.page forward req (req.getParameter "forward") = forward req path := by
  unfold HttpServletRequest.page? at leads
  cases asked : req.getParameter "forward" with
  | none =>
    rw [asked] at leads
    cases leads
  | some given =>
    rw [asked] at leads
    dsimp only [BaseAction.doPost.page] at leads ⊢
    split at leads
    · cases leads
    next filled =>
      split at leads
      · cases leads
      next stays =>
        cases leads
        rw [if_neg filled, if_neg stays]

/-- A request that is forwarded does what it does where it is forwarded to. -/
theorem doPost_forwards {path : String} (leads : req.forwardPath? servlet = some path) (calm : env.Calm) (k : Nat) :
    ∃ k', Unchanged s₀ (after (BaseAction.doPost app env forward servlet req { s with tick := k })) ↔
      Unchanged s₀ (after (forward req path { s with tick := k' })) := by
  unfold HttpServletRequest.forwardPath? at leads
  unfold BaseAction.doPost
  cases named : req.getParameter "method" with
  | none =>
    rw [named] at leads
    refine ⟨k, ?_⟩
    dsimp only
    rw [page_forwards leads]
  | some name =>
    rw [named] at leads
    dsimp only at leads ⊢
    split at leads
    next blank =>
      refine ⟨k, ?_⟩
      rw [if_pos blank, page_forwards leads]
    next filled =>
      split at leads
      next shows =>
        cases leads
        -- the list of executor clusters is read first
        refine ⟨k + 1, ?_⟩
        rw [if_neg filled, reflect, shows]
        refine unchanged_reflect.trans ?_
        have read : WebSystem.request { s with tick := k } = .ok k { s with tick := k + 1 } := rfl
        change Unchanged s₀ (after (JobPlanAction.index env forward req _)) ↔ _
        unfold JobPlanAction.index
        rw [bind_ok read, calm.succeeds, if_pos rfl]
      · cases leads

/-- With enough room for its forwards, a request that is acted on changes something. -/
theorem forwarded_changes (way : Forwarded app servlet req target last) (asks : last.action? target = some method)
    (touches : method.Touches app session last) : ∃ depth, ∀ env : WebEnv, env.Calm → ∃ s₀ : WebSystem,
      s₀.session = session ∧
      ∀ k, ¬ Unchanged s₀ (after (BaseAction.doPost app env (forwardTo app env depth) servlet req
        { s₀ with tick := k })) := by
  induction way with
  | here servlet req =>
    refine ⟨0, fun env calm => ?_⟩
    obtain ⟨s₀, own, changes⟩ : ∃ s₀ : WebSystem, s₀.session = session ∧ ∀ k,
        ¬ Unchanged s₀ (after (method.invoke app env (forwardTo app env 0) req { s₀ with tick := k })) :=
      invoke_changes calm touches
    exact ⟨s₀, own, fun k same => changes k ((doPost_invokes asks).mp same)⟩
  | on leads mapped _ ih =>
    obtain ⟨depth, ih⟩ := ih asks touches
    refine ⟨depth + 1, fun env calm => ?_⟩
    obtain ⟨s₀, own, changes⟩ := ih env calm
    refine ⟨s₀, own, fun k same => ?_⟩
    obtain ⟨k', there⟩ := doPost_forwards leads calm k
    have reached := there.mp same
    unfold forwardTo at reached
    dsimp only at reached
    rw [mapped] at reached
    exact changes k' reached

/-- A bypass changes something when there is something to change. -/
theorem bypasses_changes (bypasses : Bypasses app session req) : ¬ ChangesNothing app session req := by
  obtain ⟨exempt, posted, servlet, mapped, target, last, method, way, asks, touches⟩ := bypasses
  obtain ⟨depth, changes⟩ := forwarded_changes way asks touches
  obtain ⟨s₀, own, changes⟩ := changes (.calm depth) (WebEnv.calm_calm depth)
  intro nothing
  have same := nothing (.calm depth) s₀ own
  unfold handle LoginFilter.doFilter service at same
  rw [if_pos exempt, mapped] at same
  dsimp only at same
  rw [if_neg posted] at same
  exact changes s₀.tick same

end Loud

/-- A request without a login changes nothing exactly if it is no bypass. -/
theorem changes_nothing_iff_no_bypass (app : WebApp) (session : HttpSession) (req : HttpServletRequest) :
    (Unauthenticated app session req → ChangesNothing app session req) ↔
      (Unauthenticated app session req → ¬ Bypasses app session req) := by
  constructor
  · intro frame stranger bypasses
    exact bypasses_changes bypasses (frame stranger)
  · intro harmless stranger env s own
    subst own
    exact handle_unchanged stranger (harmless stranger)

/-! ### A style sheet that pauses a plan -/

/-- The configuration as it is shipped, with a container that leaves paths as they are. -/
def console : WebApp where
  administrators := .configured (some "scott") (some "e10adc3949ba59abbe56e057f20f883e")
  doMD5 password := if password = "123456" then "e10adc3949ba59abbe56e057f20f883e" else ""
  pathInContext := id
  getRequestDispatcher path := (path, [])
  validateXMLByXSD _ := false
  jobPlans _ _ := none
  isJobPlansExist ids stored := some (ids.any stored.contains)

/-- `GET /jobplan/list.css?method=pauseJob&jobExecutionPlanID=1`. -/
def styleSheet : HttpServletRequest where
  method := .get
  requestURI := "/jobplan/list.css"
  parameters := [("method", "pauseJob"), ("jobExecutionPlanID", "1")]

/-- Nobody has logged in, and plan 1 is paused. -/
theorem paused_without_login : Unauthenticated console {} styleSheet ∧ ¬ Unchanged (storedAt {} (rowAt 1 .able ""))
    (after (handle console (.calm 0) styleSheet (storedAt {} (rowAt 1 .able "")))) := by
  refine ⟨⟨rfl, rfl⟩, fun same => ?_⟩
  have paused : (after (handle console (.calm 0) styleSheet
    (storedAt {} (rowAt 1 .able "")))).plans.tables.jobExecutionPlans.map
      (·.state) = [.disable] := by decide +kernel
  rw [same.tables] at paused
  cases paused

end Hella
