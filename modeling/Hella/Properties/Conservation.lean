import Hella.Engine.Dispatcher

/-!
# The dispatcher conserves events

A list that has left the map is never added to, and a list in the map is the queue of one
cluster. So what leaves the dispatcher for a cluster, followed by its queue, is what was
dispatched for the cluster while it was registered, whatever the callers do to the lists
they were given.
-/
namespace Hella

variable {E : Type}

/-- A call that has ended, with the events in the list that was taken out of the map. -/
inductive DispatcherCall (E : Type) where
  | doDispatch (jobEvent : Option E)
  | getJobEventsByExecutorClusterID (clusterID : Option String) (returned : Option (List E))
  | removeJobEventsByExecutorClusterID (clusterID : Option String) (discarded : Option (List E))
  | storeExecutorRegisterDate (clusterID date : Option String)
  | removeExecutorRegisterDate (clusterID : Option String)
  /-- whoever has a list that is out changes it -/
  | setList (reference : Nat) (events : List E)

namespace DispatcherCall

/-- The events that have left with the call as those of the cluster. -/
def released (c : String) : DispatcherCall E → List E
  | getJobEventsByExecutorClusterID clusterID events
  | removeJobEventsByExecutorClusterID clusterID events => if clusterID = some c then events.getD [] else []
  | _ => []

/-- Whether the cluster is registered after the call. -/
def registers (c : String) (registered : Bool) : DispatcherCall E → Bool
  | storeExecutorRegisterDate clusterID _ => registered || clusterID == some c
  | removeExecutorRegisterDate clusterID => registered && clusterID != some c
  | _ => registered

/-- The event that is dispatched for the cluster, if it is registered. -/
def enters (executorClusterID : E → Option String) (c : String) (registered : Bool) : DispatcherCall E → List E
  | doDispatch (some jobEvent) => if registered && executorClusterID jobEvent == some c then [jobEvent] else []
  | _ => []

/-- The events dispatched for the cluster while it was registered. -/
def dispatched (executorClusterID : E → Option String) (c : String) : Bool → List (DispatcherCall E) → List E
  | _, [] => []
  | registered, call :: calls =>
    call.enters executorClusterID c registered ++ dispatched executorClusterID c (call.registers c registered) calls

end DispatcherCall

namespace Dispatcher

variable (executorClusterID : E → Option String)

/-- A call on the dispatcher. The references that are out go with it. -/
inductive Step : List Nat → Dispatcher E → DispatcherCall E → List Nat → Dispatcher E → Prop where
  | dispatches {out s jobEvent} :
    Step out s (.doDispatch jobEvent) out (s.doDispatch executorClusterID jobEvent)
  | gets {out s clusterID reference t} (given : s.getJobEventsByExecutorClusterID clusterID = .ok (reference, t)) :
    Step out s (.getJobEventsByExecutorClusterID clusterID (reference.map s.list)) (out ++ reference.toList) t
  | getThrows {out s clusterID e} (threw : s.getJobEventsByExecutorClusterID clusterID = .error e) :
    Step out s (.getJobEventsByExecutorClusterID clusterID none) out s
  | removes {out s clusterID reference t} (taken : s.removeJobEventsByExecutorClusterID clusterID =
    .ok (reference, t)) :
    Step out s (.removeJobEventsByExecutorClusterID clusterID (reference.map s.list)) (out ++ reference.toList) t
  | removeThrows {out s clusterID e} (threw : s.removeJobEventsByExecutorClusterID clusterID = .error e) :
    Step out s (.removeJobEventsByExecutorClusterID clusterID none) out s
  | stores {out s clusterID date} :
    Step out s (.storeExecutorRegisterDate clusterID date) out (s.storeExecutorRegisterDate clusterID date)
  | unregisters {out s clusterID} :
    Step out s (.removeExecutorRegisterDate clusterID) out (s.removeExecutorRegisterDate clusterID)
  | changes {out s reference events} (given : reference ∈ out) :
    Step out s (.setList reference events) out { s with lists := s.lists.set reference events }

inductive Run : List Nat → Dispatcher E → List (DispatcherCall E) → Dispatcher E → Prop where
  | nil {out s} : Run out s [] s
  | cons {out s call out' t calls u} (first : Step executorClusterID out s call out' t) (rest : Run out' t calls u) :
    Run out s (call :: calls) u

variable {executorClusterID} {s t u : Dispatcher E} {out out' : List Nat} {calls : List (DispatcherCall E)}

/-- `get` and `remove` take out the queue of their cluster and no other. -/
theorem Separate.taken (separate : s.Separate out) {clusterID : Option String} {reference : Option Nat}
    (taken : s.getJobEventsByExecutorClusterID clusterID = .ok (reference, t)) :
    t.Separate (out ++ reference.toList) ∧ ∀ c,
      (if clusterID = some c then (reference.map s.list).getD [] else []) ++ t.queue c = s.queue c ∧
      t.isExecutorAlreadyRegister (some c) = s.isExecutorAlreadyRegister (some c) := by
  cases clusterID with
  | none => cases taken
  | some d =>
    cases taken
    refine ⟨separate.remove d, fun c => ⟨?_, rfl⟩⟩
    by_cases own : d = c
    · subst own
      rw [if_pos rfl, queue_remove, List.append_nil]
      rfl
    · rw [if_neg fun same => own (Option.some.inj same), queue_remove_of_ne (Ne.symm own), List.nil_append]

theorem doDispatch_conserves (separate : s.Separate out) (jobEvent : Option E) (c : String) :
    (s.doDispatch executorClusterID jobEvent).queue c =
      s.queue c ++ (DispatcherCall.doDispatch jobEvent).enters executorClusterID c
        (s.isExecutorAlreadyRegister (some c)) := by
  cases jobEvent with
  | none => exact (List.append_nil _).symm
  | some event =>
    simp only [doDispatch, DispatcherCall.enters]
    cases named : executorClusterID event with
    | none => simp
    | some d =>
      dsimp only
      by_cases own : d = c
      · subst own
        by_cases registered : s.isExecutorAlreadyRegister (some d) = true
        · simp [registered, queue_add separate]
        · simp [registered]
      · have other : (some d == some c) = false := by simpa using own
        rw [other, Bool.and_false, if_neg Bool.false_ne_true, List.append_nil]
        split
        · exact queue_add_of_ne separate (Ne.symm own)
        · rfl

theorem doDispatch_separate (separate : s.Separate out) (jobEvent : Option E) :
    (s.doDispatch executorClusterID jobEvent).Separate out := by
  unfold doDispatch
  split
  · exact separate
  · split
    · exact separate
    · split
      · exact separate.add
      · exact separate

theorem doDispatch_registered (jobEvent : Option E) (clusterID : Option String) :
    (s.doDispatch executorClusterID jobEvent).isExecutorAlreadyRegister clusterID =
      s.isExecutorAlreadyRegister clusterID := by
  unfold doDispatch
  split
  · rfl
  · split
    · rfl
    · split
      · exact isExecutorAlreadyRegister_add clusterID
      · rfl

/-- One call keeps the references apart, and what it releases and leaves in a queue is what
was in the queue and what enters it. -/
theorem Step.conserves {call : DispatcherCall E} (separate : s.Separate out)
    (step : Step executorClusterID out s call out' t) : t.Separate out' ∧ ∀ c,
      call.released c ++ t.queue c =
        s.queue c ++ call.enters executorClusterID c (s.isExecutorAlreadyRegister (some c)) ∧
      t.isExecutorAlreadyRegister (some c) = call.registers c (s.isExecutorAlreadyRegister (some c)) := by
  cases step with
  | dispatches =>
    exact ⟨doDispatch_separate separate _, fun c => ⟨doDispatch_conserves separate _ c, doDispatch_registered _ _⟩⟩
  | gets given =>
    obtain ⟨still, balance⟩ := separate.taken given
    refine ⟨still, fun c => ⟨?_, (balance c).2⟩⟩
    simpa [DispatcherCall.released, DispatcherCall.enters] using (balance c).1
  | removes taken =>
    obtain ⟨still, balance⟩ := separate.taken taken
    refine ⟨still, fun c => ⟨?_, (balance c).2⟩⟩
    simpa [DispatcherCall.released, DispatcherCall.enters] using (balance c).1
  | getThrows | removeThrows =>
    exact ⟨separate, fun c => ⟨by simp [DispatcherCall.released, DispatcherCall.enters], rfl⟩⟩
  | @stores clusterID date =>
    refine ⟨separate.of_lookup (fun _ => rfl) rfl, fun c => ⟨(List.append_nil _).symm, ?_⟩⟩
    -- the registrations are no concern of the queues
    simp only [isExecutorAlreadyRegister, storeExecutorRegisterDate, DispatcherCall.registers, AList.mem_insert]
    by_cases own : some c = clusterID
    · simp [own]
    · simp [own, Ne.symm own]
  | @unregisters clusterID =>
    refine ⟨separate.of_lookup (fun _ => rfl) rfl, fun c => ⟨(List.append_nil _).symm, ?_⟩⟩
    simp only [isExecutorAlreadyRegister, removeExecutorRegisterDate, DispatcherCall.registers, AList.mem_erase]
    by_cases own : some c = clusterID
    · simp [own]
    · simp [own, Ne.symm own]
  | changes given =>
    refine ⟨separate.of_lookup (fun _ => rfl) (List.length_set ..), fun c => ⟨?_, rfl⟩⟩
    -- a list that is out is not in the map
    refine Eq.trans ?_ (List.append_nil _).symm
    refine queue_congr rfl fun reference there => ?_
    have differ : _ ≠ reference := fun same => separate.inside c reference there (same ▸ given)
    simp [list, List.getElem?_set_ne differ]

/-- The balance of one call adds up over a run. -/
theorem Run.conserves (separate : s.Separate out) (run : Run executorClusterID out s calls u) (c : String) :
    calls.flatMap (DispatcherCall.released c) ++ u.queue c =
      s.queue c ++ DispatcherCall.dispatched executorClusterID c (s.isExecutorAlreadyRegister (some c)) calls := by
  induction run with
  | nil => simp [DispatcherCall.dispatched]
  | cons first _ ih =>
    obtain ⟨still, balance⟩ := first.conserves separate
    obtain ⟨one, flag⟩ := balance c
    rw [List.flatMap_cons, List.append_assoc, ih still, ← List.append_assoc, one, List.append_assoc, flag]
    rfl

/-- What has left for a cluster and then its queue is what was dispatched for it while it was
registered. -/
theorem conserves_dispatched {registrations : AList (fun _ : Option String => Option String)}
    (run : Run executorClusterID [] { executorRegisterDateMap := registrations } calls u) (c : String) :
    calls.flatMap (DispatcherCall.released c) ++ u.queue c =
      DispatcherCall.dispatched executorClusterID c (decide (some c ∈ registrations)) calls := by
  have fresh : ({ executorRegisterDateMap := registrations } : Dispatcher E).Separate [] := by
    constructor <;> intros <;> simp_all
  exact (run.conserves fresh c).trans (List.nil_append _)

/-- The first event comes before the registration, the second is handed out, the third is
discarded, and the fourth waits. -/
def fourEvents : List (DispatcherCall Nat) :=
  [.doDispatch (some 1), .storeExecutorRegisterDate (some "c") none, .doDispatch (some 2),
    .getJobEventsByExecutorClusterID (some "c") (some [2]), .doDispatch (some 3), .setList 0 [],
    .removeJobEventsByExecutorClusterID (some "c") (some [3]), .doDispatch (some 4)]

theorem conserves_dispatched_fourEvents :
    ∃ u : Dispatcher Nat, u.queue "c" = [4] ∧
      fourEvents.flatMap (DispatcherCall.released "c") ++ u.queue "c" = [2, 3, 4] := by
  have run : ∃ u, Run (fun _ => some "c") [] ({} : Dispatcher Nat) fourEvents u ∧ u.queue "c" = [4] := by
    apply Exists.intro
    constructor
    · apply Run.cons .dispatches
      apply Run.cons .stores
      apply Run.cons .dispatches
      apply Run.cons (@Step.gets _ _ [] _ (some "c") (some 0) _ rfl)
      apply Run.cons .dispatches
      apply Run.cons (.changes (List.mem_singleton_self 0))
      apply Run.cons (@Step.removes _ _ [0] _ (some "c") (some 1) _ rfl)
      exact .cons .dispatches .nil
    · rfl
  obtain ⟨u, ran, waits⟩ := run
  exact ⟨u, waits, conserves_dispatched ran "c"⟩

end Dispatcher

end Hella
