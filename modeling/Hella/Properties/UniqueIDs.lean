import Hella.Engine.UniqueIDs
import Hella.Lib.Numerals

/-!
# IDs that come again

`generateID` compares the clock with the last ID alone, so a clock that goes back can bring
an older ID once more. And a run key is the ID with the plan's id right behind it: with an
ID of more digits two runs can have one key although their IDs differ. Every ID, event and
key is unique, in any run, exactly if the clock does neither.
-/
namespace Hella

open Exec Runs Stutter Text

namespace IDs

/-- No reading comes again after another one, once the clock has changed for the first time. -/
def Advances (first : Int) (readings : List Int) : Prop :=
  ∀ a b, [a, b, a].Sublist (fromChange first readings) → a = b

/-- The numeral of the second is that of the first with a number behind it, which is small
enough for a plan id to begin with it and to go on. -/
def Extends (a b : Int) : Prop := ∃ v : Nat, 0 < v ∧ 10 * v < 2 ^ 31 ∧ toString b = toString a ++ toString v

def Apart (first : Int) (readings : List Int) : Prop :=
  ∀ a ∈ fromChange first readings, ∀ b ∈ fromChange first readings, ¬ Extends a b

variable {idPrefix : String} {first : Int} {readings : List Int} {w t : IDs} {id : Int} {rest : List Int}

/-! ### A clock that advances -/

structure Tidy (idPrefix : String) (first : Int) (readings : List Int) (w : IDs) : Prop where
  issued : w.ids ++ changes w.lastID w.readings = changes first readings
  events : ∃ drawn : List Int, drawn.Sublist w.ids ∧ w.events.map (·.eventID) = drawn.map (eventID idPrefix)
  infos : ∀ entry ∈ w.liveEvents, (∃ id ∈ w.ids, entry.1 = eventID idPrefix id) ∧
    w.store.jobNodeRuningInfosMap.lookup entry.1 = some entry.2
  workflows : (w.workflows.map Prod.fst).Sublist w.ids
  plans : ∀ entry ∈ w.workflows, entry.2 < 2 ^ 31
  runs : ∀ entry ∈ w.liveRuns,
    (∃ id plan, w.workflows[entry.2]? = some (id, plan) ∧ entry.1 = workflowKey id plan) ∧
      w.store.workflowsMap.lookup entry.1 = some entry.2

theorem eventID_injective {a b : Int} (same : eventID idPrefix a = eventID idPrefix b) : a = b := by
  apply toString_int_inj
  have chars := congrArg String.toList same
  simpa [eventID] using chars

namespace Tidy

theorem nodup (tidy : Tidy idPrefix first readings w) (advances : Advances first readings) : w.ids.Nodup := by
  have all := nodup_changes_iff.mpr advances
  rw [← tidy.issued] at all
  exact all.of_append_left

theorem unique (tidy : Tidy idPrefix first readings w) (advances : Advances first readings) : w.Unique := by
  have nodup := tidy.nodup advances
  constructor
  · exact nodup
  · obtain ⟨drawn, inside, same⟩ := tidy.events
    rw [same]
    exact (nodup.sublist inside).map fun _ _ => eventID_injective
  · exact fun entry member => (tidy.infos entry member).2
  · exact fun entry member => (tidy.runs entry member).2

theorem initially (initial : Initial first readings w) : Tidy idPrefix first readings w := by
  obtain ⟨⟨rfl, rfl⟩, ids, -, ⟨events, liveEvents⟩, workflows, liveRuns⟩ := initial
  constructor
  · rw [ids, List.nil_append]
  · exact ⟨[], List.nil_sublist _, by rw [events]; rfl⟩
  · simp [liveEvents]
  · simp [workflows]
  · simp [workflows]
  · simp [liveRuns]

/-- The next ID is a new one. -/
theorem draw (tidy : Tidy idPrefix first readings w)
    (drawn : UniqueIDGenerator.generateID w.lastID w.readings = some (id, rest)) :
    Tidy idPrefix first readings (w.draw id rest) := by
  constructor
  · have issued := tidy.issued
    rw [UniqueIDGenerator.generateID_changes drawn] at issued
    simpa [IDs.draw] using issued
  · obtain ⟨some_, inside, same⟩ := tidy.events
    exact ⟨some_, inside.trans (List.sublist_append_left ..), same⟩
  · intro entry member
    obtain ⟨⟨own, old, named⟩, found⟩ := tidy.infos entry member
    exact ⟨⟨own, List.mem_append_left _ old, named⟩, found⟩
  · exact tidy.workflows.trans (List.sublist_append_left ..)
  · exact tidy.plans
  · exact tidy.runs

theorem fresh (tidy : Tidy idPrefix first readings (w.draw id rest))
    (advances : Advances first readings) : id ∉ w.ids := by
  have nodup := tidy.nodup advances
  simp only [IDs.draw, List.nodup_append, List.mem_singleton] at nodup
  exact fun old => nodup.2.2 id old id rfl rfl

/-- Runs with different IDs have different keys. -/
theorem key_inj (tidy : Tidy idPrefix first readings w) (advances : Advances first readings)
    (apart : Apart first readings)
    {m n : Nat} {a b : Int} {p q : Nat} (one : w.workflows[m]? = some (a, p)) (two : w.workflows[n]? = some (b, q))
    (same : workflowKey a p = workflowKey b q) : m = n := by
  have listed {k : Nat} {c : Int} {r : Nat} (there : w.workflows[k]? = some (c, r)) :
    (w.workflows.map Prod.fst)[k]? = some c := by
    rw [List.getElem?_map, there]
    rfl
  have reading {k : Nat} {c : Int} {r : Nat} (there : w.workflows[k]? = some (c, r)) :
    c ∈ fromChange first readings := by
    apply mem_changes_iff.mp
    rw [← tidy.issued]
    exact List.mem_append_left _ (tidy.workflows.subset (List.mem_of_getElem? (listed there)))
  have equal : a = b := by
    by_contra differ
    have small := tidy.plans _ (List.mem_of_getElem? one)
    have small' := tidy.plans _ (List.mem_of_getElem? two)
    obtain ⟨v, positive, ⟨more, below⟩ | ⟨more, below⟩⟩ := overlap_of_append_eq same differ
    · exact apart a (reading one) b (reading two) ⟨v, positive, below.trans_lt small, more⟩
    · exact apart b (reading two) a (reading one) ⟨v, positive, below.trans_lt small', more⟩
  subst equal
  have nodup := (tidy.nodup advances).sublist tidy.workflows
  have bound := (List.getElem?_eq_some_iff.mp (listed one)).1
  exact (List.getElem?_inj bound nodup).mp ((listed one).trans (listed two).symm)

theorem initializes (tidy : Tidy idPrefix first readings w) {plan : Nat} (int : plan < 2 ^ 31)
    (drawn : UniqueIDGenerator.generateID w.lastID w.readings = some (id, rest)) :
    Tidy idPrefix first readings { w.draw id rest with workflows := w.workflows ++ [(id, plan)] } := by
  have next := tidy.draw drawn
  refine ⟨next.issued, next.events, next.infos, ?_, fun entry member => ?_, ?_⟩
  · rw [List.map_append]
    exact tidy.workflows.append (List.Sublist.refl [id])
  · rcases List.mem_append.mp member with old | new
    · exact tidy.plans entry old
    · rw [List.mem_singleton.mp new]
      exact int
  · intro entry member
    obtain ⟨⟨own, plan', there, named⟩, found⟩ := tidy.runs entry member
    refine ⟨⟨own, plan', ?_, named⟩, found⟩
    rw [List.getElem?_append_left (List.getElem?_eq_some_iff.mp there).1]
    exact there

theorem adds (tidy : Tidy idPrefix first readings w) (advances : Advances first readings) (apart : Apart first readings)
    {n plan : Nat} (there : w.workflows[n]? = some (id, plan)) :
    Tidy idPrefix first readings
      { w with
        store := after (Store.addWorkflow (workflowKey id plan) n w.store)
        liveRuns := w.liveRuns ++ [(workflowKey id plan, n)] } := by
  refine ⟨tidy.issued, tidy.events, tidy.infos, tidy.workflows, tidy.plans, fun entry member => ?_⟩
  rcases List.mem_append.mp member with old | new
  · obtain ⟨⟨own, plan', place, named⟩, found⟩ := tidy.runs entry old
    refine ⟨⟨own, plan', place, named⟩, ?_⟩
    by_cases same : entry.1 = workflowKey id plan
    · -- the run is added once more, under the same key
      have index := tidy.key_inj advances apart place there (named.symm.trans same)
      rw [same, index]
      exact AList.lookup_insert _
    · exact (AList.lookup_insert_ne same).trans found
  · rw [List.mem_singleton.mp new]
    exact ⟨⟨id, plan, there, rfl⟩, AList.lookup_insert _⟩

theorem removes (tidy : Tidy idPrefix first readings w) (key : String) :
    Tidy idPrefix first readings
      { w with
        store := after (Store.removeWorkflow key w.store)
        liveRuns := w.liveRuns.filter fun entry => entry.1 ≠ key } := by
  refine ⟨tidy.issued, tidy.events, tidy.infos, tidy.workflows, tidy.plans, fun entry member => ?_⟩
  obtain ⟨old, other⟩ := List.mem_filter.mp member
  obtain ⟨named, found⟩ := tidy.runs entry old
  exact ⟨named, (AList.lookup_erase_ne (by simpa using other)).trans found⟩

theorem executes (tidy : Tidy idPrefix first readings w) (advances : Advances first readings)
    (drawn : UniqueIDGenerator.generateID w.lastID w.readings = some (id, rest)) {event : JobEvent}
    (named : event.eventID = eventID idPrefix id) (info : JobNodeRuningInfo) :
    Tidy idPrefix first readings
      { w.draw id rest with
        store := w.store.dispatch event info
        events := w.events ++ [event]
        liveEvents := w.liveEvents ++ [(event.eventID, info)] } := by
  have next := tidy.draw drawn
  have fresh := next.fresh advances
  refine ⟨next.issued, ?_, fun entry member => ?_, next.workflows, next.plans, next.runs⟩
  -- the new event is the last of those issued
  · obtain ⟨some_, inside, same⟩ := tidy.events
    refine ⟨some_ ++ [id], inside.append (List.Sublist.refl [id]), ?_⟩
    rw [List.map_append, List.map_append, same, List.map_singleton, named]
    rfl
  · rcases List.mem_append.mp member with old | new
    · obtain ⟨⟨own, before, name⟩, found⟩ := tidy.infos entry old
      refine ⟨⟨own, List.mem_append_left _ before, name⟩, ?_⟩
      -- its id is new, so it hides none of the entries before
      have other : entry.1 ≠ event.eventID := by
        intro same
        have again := eventID_injective ((name.symm.trans same).trans named)
        exact fresh (again ▸ before)
      exact (AList.lookup_insert_ne other).trans found
    · rw [List.mem_singleton.mp new]
      exact ⟨⟨id, List.mem_append_right _ (List.mem_singleton_self id), named⟩, AList.lookup_insert _⟩

theorem forgets (tidy : Tidy idPrefix first readings w) (eventID_ : String) :
    Tidy idPrefix first readings
      { w with
        store := after (Store.removeJobNodeRuningInfo eventID_ w.store)
        liveEvents := w.liveEvents.filter fun entry => entry.1 ≠ eventID_ } := by
  refine ⟨tidy.issued, tidy.events, fun entry member => ?_, tidy.workflows, tidy.plans, tidy.runs⟩
  obtain ⟨old, other⟩ := List.mem_filter.mp member
  obtain ⟨named, found⟩ := tidy.infos entry old
  exact ⟨named, (AList.lookup_erase_ne (by simpa using other)).trans found⟩

theorem step {action : Action} (tidy : Tidy idPrefix first readings w) (advances : Advances first readings)
    (apart : Apart first readings) (step : Step idPrefix w action t) : Tidy idPrefix first readings t := by
  cases step with
  | draws drawn => exact tidy.draw drawn
  | throws drawn without => exact tidy.draw drawn
  | initializes drawn int => exact tidy.initializes int.2 drawn
  | adds there => exact tidy.adds advances apart there
  | removes => exact tidy.removes _
  | executes drawn given built =>
    rw [built]
    exact tidy.executes advances drawn rfl _
  | forgets => exact tidy.forgets _
  | elsewhere runs infos =>
    refine ⟨tidy.issued, tidy.events, fun entry member => ?_, tidy.workflows, tidy.plans, fun entry member => ?_⟩
    · rw [infos]
      exact tidy.infos entry member
    · rw [runs]
      exact tidy.runs entry member

end Tidy

/-! ### A clock that does not -/

/-- Every call is for a new instance of a workflow, until the readings are used up. -/
theorem drained (idPrefix : String) (plan : Int → Nat) (int : ∀ id, 0 < plan id ∧ plan id < 2 ^ 31) (w : IDs)
    (reachable : Reachable (system idPrefix first readings) (fun _ _ => True) w) :
    ∃ t, Reachable (system idPrefix first readings) (fun _ _ => True) t ∧
      t.ids = w.ids ++ changes w.lastID w.readings ∧
      t.workflows = w.workflows ++ (changes w.lastID w.readings).map (fun id => (id, plan id)) ∧
      t.store = w.store := by
  generalize left_ : changes w.lastID w.readings = ids
  induction ids generalizing w with
  | nil => exact ⟨w, reachable, by simp, by simp, rfl⟩
  | cons id ids ih =>
    obtain ⟨rest, drawn⟩ := UniqueIDGenerator.generateID_isSome left_
    have next := UniqueIDGenerator.generateID_changes drawn
    rw [left_] at next
    obtain ⟨t, there, issued, workflows, store⟩ :=
      ih { w.draw id rest with workflows := w.workflows ++ [(id, plan id)] }
        (.next reachable trivial (.initializes drawn (int id))) (List.cons.inj next).2.symm
    refine ⟨t, there, ?_, ?_, store⟩
    · rw [issued]
      simp [draw]
    · rw [workflows]
      simp

theorem started (idPrefix : String) (first : Int) (readings : List Int) :
    Reachable (system idPrefix first readings) (fun _ _ => True)
      { lastID := first, readings := readings, store := {} } :=
  .start ⟨⟨rfl, rfl⟩, rfl, ⟨rfl, rfl⟩, ⟨rfl, rfl⟩, rfl, rfl⟩

/-- Two instances with one key: the one added last is found under it. -/
theorem not_unique_of_key (reachable : Reachable (system idPrefix first readings) (fun _ _ => True) w)
    {m n : Nat} {a b : Int}
    {p q : Nat} (one : w.workflows[m]? = some (a, p)) (two : w.workflows[n]? = some (b, q)) (differ : m ≠ n)
    (same : workflowKey a p = workflowKey b q) :
    ∃ t, Reachable (system idPrefix first readings) (fun _ _ => True) t ∧ ¬ t.Unique := by
  have added := reachable.next trivial (.adds one)
  have both := added.next trivial (.adds two)
  refine ⟨_, both, fun unique => ?_⟩
  have found := unique.runs (workflowKey a p, m) (by simp)
  dsimp only at found
  rw [same] at found
  exact differ (Option.some.inj (found.symm.trans (AList.lookup_insert _)))

/-- In every run every ID, event and key is unique exactly if the clock never comes back to a
value that it has left, and the numeral of no reading is that of another one and a number. -/
theorem unique_iff (idPrefix : String) (first : Int) (readings : List Int) :
    (∀ w, Reachable (system idPrefix first readings) (fun _ _ => True) w → w.Unique) ↔
      Advances first readings ∧ Apart first readings := by
  constructor
  · intro unique
    constructor
    · obtain ⟨t, reachable, ids, -⟩ :=
        drained idPrefix (fun _ => 1) (fun _ => by decide) _ (started idPrefix first readings)
      have nodup := (unique t reachable).ids
      rw [ids, List.nil_append] at nodup
      exact nodup_changes_iff.mp nodup
    · rintro a inA b inB ⟨v, positive, below, more⟩
      have differ : a ≠ b := by
        rintro rfl
        have sizes := congrArg List.length (congrArg String.toList more)
        have some_ := List.length_pos_of_ne_nil (toString_toList_ne_nil v)
        rw [String.toList_append, List.length_append] at sizes
        omega
      -- the plan id of the first run takes over the rest of the second ID and its plan id, which is one
      let plan (id : Int) : Nat := if id = a then 10 * v + 1 else 1
      have int (id : Int) : 0 < plan id ∧ plan id < 2 ^ 31 := by
        dsimp only [plan]
        split <;> omega
      have same : workflowKey a (plan a) = workflowKey b (plan b) := by
        dsimp only [plan]
        rw [if_pos rfl, if_neg (Ne.symm differ), workflowKey, workflowKey, more, String.append_assoc,
          append_digit positive (by decide)]
      obtain ⟨t, reachable, -, workflows, -⟩ := drained idPrefix plan int _ (started idPrefix first readings)
      obtain ⟨m, atM⟩ := List.mem_iff_getElem?.mp (mem_changes_iff.mpr inA)
      obtain ⟨n, atN⟩ := List.mem_iff_getElem?.mp (mem_changes_iff.mpr inB)
      have place {k : Nat} {id : Int} (there : (changes first readings)[k]? = some id) :
          t.workflows[k]? = some (id, plan id) := by
        rw [workflows, List.nil_append, List.getElem?_map, there]
        rfl
      have indexes : m ≠ n := by
        rintro rfl
        exact differ (Option.some.inj (atM.symm.trans atN))
      obtain ⟨u, there, overwritten⟩ := not_unique_of_key reachable (place atM) (place atN) indexes same
      exact overwritten (unique u there)
  · rintro ⟨advances, apart⟩ w reachable
    have tidy : Tidy idPrefix first readings w :=
      reachable.invariant (I := Tidy idPrefix first readings) (fun _ => Tidy.initially)
        fun _ _ _ tidy _ step => tidy.step advances apart step
    exact tidy.unique advances

/-- The clock is set back by one millisecond and comes to the same time again. -/
theorem not_unique_back :
    ¬ ∀ w, Reachable (system "127001" 1390000000000 [1390000000001, 1390000000000, 1390000000001]) (fun _ _ => True) w →
      w.Unique := by
  intro unique
  obtain ⟨t, reachable, ids, -⟩ := drained "127001" (fun _ => 1) (fun _ => by decide) _
    (started "127001" 1390000000000 [1390000000001, 1390000000000, 1390000000001])
  have nodup := (unique t reachable).ids
  rw [ids] at nodup
  exact absurd nodup (by decide)

end IDs

end Hella
