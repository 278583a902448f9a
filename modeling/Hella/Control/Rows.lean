import Hella.Control.Footprint

/-!
# Rows that are left alone

When control moves on from a node, rows are added for the nodes it reaches and those
rows are written again. Of the rows that were there before, only running ones are
written, and only by a fail node, which turns them into failed ones.
-/
namespace Hella

open Exec Text

/-- The row as `FailNodeHandler.exit` leaves one that was running. -/
structure AutoFailed (row after : XjobState) : Prop where
  running : row.jobPlanNodeState.isRunningState = true
  id : after.id = row.id
  jobPlanNodeID : after.jobPlanNodeID = row.jobPlanNodeID
  currentExecutorKey : after.currentExecutorKey = row.currentExecutorKey
  jobPlanNodeState : after.jobPlanNodeState = .resultError
  runInfo : after.runInfo =
    some ("由[" ++ row.jobPlanNodeState.getStateName ++ "]自动转为[失败]" ++ orNull row.runInfo)
  executeTimes : after.executeTimes = row.executeTimes
  finishedPercent : after.finishedPercent = row.finishedPercent

def Overtaken (row after : XjobState) : Prop := after = row ∨ AutoFailed row after

theorem Overtaken.id {row after : XjobState} (overtaken : Overtaken row after) : after.id = row.id := by
  rcases overtaken with rfl | failed
  · rfl
  · exact failed.id

namespace Store

variable {s₀ s t : Store} {x row : XjobState}

/-- Sound, and no row has the id of an object that was not saved. -/
structure Numbered (s : Store) : Prop extends Sound s where
  positive : ∀ row ∈ s.xjobStates, row.id ≠ 0

theorem Numbered.insert (numbered : s.Numbered) (x : XjobState) : (s.insertXjobState x).Numbered where
  toSound := numbered.toSound.insert x
  positive row member := by
    obtain old | rfl := by simpa [insertXjobState] using member
    · exact numbered.positive row old
    · exact Nat.succ_ne_zero _

theorem Numbered.update (numbered : s.Numbered) (x : XjobState) : (s.updateXjobState x).Numbered where
  toSound := numbered.toSound.update x
  positive row member := by
    obtain ⟨old, inside, rfl⟩ := List.mem_map.mp member
    have real := numbered.positive old inside
    split <;> exact real

/-- An id that belongs to none of the rows. -/
def Beyond (s : Store) (id : Nat) : Prop := id = 0 ∨ s.lastXjobStateID < id

/-- The rows of the first store are in the second, left alone or failed, and the other
rows are newer. -/
structure Onward (s₀ s : Store) : Prop where
  last : s₀.lastXjobStateID ≤ s.lastXjobStateID
  rows : ∃ f new, s.xjobStates = s₀.xjobStates.map f ++ new ∧ (∀ row ∈ s₀.xjobStates, Overtaken row (f row)) ∧
    ∀ row ∈ new, s₀.lastXjobStateID < row.id

namespace Onward

theorem refl (s : Store) : Onward s s := ⟨le_rfl, id, [], by simp, fun _ _ => .inl rfl, by simp⟩

theorem of_same (onward : Onward s₀ s) (rows : t.xjobStates = s.xjobStates)
    (last : t.lastXjobStateID = s.lastXjobStateID) : Onward s₀ t :=
  ⟨last ▸ onward.last, rows ▸ onward.rows⟩

theorem insert (onward : Onward s₀ s) (x : XjobState) : Onward s₀ (s.insertXjobState x) := by
  obtain ⟨last, f, new, rows, overtaken, newer⟩ := onward
  refine ⟨last.trans (Nat.le_succ _), f, new ++ [{ x with id := s.lastXjobStateID + 1 }], ?_, overtaken, ?_⟩
  · simp [insertXjobState, rows]
  · intro row member
    obtain old | rfl := by simpa using member
    · exact newer row old
    · exact Nat.lt_succ_of_le last

/-- A write to one of the rows, if it fits the row it hits. -/
theorem update (onward : Onward s₀ s)
    (fits : ∀ row ∈ s₀.xjobStates, ∀ now, Overtaken row now → now.id = x.id →
      Overtaken row (XjobState.overwrite now x)) :
    Onward s₀ (s.updateXjobState x) := by
  obtain ⟨last, f, new, rows, overtaken, newer⟩ := onward
  -- the write maps over both parts of the table and changes no id
  let write (row : XjobState) := if row.id = x.id then XjobState.overwrite row x else row
  refine ⟨last, write ∘ f, new.map write, ?_, fun row member => ?_, fun row member => ?_⟩
  · simp only [updateXjobState, rows, List.map_append, List.map_map, write]
  · simp only [Function.comp, write]
    split
    next hit => exact fits row member (f row) (overtaken row member) hit
    · exact overtaken row member
  · obtain ⟨old, inside, rfl⟩ := List.mem_map.mp member
    have := newer old inside
    simp only [write]
    split <;> exact this

/-- A row that was added is written, or none. -/
theorem update_beyond (onward : Onward s₀ s) (numbered : s₀.Numbered) (beyond : s₀.Beyond x.id) :
    Onward s₀ (s.updateXjobState x) := by
  refine onward.update fun row member now overtaken hit => ?_
  have known := numbered.known row member
  have real := numbered.positive row member
  have same := overtaken.id
  rcases beyond with unsaved | newer <;> omega

/-- A running row that was read from the table: an old one or a newer one. -/
theorem known_of_running (onward : Onward s₀ s) (member : x ∈ s.xjobStates)
    (running : x.jobPlanNodeState.isRunningState = true) : x ∈ s₀.xjobStates ∨ s₀.lastXjobStateID < x.id := by
  obtain ⟨-, f, new, rows, overtaken, newer⟩ := onward
  rw [rows] at member
  -- a failed row is not running, so a running one is untouched or new
  obtain old | added := List.mem_append.mp member
  · obtain ⟨row, inside, rfl⟩ := List.mem_map.mp old
    obtain same | failed := overtaken row inside
    · exact .inl (by rwa [same])
    · rw [failed.jobPlanNodeState] at running
      cases running
  · exact .inr (newer x added)

theorem fail (onward : Onward s₀ s) (numbered : s₀.Numbered) (known : x ∈ s₀.xjobStates ∨ s₀.lastXjobStateID < x.id)
    (running : x.jobPlanNodeState.isRunningState = true) (runTime : Option String) :
    Onward s₀ (s.updateXjobState { x with
      runInfo := some ("由[" ++ x.jobPlanNodeState.getStateName ++ "]自动转为[失败]" ++ orNull x.runInfo)
      runTime := runTime
      jobPlanNodeState := .resultError }) := by
  obtain old | newer := known
  -- an old row that was running: whatever became of it since, it is failed now
  · refine onward.update fun row member now overtaken hit => .inr ?_
    obtain rfl := numbered.eq_of_id member old (overtaken.id.symm.trans hit)
    have keeps : now.jobPlanNodeID = row.jobPlanNodeID ∧ now.currentExecutorKey = row.currentExecutorKey := by
      rcases overtaken with rfl | failed
      · exact ⟨rfl, rfl⟩
      · exact ⟨failed.jobPlanNodeID, failed.currentExecutorKey⟩
    exact ⟨running, hit, keeps.1, keeps.2, rfl, rfl, rfl, rfl⟩
  · exact onward.update_beyond numbered (.inr newer)

end Onward

end Store

/-! ### Code that moves on -/

/-- The run has moved on from the first store. -/
def Ahead (s₀ : Store) (s : Run) : Prop := s₀.Onward s.store

/-- A run writes rows that were added, and running ones it turns into failed ones. -/
theorem footprint_onward {s₀ : Store} (env : Env) (wf : Workflow) (numbered : s₀.Numbered) :
    Footprint env wf s₀.Onward s₀.Beyond (fun x => x ∈ s₀.xjobStates ∨ s₀.lastXjobStateID < x.id) fun _ => True where
  unsaved := .inl rfl
  leads _ _ _ _ _ _ _ := trivial
  asks _ onward := onward.of_same rfl rfl
  inserts _ x onward _ := ⟨onward.insert x, .inr (Nat.lt_succ_of_le onward.last)⟩
  updates _ _ onward beyond := onward.update_beyond numbered beyond
  reads _ _ onward member running := onward.known_of_running (List.mem_of_mem_filter member) running
  fails _ _ runTime onward known running := onward.fail numbered known running runTime
  marks _ _ _ _ onward := onward.of_same rfl rfl
  dispatches _ _ _ _ onward := onward.of_same rfl rfl
  produces _ _ _ onward _ _ _ _ := onward.of_same rfl rfl
  ends _ onward := onward.of_same rfl rfl

end Hella
