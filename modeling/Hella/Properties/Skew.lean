import Hella.Protocol.Calls

/-!
# Heartbeat decisions and the engine's clock

`doRegister` ignores the executor's timestamp and stores its own clock reading, which
the next heartbeat, stamped by the executor, is compared with. Two runs of one executor
on servers whose clocks differ by a constant are compared call by call, with the
differences of stamps as `long`s have them.
-/
namespace Hella

open Exec

/-- A call of one executor. The engine's clock is read during a registration. -/
inductive ExecutorCall where
  | doRegister (registerTimestamp : Int) (currentTimeMillis : Int)
  | sendHeartbeat (progressList : List JobProgress) (lastSeen : Int)

/-- The same call when the engine's clock is ahead. -/
def ExecutorCall.shift (skew : Int) : ExecutorCall → ExecutorCall
  | doRegister registerTimestamp currentTimeMillis => .doRegister registerTimestamp (currentTimeMillis + skew)
  | sendHeartbeat progressList lastSeen => .sendHeartbeat progressList lastSeen

inductive Answer where
  | registered
  | refused
  | heartbeat (status : ExecutorStatus)
  deriving DecidableEq, Repr

/-- A heartbeat whose reports end in an error of the virtual machine has been accepted. -/
def decided : EStateM.Result Throwable EngineNode HeartbeatResponse → ExecutorStatus
  | .ok answer _ => answer.executorStatus
  | .error _ _ => .normal

/-- The last timestamp of the executor that the server accepted. -/
structure Sight where
  timestamp : Int
  /-- it came with a registration -/
  registration : Bool

/-- Two timestamps are more than the longest timeout apart. -/
def Apart (heartbeatMaxTimeout a b : Int) : Prop := a - b > heartbeatMaxTimeout ∨ b - a > heartbeatMaxTimeout

/-- What counts as late is at least as far apart, even where the difference wraps. -/
theorem apart_of_elapsed {heartbeatMaxTimeout lastSeen latest : Int}
    (late : elapsed lastSeen latest > heartbeatMaxTimeout) : Apart heartbeatMaxTimeout lastSeen latest := by
  unfold elapsed at late
  rw [Int.bmod_def] at late
  unfold Apart
  split at late <;> omega

namespace ExecutorCall

section Runs

variable (env : Env) (heartbeatMaxTimeout : Int) (clusterID : String)

def answer : ExecutorCall → EngineNode → Answer
  | doRegister _ now, s =>
    match EngineNode.doRegister clusterID now s with
    | .ok (some ()) _ => .registered
    | _ => .refused
  | sendHeartbeat progressList lastSeen, s =>
    .heartbeat (decided (EngineNode.sendHeartbeat env heartbeatMaxTimeout clusterID progressList lastSeen s))

def next : ExecutorCall → EngineNode → EngineNode
  | doRegister _ now, s => after (EngineNode.doRegister clusterID now s)
  | sendHeartbeat progressList lastSeen, s =>
    after (EngineNode.sendHeartbeat env heartbeatMaxTimeout clusterID progressList lastSeen s)

/-- The last accepted timestamp after a call. -/
def sight : ExecutorCall → Answer → Option Sight → Option Sight
  | doRegister registerTimestamp _, .registered, _ => some ⟨registerTimestamp, true⟩
  | sendHeartbeat _ lastSeen, .heartbeat .normal, _ => some ⟨lastSeen, false⟩
  | _, _, seen => seen

/-- The answers to the calls of a run. -/
def answers : List ExecutorCall → EngineNode → List Answer
  | [], _ => []
  | call :: calls, s =>
    call.answer env heartbeatMaxTimeout clusterID s :: answers calls (call.next env heartbeatMaxTimeout clusterID s)

/-- A timeout is answered only to a heartbeat that is too far from the last accepted
timestamp of the executor. -/
def Due : ExecutorCall → Answer → Option Sight → Prop
  | sendHeartbeat _ lastSeen, .heartbeat .heartbeatTimeout, seen =>
    ∃ last, seen = some last ∧ Apart heartbeatMaxTimeout lastSeen last.timestamp
  | _, _, _ => True

def AllDue : List ExecutorCall → EngineNode → Option Sight → Prop
  | [], _, _ => True
  | call :: calls, s, seen =>
    let reply := call.answer env heartbeatMaxTimeout clusterID s
    call.Due heartbeatMaxTimeout reply seen ∧
      AllDue calls (call.next env heartbeatMaxTimeout clusterID s) (call.sight reply seen)

/-- A heartbeat that follows a registration, and so is compared with the engine's clock,
is in time on both clocks or late on both, and then it is also too far from the executor's
own registration timestamp. -/
def Agreed (skew : Int) (s : EngineNode) (seen : Option Sight) : ExecutorCall → Prop
  | doRegister _ _ => True
  | sendHeartbeat _ lastSeen =>
    ∀ registerTimestamp stored, seen = some ⟨registerTimestamp, true⟩ → s.access? clusterID = some stored →
      (elapsed lastSeen stored > heartbeatMaxTimeout ↔ elapsed lastSeen (stored + skew) > heartbeatMaxTimeout) ∧
        (elapsed lastSeen stored > heartbeatMaxTimeout → Apart heartbeatMaxTimeout lastSeen registerTimestamp)

def AllAgreed (skew : Int) : List ExecutorCall → EngineNode → Option Sight → Prop
  | [], _, _ => True
  | call :: calls, s, seen =>
    call.Agreed heartbeatMaxTimeout clusterID skew s seen ∧
      AllAgreed skew calls (call.next env heartbeatMaxTimeout clusterID s)
        (call.sight (call.answer env heartbeatMaxTimeout clusterID s) seen)

end Runs

/-- The decisions of two servers, the second with its clock ahead, are the same, and both
answer only the timeouts that are due. -/
def SkewFree (env env' : Env) (heartbeatMaxTimeout : Int) (clusterID : String) (skew : Int)
    (calls : List ExecutorCall) (s s' : EngineNode) (seen : Option Sight) : Prop :=
  answers env heartbeatMaxTimeout clusterID calls s =
      answers env' heartbeatMaxTimeout clusterID (calls.map (shift skew)) s' ∧
    AllDue env heartbeatMaxTimeout clusterID calls s seen ∧
      AllDue env' heartbeatMaxTimeout clusterID (calls.map (shift skew)) s' seen

/-- What the two servers have of the cluster. -/
structure Skewed (clusterID : String) (skew : Int) (s s' : EngineNode) (seen : Option Sight) : Prop where
  registered : s.Registered clusterID ↔ s'.Registered clusterID
  access : match seen with
    | none => s.access? clusterID = none ∧ s'.access? clusterID = none
    | some ⟨_, true⟩ => ∃ stored, s.access? clusterID = some stored ∧ s'.access? clusterID = some (stored + skew)
    | some ⟨lastSeen, false⟩ => s.access? clusterID = some lastSeen ∧ s'.access? clusterID = some lastSeen

variable {heartbeatMaxTimeout skew stored lastSeen : Int} {clusterID : String} {s s' : EngineNode} {seen : Option Sight}

/-! ### One heartbeat -/

section Heartbeat

variable (env : Env) (reports : List JobProgress)

theorem heartbeat_unregister (heartbeatMaxTimeout lastSeen : Int) (unknown : s.access? clusterID = none) :
    (sendHeartbeat reports lastSeen).answer env heartbeatMaxTimeout clusterID s = .heartbeat .unregister ∧
      (sendHeartbeat reports lastSeen).next env heartbeatMaxTimeout clusterID s = s := by
  simp only [answer, next, EngineNode.sendHeartbeat_unregister unknown, decided, after_ok, and_self]

theorem heartbeat_timeout (found : s.access? clusterID = some stored)
    (late : elapsed lastSeen stored > heartbeatMaxTimeout) :
    (sendHeartbeat reports lastSeen).answer env heartbeatMaxTimeout clusterID s = .heartbeat .heartbeatTimeout ∧
      (sendHeartbeat reports lastSeen).next env heartbeatMaxTimeout clusterID s = s.unregistered clusterID := by
  simp only [answer, next, EngineNode.sendHeartbeat_timeout found late, decided, after_ok, and_self]

/-- An accepted heartbeat replaces the access time and keeps the registration. -/
theorem heartbeat_normal (found : s.access? clusterID = some stored)
    (inTime : elapsed lastSeen stored ≤ heartbeatMaxTimeout) :
    (sendHeartbeat reports lastSeen).answer env heartbeatMaxTimeout clusterID s = .heartbeat .normal ∧
      ((sendHeartbeat reports lastSeen).next env heartbeatMaxTimeout clusterID s).access? clusterID = some lastSeen ∧
      (((sendHeartbeat reports lastSeen).next env heartbeatMaxTimeout clusterID s).Registered clusterID ↔
        s.Registered clusterID) := by
  have registers := EngineNode.processJobProgress_registers env clusterID reports s.engine
  simp only [answer, next, EngineNode.sendHeartbeat_normal found inTime]
  cases handled : Engine.processJobProgress env clusterID reports s.engine with
  | ok _ e =>
    rw [handled] at registers
    refine ⟨rfl, EngineNode.access?_accessed lastSeen, ?_⟩
    exact iff_of_eq (congrArg (clusterID ∈ ·) registers)
  | error _ e =>
    rw [handled] at registers
    refine ⟨rfl, EngineNode.access?_accessed lastSeen, ?_⟩
    exact iff_of_eq (congrArg (clusterID ∈ ·) registers)

end Heartbeat

/-! ### The two servers side by side -/

section Pairs

variable (env env' : Env)

/-- Both servers decide a call in the same way, and both rightly. -/
def SameCall (heartbeatMaxTimeout : Int) (clusterID : String) (skew : Int) (s s' : EngineNode)
    (seen : Option Sight) (call : ExecutorCall) : Prop :=
  call.answer env heartbeatMaxTimeout clusterID s =
      (call.shift skew).answer env' heartbeatMaxTimeout clusterID s' ∧
    call.Due heartbeatMaxTimeout (call.answer env heartbeatMaxTimeout clusterID s) seen ∧
      (call.shift skew).Due heartbeatMaxTimeout ((call.shift skew).answer env' heartbeatMaxTimeout clusterID s') seen

/-- The servers stay in step. -/
def StillSkewed (heartbeatMaxTimeout : Int) (clusterID : String) (skew : Int) (s s' : EngineNode)
    (seen : Option Sight) (call : ExecutorCall) : Prop :=
  Skewed clusterID skew (call.next env heartbeatMaxTimeout clusterID s)
    ((call.shift skew).next env' heartbeatMaxTimeout clusterID s')
    (call.sight (call.answer env heartbeatMaxTimeout clusterID s) seen)

theorem doRegister_step (heartbeatMaxTimeout : Int) (skewed : Skewed clusterID skew s s' seen)
    (registerTimestamp now : Int) :
    SameCall env env' heartbeatMaxTimeout clusterID skew s s' seen (.doRegister registerTimestamp now) ∧
      StillSkewed env env' heartbeatMaxTimeout clusterID skew s s' seen (.doRegister registerTimestamp now) := by
  by_cases already : s.Registered clusterID
  · have already' := skewed.registered.mp already
    simp only [SameCall, StillSkewed, shift, answer, next, EngineNode.doRegister_refused already,
      EngineNode.doRegister_refused already', Due, sight, after_ok, and_self, true_and]
    exact skewed
  · have fresh' : ¬ s'.Registered clusterID := fun listed => already (skewed.registered.mpr listed)
    simp only [SameCall, StillSkewed, shift, answer, next, EngineNode.doRegister_accepted already,
      EngineNode.doRegister_accepted fresh', Due, sight, after_ok, and_self, true_and]
    constructor
    · exact iff_of_true ((EngineNode.registered_registered already).mpr (.inl rfl))
        ((EngineNode.registered_registered fresh').mpr (.inl rfl))
    · exact ⟨now, EngineNode.access?_accessed now, EngineNode.access?_accessed (now + skew)⟩

/-- Both heartbeats are too late. -/
theorem late_step (reports : List JobProgress) {stored' : Int} (skewed : Skewed clusterID skew s s' seen)
    (found : s.access? clusterID = some stored) (found' : s'.access? clusterID = some stored')
    (late : elapsed lastSeen stored > heartbeatMaxTimeout) (late' : elapsed lastSeen stored' > heartbeatMaxTimeout) :
    (SameCall env env' heartbeatMaxTimeout clusterID skew s s' seen (.sendHeartbeat reports lastSeen) ↔
      ∃ last, seen = some last ∧ Apart heartbeatMaxTimeout lastSeen last.timestamp) ∧
      StillSkewed env env' heartbeatMaxTimeout clusterID skew s s' seen (.sendHeartbeat reports lastSeen) := by
  obtain ⟨answered, after_⟩ := heartbeat_timeout env reports found late
  obtain ⟨answered', after'⟩ := heartbeat_timeout env' reports found' late'
  unfold SameCall StillSkewed
  rw [shift, answered, answered', after_, after']
  refine ⟨by simp [Due], ⟨?_, skewed.access⟩⟩
  rw [EngineNode.registered_unregistered, EngineNode.registered_unregistered, skewed.registered]

/-- Both heartbeats are in time. -/
theorem inTime_step (reports : List JobProgress) {stored' : Int} (skewed : Skewed clusterID skew s s' seen)
    (found : s.access? clusterID = some stored) (found' : s'.access? clusterID = some stored')
    (inTime : elapsed lastSeen stored ≤ heartbeatMaxTimeout)
    (inTime' : elapsed lastSeen stored' ≤ heartbeatMaxTimeout) :
    SameCall env env' heartbeatMaxTimeout clusterID skew s s' seen (.sendHeartbeat reports lastSeen) ∧
      StillSkewed env env' heartbeatMaxTimeout clusterID skew s s' seen (.sendHeartbeat reports lastSeen) := by
  obtain ⟨answered, access, kept⟩ := heartbeat_normal env reports found inTime
  obtain ⟨answered', access', kept'⟩ := heartbeat_normal env' reports found' inTime'
  unfold SameCall StillSkewed
  rw [shift, answered, answered']
  refine ⟨by simp [Due], ⟨?_, access, access'⟩⟩
  rw [kept, kept', skewed.registered]

/-- One heartbeat comes too late and the other in time. -/
theorem mixed_step (reports : List JobProgress) (skew : Int) (seen : Option Sight) {stored' : Int}
    (found : s.access? clusterID = some stored) (found' : s'.access? clusterID = some stored')
    (mixed : ¬ (elapsed lastSeen stored > heartbeatMaxTimeout ↔ elapsed lastSeen stored' > heartbeatMaxTimeout)) :
    ¬ SameCall env env' heartbeatMaxTimeout clusterID skew s s' seen (.sendHeartbeat reports lastSeen) := by
  rintro ⟨same, -, -⟩
  rw [shift] at same
  by_cases late : elapsed lastSeen stored > heartbeatMaxTimeout
  · have inTime' : elapsed lastSeen stored' ≤ heartbeatMaxTimeout :=
      Int.not_lt.mp fun late' => mixed (iff_of_true late late')
    rw [(heartbeat_timeout env reports found late).1, (heartbeat_normal env' reports found' inTime').1] at same
    cases same
  · have late' : elapsed lastSeen stored' > heartbeatMaxTimeout := by
      by_contra inTime'
      exact mixed (iff_of_false late inTime')
    rw [(heartbeat_normal env reports found (Int.not_lt.mp late)).1, (heartbeat_timeout env' reports found' late').1]
      at same
    cases same

/-- A call is decided alike and rightly exactly if the clocks agree on it, and then the
servers stay in step. -/
theorem sameCall_iff (heartbeatMaxTimeout : Int) (skewed : Skewed clusterID skew s s' seen) (call : ExecutorCall) :
    (SameCall env env' heartbeatMaxTimeout clusterID skew s s' seen call ↔
      call.Agreed heartbeatMaxTimeout clusterID skew s seen) ∧
      (call.Agreed heartbeatMaxTimeout clusterID skew s seen →
        StillSkewed env env' heartbeatMaxTimeout clusterID skew s s' seen call) := by
  cases call with
  -- a registration compares nothing, so the skew does not matter
  | doRegister registerTimestamp now =>
    obtain ⟨same, still⟩ := doRegister_step env env' heartbeatMaxTimeout skewed registerTimestamp now
    exact ⟨iff_of_true same trivial, fun _ => still⟩
  | sendHeartbeat reports lastSeen =>
    match seen, skewed, skewed.access with
    -- unknown to both servers: both ask for a registration
    | none, skewed, ⟨unknown, unknown'⟩ =>
      obtain ⟨answered, after_⟩ := heartbeat_unregister env reports heartbeatMaxTimeout lastSeen unknown
      obtain ⟨answered', after'⟩ := heartbeat_unregister env' reports heartbeatMaxTimeout lastSeen unknown'
      unfold SameCall StillSkewed
      rw [shift, answered, answered', after_, after']
      exact ⟨iff_of_true (by simp [Due]) (by simp [Agreed]), fun _ => skewed⟩
    -- after a heartbeat both compare with the reading the executor sent, which is no clock of theirs
    | some ⟨last, false⟩, skewed, ⟨found, found'⟩ =>
      have agreed : (sendHeartbeat reports lastSeen).Agreed heartbeatMaxTimeout clusterID skew s
        (some ⟨last, false⟩) := by
        simp [Agreed]
      by_cases late : elapsed lastSeen last > heartbeatMaxTimeout
      · obtain ⟨due, still⟩ := late_step env env' reports skewed found found' late late
        exact ⟨iff_of_true (due.mpr ⟨_, rfl, apart_of_elapsed late⟩) agreed, fun _ => still⟩
      · have inTime := Int.not_lt.mp late
        obtain ⟨same, still⟩ := inTime_step env env' reports skewed found found' inTime inTime
        exact ⟨iff_of_true same agreed, fun _ => still⟩
    -- after a registration each compares with its own clock
    | some ⟨registered, true⟩, skewed, ⟨stored, found, found'⟩ =>
      have meaning : (sendHeartbeat reports lastSeen).Agreed heartbeatMaxTimeout clusterID skew s
        (some ⟨registered, true⟩) ↔
          (elapsed lastSeen stored > heartbeatMaxTimeout ↔ elapsed lastSeen (stored + skew) > heartbeatMaxTimeout) ∧
            (elapsed lastSeen stored > heartbeatMaxTimeout → Apart heartbeatMaxTimeout lastSeen registered) := by
        constructor
        · exact fun agreed => agreed registered stored rfl found
        · intro holds other time same found''
          cases same
          obtain rfl : stored = time := Option.some.inj (found.symm.trans found'')
          exact holds
      rw [meaning]
      by_cases sides : elapsed lastSeen stored > heartbeatMaxTimeout ↔
        elapsed lastSeen (stored + skew) > heartbeatMaxTimeout
      · by_cases late : elapsed lastSeen stored > heartbeatMaxTimeout
        · obtain ⟨due, still⟩ := late_step env env' reports skewed found found' late
            (sides.mp late)
          refine ⟨?_, fun _ => still⟩
          rw [due]
          constructor
          · rintro ⟨last, same, apart⟩
            cases same
            exact ⟨sides, fun _ => apart⟩
          · exact fun holds => ⟨_, rfl, holds.2 late⟩
        · obtain ⟨same, still⟩ := inTime_step env env' reports skewed found found'
            (Int.not_lt.mp late) (Int.not_lt.mp fun late' => late (sides.mpr late'))
          exact ⟨iff_of_true same ⟨sides, fun absurd_ => (late absurd_).elim⟩, fun _ => still⟩
      -- one server finds it late and the other does not, so the answers differ
      · refine ⟨iff_of_false (mixed_step env env' reports skew _ found found' sides) fun holds =>
          sides holds.1, fun holds => ?_⟩
        exact (sides holds.1).elim

/-! ### Whole runs -/

theorem sight_shift (call : ExecutorCall) (skew : Int) (reply : Answer) (seen : Option Sight) :
    (call.shift skew).sight reply seen = call.sight reply seen := by
  cases call with
  | doRegister => cases reply <;> rfl
  | sendHeartbeat => rfl

theorem skewFree_iff_of_skewed (calls : List ExecutorCall) (skewed : Skewed clusterID skew s s' seen) :
    SkewFree env env' heartbeatMaxTimeout clusterID skew calls s s' seen ↔
      AllAgreed env heartbeatMaxTimeout clusterID skew calls s seen := by
  induction calls generalizing s s' seen with
  | nil => simp [SkewFree, answers, AllDue, AllAgreed]
  | cons call calls ih =>
    obtain ⟨same, still⟩ := sameCall_iff env env' heartbeatMaxTimeout skewed call
    rw [AllAgreed, ← same]
    -- a run is as wanted if its first call and the rest are
    have unfolded : SkewFree env env' heartbeatMaxTimeout clusterID skew (call :: calls) s s' seen ↔
        SameCall env env' heartbeatMaxTimeout clusterID skew s s' seen call ∧
          SkewFree env env' heartbeatMaxTimeout clusterID skew calls (call.next env heartbeatMaxTimeout clusterID s)
            ((call.shift skew).next env' heartbeatMaxTimeout clusterID s')
            (call.sight (call.answer env heartbeatMaxTimeout clusterID s) seen) := by
      simp only [SkewFree, SameCall, List.map_cons, answers, AllDue, List.cons.injEq, sight_shift]
      constructor
      · rintro ⟨⟨first, rest⟩, ⟨due, dues⟩, due', dues'⟩
        rw [← first] at dues'
        exact ⟨⟨first, due, due'⟩, rest, dues, dues'⟩
      · rintro ⟨⟨first, due, due'⟩, rest, dues, dues'⟩
        rw [← first] at due' ⊢
        exact ⟨⟨rfl, rest⟩, ⟨due, dues⟩, due', dues'⟩
    rw [unfolded]
    apply and_congr_right
    intro decided
    exact ih (still (same.mp decided))

end Pairs

/-- Whether the decisions depend on the engine's clock: they do not exactly if the two
clocks and the executor's own agree on every heartbeat that follows a registration. -/
theorem skewFree_iff (env env' : Env) (heartbeatMaxTimeout : Int) (clusterID : String) (skew : Int)
    (calls : List ExecutorCall) {s s' : EngineNode}
    (absent : ¬ s.Registered clusterID ∧ s.access? clusterID = none)
    (absent' : ¬ s'.Registered clusterID ∧ s'.access? clusterID = none) :
    SkewFree env env' heartbeatMaxTimeout clusterID skew calls s s' none ↔
      AllAgreed env heartbeatMaxTimeout clusterID skew calls s none :=
  skewFree_iff_of_skewed env env' calls ⟨iff_of_false absent.1 absent'.1, absent.2, absent'.2⟩

/-- The engine's clock is two seconds ahead of the executor's, or seven. -/
theorem skewFree_iff_small :
    SkewFree Env.calm Env.calm 300000 "c" 5000 [.doRegister 10000 12000, .sendHeartbeat [] 40000] {} {} none := by
  have absent : ¬ ({} : EngineNode).Registered "c" ∧ ({} : EngineNode).access? "c" = none :=
    ⟨List.not_mem_nil, rfl⟩
  refine (skewFree_iff Env.calm Env.calm 300000 "c" 5000 _ absent absent).mpr ⟨trivial, ?_, trivial⟩
  intro registered stored same found
  rw [next, EngineNode.doRegister_accepted absent.1, after_ok] at found
  obtain rfl : stored = 12000 := by
    rw [EngineNode.access?_registered, EngineNode.access?_accessed] at found
    exact (Option.some.inj found).symm
  constructor
  · decide
  · exact fun late => absurd late (by decide)

/-- The second engine's clock is an hour behind: the executor has hardly registered when its
heartbeat is a timeout. -/
theorem slowClock_times_out :
    ¬ SkewFree Env.calm Env.calm 300000 "c" (-3600000) [.doRegister 3600000 3600000, .sendHeartbeat [] 3605000] {} {}
      none := by
  rintro ⟨same, -, -⟩
  revert same
  decide +kernel

end ExecutorCall

end Hella
