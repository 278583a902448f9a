import Hella.Lib.Wire

/-!
# The generated messages

The structs of the protocol between the executors and the engine, with the reading,
writing and checking that the Thrift compiler generated for them. References may be null,
and a required number has a bit that says whether it was set. The protocol underneath is
the library's. The dump of the struct that ends the text of an exception is left out.
-/
namespace Hella.Messages

open Wire Exec

inductive TException where
  | protocolException (message : String)
  | transportException
  | applicationException (message : String)
  /-- `new ArrayList(size)` below zero -/
  | illegalArgumentException
  deriving DecidableEq, Repr

def notPresent (field : String) : TException :=
  .protocolException s!"Required field '{field}' was not present!"

def notFound (field : String) : TException :=
  .protocolException s!"Required field '{field}' was not found in serialized data!"

/-- The checks of required references, one after the other. -/
def required : List (String × Option String) → Except TException Unit
  | [] => .ok ()
  | (field, value) :: rest => if value.isNone then .error (notPresent field) else required rest

section Cases

variable {β σ : Type} (P : Protocol β TException)

def stringCase (id : Int16) (set : σ → Option String → σ) : Case β TException σ :=
  ⟨id, .string, fun struct => do return set struct (some (← P.readString))⟩

def i32Case (id : Int16) (set : σ → Int32 → σ) : Case β TException σ :=
  ⟨id, .i32, fun struct => do return set struct (← P.readI32)⟩

def i64Case (id : Int16) (set : σ → Int64 → σ) : Case β TException σ :=
  ⟨id, .i64, fun struct => do return set struct (← P.readI64)⟩

def listCase {τ : Type} (id : Int16) (element : Reader β TException τ) (set : σ → Option (List τ) → σ) :
    Case β TException σ :=
  ⟨id, .list, fun struct => do return set struct (some (← readList P .illegalArgumentException element))⟩

def structCase {τ : Type} (id : Int16) (element : Reader β TException τ) (set : σ → Option τ → σ) :
    Case β TException σ :=
  ⟨id, .struct, fun struct => do return set struct (some (← element))⟩

/-- Only a reference that is not null is written. -/
def stringField (id : Int16) (value : Option String) : List (RawField β) :=
  (value.map fun text => ⟨.string, id, P.writeString text⟩).toList

def i32Field (id : Int16) (value : Int32) : List (RawField β) := [⟨.i32, id, P.writeI32 value⟩]

def i64Field (id : Int16) (value : Int64) : List (RawField β) := [⟨.i64, id, P.writeI64 value⟩]

/-- The elements come as they were written. -/
def listField (id : Int16) (elements : Option (List (List β))) : List (RawField β) :=
  (elements.map fun units => ⟨.list, id, writeList P .struct units⟩).toList

def structField (id : Int16) (units : Option (List β)) : List (RawField β) :=
  (units.map fun units => ⟨.struct, id, units⟩).toList

end Cases

/-! ### `JobEvent` -/

structure JobEvent where
  eventType : Int32 := 0
  isSetEventType : Bool := false
  eventID : Option String := none
  executorClusterID : Option String := none
  xjobExecutorType : Option String := none
  mode : Option String := none
  executionContent : Option String := none
  jobClassName : Option String := none
  jobPlanNodeName : Option String := none
  executeUser : Option String := none
  argsValue : Option String := none
  deriving DecidableEq, Repr

namespace JobEvent

variable {β : Type} (P : Protocol β TException)

def validate (struct : JobEvent) : Except TException Unit :=
  required
    [("eventID", struct.eventID), ("executorClusterID", struct.executorClusterID),
      ("xjobExecutorType", struct.xjobExecutorType), ("mode", struct.mode),
      ("executionContent", struct.executionContent), ("jobClassName", struct.jobClassName),
      ("jobPlanNodeName", struct.jobPlanNodeName)]

def cases : List (Case β TException JobEvent) :=
  [i32Case P 1 fun struct n => { struct with eventType := n, isSetEventType := true },
    stringCase P 2 fun struct text => { struct with eventID := text },
    stringCase P 3 fun struct text => { struct with executorClusterID := text },
    stringCase P 4 fun struct text => { struct with xjobExecutorType := text },
    stringCase P 5 fun struct text => { struct with mode := text },
    stringCase P 6 fun struct text => { struct with executionContent := text },
    stringCase P 7 fun struct text => { struct with jobClassName := text },
    stringCase P 8 fun struct text => { struct with jobPlanNodeName := text },
    stringCase P 9 fun struct text => { struct with executeUser := text },
    stringCase P 10 fun struct text => { struct with argsValue := text }]

def read : Reader β TException JobEvent := do
  let struct ← readStruct P (cases P) {}
  if !struct.isSetEventType then throw (notFound "eventType")
  else
    match struct.validate with
    | .error e => throw e
    | .ok () => return struct

def fields (struct : JobEvent) : List (RawField β) :=
  i32Field P 1 struct.eventType ++ (stringField P 2 struct.eventID ++ (stringField P 3 struct.executorClusterID ++
    (stringField P 4 struct.xjobExecutorType ++ (stringField P 5 struct.mode ++
    (stringField P 6 struct.executionContent ++ (stringField P 7 struct.jobClassName ++
    (stringField P 8 struct.jobPlanNodeName ++ (stringField P 9 struct.executeUser ++
    stringField P 10 struct.argsValue))))))))

def write (struct : JobEvent) : Except TException (List β) := do
  struct.validate
  return writeStruct P (struct.fields P)

end JobEvent

/-! ### `JobProgress` -/

structure JobProgress where
  executorType : Option String := none
  jobPlanNodeState : Option String := none
  progress : Int32 := 0
  isSetProgress : Bool := false
  eventID : Option String := none
  runInfo : Option String := none
  runTime : Option String := none
  xjobStateID : Int32 := 0
  isSetXjobStateID : Bool := false
  deriving DecidableEq, Repr

namespace JobProgress

variable {β : Type} (P : Protocol β TException)

def validate (struct : JobProgress) : Except TException Unit :=
  required
    [("executorType", struct.executorType), ("jobPlanNodeState", struct.jobPlanNodeState), ("eventID", struct.eventID)]

def cases : List (Case β TException JobProgress) :=
  [stringCase P 1 fun struct text => { struct with executorType := text },
    stringCase P 4 fun struct text => { struct with jobPlanNodeState := text },
    i32Case P 5 fun struct n => { struct with progress := n, isSetProgress := true },
    stringCase P 6 fun struct text => { struct with eventID := text },
    stringCase P 7 fun struct text => { struct with runInfo := text },
    stringCase P 8 fun struct text => { struct with runTime := text },
    i32Case P 9 fun struct n => { struct with xjobStateID := n, isSetXjobStateID := true }]

def read : Reader β TException JobProgress := do
  let struct ← readStruct P (cases P) {}
  if !struct.isSetProgress then throw (notFound "progress")
  else if !struct.isSetXjobStateID then throw (notFound "xjobStateID")
  else
    match struct.validate with
    | .error e => throw e
    | .ok () => return struct

def fields (struct : JobProgress) : List (RawField β) :=
  stringField P 1 struct.executorType ++ (stringField P 4 struct.jobPlanNodeState ++ (i32Field P 5 struct.progress ++
    (stringField P 6 struct.eventID ++ (stringField P 7 struct.runInfo ++ (stringField P 8 struct.runTime ++
    i32Field P 9 struct.xjobStateID)))))

def write (struct : JobProgress) : Except TException (List β) := do
  struct.validate
  return writeStruct P (struct.fields P)

end JobProgress

/-! ### `HeartbeatResponse` -/

structure HeartbeatResponse where
  executorStatus : Int32 := 0
  isSetExecutorStatus : Bool := false
  jobEvents : Option (List JobEvent) := none
  deriving DecidableEq, Repr

namespace HeartbeatResponse

variable {β : Type} (P : Protocol β TException)

def cases : List (Case β TException HeartbeatResponse) :=
  [i32Case P 1 fun struct n => { struct with executorStatus := n, isSetExecutorStatus := true },
    listCase P 2 (JobEvent.read P) fun struct events => { struct with jobEvents := events }]

def read : Reader β TException HeartbeatResponse := do
  let struct ← readStruct P (cases P) {}
  if !struct.isSetExecutorStatus then throw (notFound "executorStatus")
  else return struct

def fields (struct : HeartbeatResponse) (events : Option (List (List β))) : List (RawField β) :=
  i32Field P 1 struct.executorStatus ++ listField P 2 events

def write (struct : HeartbeatResponse) : Except TException (List β) := do
  let events ← struct.jobEvents.mapM fun events => events.mapM (JobEvent.write P)
  return writeStruct P (struct.fields P events)

end HeartbeatResponse

/-! ### Arguments and results of `EngineNodeProtocol` -/

structure sendHeartbeat_args where
  executorClusterID : Option String := none
  progressList : Option (List JobProgress) := none
  lastSeen : Int64 := 0
  isSetLastSeen : Bool := false
  deriving DecidableEq, Repr

namespace sendHeartbeat_args

variable {β : Type} (P : Protocol β TException)

def cases : List (Case β TException sendHeartbeat_args) :=
  [stringCase P 1 fun struct text => { struct with executorClusterID := text },
    listCase P 2 (JobProgress.read P) fun struct reports => { struct with progressList := reports },
    i64Case P 3 fun struct n => { struct with lastSeen := n, isSetLastSeen := true }]

def read : Reader β TException sendHeartbeat_args := readStruct P (cases P) {}

def fields (struct : sendHeartbeat_args) (reports : Option (List (List β))) : List (RawField β) :=
  stringField P 1 struct.executorClusterID ++ (listField P 2 reports ++ i64Field P 3 struct.lastSeen)

def write (struct : sendHeartbeat_args) : Except TException (List β) := do
  let reports ← struct.progressList.mapM fun reports => reports.mapM (JobProgress.write P)
  return writeStruct P (struct.fields P reports)

end sendHeartbeat_args

structure sendHeartbeat_result where
  success : Option HeartbeatResponse := none
  deriving DecidableEq, Repr

namespace sendHeartbeat_result

variable {β : Type} (P : Protocol β TException)

def cases : List (Case β TException sendHeartbeat_result) :=
  [structCase 0 (HeartbeatResponse.read P) fun struct response => { struct with success := response }]

def read : Reader β TException sendHeartbeat_result := readStruct P (cases P) {}

def fields (units : Option (List β)) : List (RawField β) := structField 0 units

def write (struct : sendHeartbeat_result) : Except TException (List β) := do
  let response ← struct.success.mapM (HeartbeatResponse.write P)
  return writeStruct P (fields response)

end sendHeartbeat_result

end Hella.Messages
