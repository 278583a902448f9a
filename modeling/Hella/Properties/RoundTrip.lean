import Hella.Protocol.Messages
import Hella.Lib.Binary

/-!
# Round trips of the messages

What one side writes the other reads, whatever a newer peer puts in between, and what is
read from any input at all can be written again and read to the same message. Reading
only adds that the required numbers are set.
-/
namespace Hella.Messages

open Wire Exec

variable {β σ τ : Type} {P : Protocol β TException}

/-- The length of each text goes into 32 bits. -/
def Fitting (texts : List (Option String)) : Prop := ∀ text ∈ texts, ∀ t, text = some t → Short t.utf8ByteSize

/-! ### One field -/

section Fields

variable {cases : List (Case β TException σ)} {id : Int16} {s : σ}

theorem fills_string (lawful : P.Lawful) {set : σ → Option String → σ}
    (taken : cases.find? (·.id = id) = some (stringCase P id set)) {text : Option String}
    (short : ∀ t, text = some t → Short t.utf8ByteSize) (blank : set s none = s) :
    Fills cases s (stringField P id text) (set s text) := by
  apply Fills.toList
  · intro absent
    rw [Option.map_eq_none_iff.mp absent]
    exact blank
  · intro field present
    obtain ⟨t, rfl, rfl⟩ := Option.map_eq_some_iff.mp present
    exact ⟨_, taken, rfl, (lawful.string t (short t rfl)).map _⟩

theorem fills_i32 (lawful : P.Lawful) {set : σ → Int32 → σ} (taken : cases.find? (·.id = id) = some (i32Case P id set))
    (n : Int32) : Fills cases s (i32Field P id n) (set s n) :=
  .single ⟨_, taken, rfl, (lawful.i32 n).map _⟩

theorem fills_i64 (lawful : P.Lawful) {set : σ → Int64 → σ} (taken : cases.find? (·.id = id) = some (i64Case P id set))
    (n : Int64) : Fills cases s (i64Field P id n) (set s n) :=
  .single ⟨_, taken, rfl, (lawful.i64 n).map _⟩

theorem fills_struct {element : Reader β TException τ} {set : σ → Option τ → σ}
    (taken : cases.find? (·.id = id) = some (structCase id element set)) {value : τ} {units : List β}
    (reads : Decodes element units value) : Fills cases s (structField id (some units)) (set s (some value)) :=
  .single ⟨_, taken, rfl, reads.map _⟩

theorem fills_list (lawful : P.Lawful) {element : Reader β TException τ} {set : σ → Option (List τ) → σ}
    (taken : cases.find? (·.id = id) = some (listCase P id element set)) {values : List τ} {elements : List (List β)}
    (reads : List.Forall₂ (fun value units => Decodes element units value) values elements)
    (short : Short values.length) : Fills cases s (listField P id (some elements)) (set s (some values)) :=
  .single ⟨_, taken, rfl, (readList_decodes lawful reads short .struct).map _⟩

end Fields

section Cases

variable {I : σ → Prop} {s : σ}

theorem yields_string (lawful : P.Lawful) {id : Int16} {set : σ → Option String → σ}
    (holds : ∀ t : String, Short t.utf8ByteSize → I (set s (some t))) : Yields ((stringCase P id set).read s) I := by
  have short : Yields P.readString fun t => Short t.utf8ByteSize := lawful.short
  exact short.bind fun t fits => .pure (holds t fits)

theorem yields_i32 {id : Int16} {set : σ → Int32 → σ} (holds : ∀ n, I (set s n)) :
    Yields ((i32Case P id set).read s) I := (Yields.any _).bind fun n _ => .pure (holds n)

theorem yields_i64 {id : Int16} {set : σ → Int64 → σ} (holds : ∀ n, I (set s n)) :
    Yields ((i64Case P id set).read s) I := (Yields.any _).bind fun n _ => .pure (holds n)

theorem yields_list {Q : τ → Prop} {id : Int16} {element : Reader β TException τ} {set : σ → Option (List τ) → σ}
    (each : Yields element Q) (holds : ∀ values, Short values.length → (∀ v ∈ values, Q v) → I (set s (some values))) :
    Yields ((listCase P id element set).read s) I :=
  (yields_readList each).bind fun values found => .pure (holds values found.1 found.2)

end Cases

/-! ### `JobEvent` -/

namespace JobEvent

def texts (struct : JobEvent) : List (Option String) :=
  [struct.eventID, struct.executorClusterID, struct.xjobExecutorType, struct.mode, struct.executionContent,
    struct.jobClassName, struct.jobPlanNodeName, struct.executeUser, struct.argsValue]

structure Writable (struct : JobEvent) : Prop where
  valid : struct.validate = .ok ()
  fits : Fitting struct.texts

/-- What the other side reads. -/
def received (struct : JobEvent) : JobEvent := { struct with isSetEventType := true }

/-- The units another peer may send for the event. -/
def Encoded (P : Protocol β TException) (struct : JobEvent) (units : List β) : Prop :=
  Encodes P (cases P) (struct.fields P) units

theorem read_encoded (lawful : P.Lawful) {struct : JobEvent} {units : List β} (writable : struct.Writable)
    (encoded : Encoded P struct units) : Decodes (read P) units struct.received := by
  have fits := writable.fits
  simp only [Fitting, texts, List.forall_mem_cons] at fits
  obtain ⟨eventID, clusterID, executorType, mode, content, className, nodeName, user, args, -⟩ := fits
  have fills : Fills (cases P) {} (struct.fields P) struct.received := by
    refine (fills_i32 lawful rfl _).append ?_
    refine (fills_string lawful rfl eventID rfl).append ?_
    refine (fills_string lawful rfl clusterID rfl).append ?_
    refine (fills_string lawful rfl executorType rfl).append ?_
    refine (fills_string lawful rfl mode rfl).append ?_
    refine (fills_string lawful rfl content rfl).append ?_
    refine (fills_string lawful rfl className rfl).append ?_
    refine (fills_string lawful rfl nodeName rfl).append ?_
    refine (fills_string lawful rfl user rfl).append ?_
    exact (fills_string lawful rfl args rfl).to rfl
  have still : struct.received.validate = .ok () := writable.valid
  intro rest
  unfold read
  rw [bind_ok (readStruct_encodes lawful encoded fills rest)]
  simp only [still]
  rfl

theorem write_ok {struct : JobEvent} (writable : struct.Writable) :
    struct.write P = .ok (writeStruct P (struct.fields P)) := by
  unfold write
  rw [writable.valid]
  rfl

theorem received_eq {struct : JobEvent} (set : struct.isSetEventType = true) : struct.received = struct := by
  cases struct
  simp only [received] at set ⊢
  rw [set]

/-- Whatever is read has its required fields. -/
theorem yields_read (lawful : P.Lawful) :
    Yields (read P) fun struct => struct.Writable ∧ struct.received = struct := by
  have each : ∀ case ∈ cases P, ∀ s : JobEvent, Fitting s.texts → Yields (case.read s) fun t => Fitting t.texts := by
    intro case member s fits
    simp only [cases, List.mem_cons, List.not_mem_nil, or_false] at member
    rcases member with rfl | rfl | rfl | rfl | rfl | rfl | rfl | rfl | rfl | rfl
    · exact yields_i32 fun _ => fits
    all_goals
      refine yields_string lawful fun t short => ?_
      simp_all [Fitting, texts]
  have start : Fitting ({} : JobEvent).texts := by simp [Fitting, texts]
  unfold read
  refine (yields_readStruct each start).bind fun struct fits => ?_
  split
  · exact .throw _
  next set =>
    split
    · exact .throw _
    next valid => exact .pure ⟨⟨valid, fits⟩, received_eq (by simpa using set)⟩

end JobEvent

/-! ### `JobProgress` -/

namespace JobProgress

def texts (struct : JobProgress) : List (Option String) :=
  [struct.executorType, struct.jobPlanNodeState, struct.eventID, struct.runInfo, struct.runTime]

structure Writable (struct : JobProgress) : Prop where
  valid : struct.validate = .ok ()
  fits : Fitting struct.texts

def received (struct : JobProgress) : JobProgress := { struct with isSetProgress := true, isSetXjobStateID := true }

def Encoded (P : Protocol β TException) (struct : JobProgress) (units : List β) : Prop :=
  Encodes P (cases P) (struct.fields P) units

theorem read_encoded (lawful : P.Lawful) {struct : JobProgress} {units : List β} (writable : struct.Writable)
    (encoded : Encoded P struct units) : Decodes (read P) units struct.received := by
  have fits := writable.fits
  simp only [Fitting, texts, List.forall_mem_cons] at fits
  obtain ⟨executorType, state, eventID, runInfo, runTime, -⟩ := fits
  have fills : Fills (cases P) {} (struct.fields P) struct.received := by
    refine (fills_string lawful rfl executorType rfl).append ?_
    refine (fills_string lawful rfl state rfl).append ?_
    refine (fills_i32 lawful rfl _).append ?_
    refine (fills_string lawful rfl eventID rfl).append ?_
    refine (fills_string lawful rfl runInfo rfl).append ?_
    refine (fills_string lawful rfl runTime rfl).append ?_
    exact (fills_i32 lawful rfl _).to rfl
  have still : struct.received.validate = .ok () := writable.valid
  intro rest
  unfold read
  rw [bind_ok (readStruct_encodes lawful encoded fills rest)]
  simp only [still]
  rfl

theorem write_ok {struct : JobProgress} (writable : struct.Writable) :
    struct.write P = .ok (writeStruct P (struct.fields P)) := by
  unfold write
  rw [writable.valid]
  rfl

theorem received_eq {struct : JobProgress} (progress : struct.isSetProgress = true)
    (id : struct.isSetXjobStateID = true) : struct.received = struct := by
  cases struct
  simp only [received] at progress id ⊢
  rw [progress, id]

theorem yields_read (lawful : P.Lawful) :
    Yields (read P) fun struct => struct.Writable ∧ struct.received = struct := by
  have each : ∀ case ∈ cases P, ∀ s : JobProgress, Fitting s.texts → Yields (case.read s) fun t => Fitting t.texts := by
    intro case member s fits
    simp only [cases, List.mem_cons, List.not_mem_nil, or_false] at member
    rcases member with rfl | rfl | rfl | rfl | rfl | rfl | rfl
    case inr.inr.inl => exact yields_i32 fun _ => fits
    case inr.inr.inr.inr.inr.inr => exact yields_i32 fun _ => fits
    all_goals
      refine yields_string lawful fun t short => ?_
      simp_all [Fitting, texts]
  have start : Fitting ({} : JobProgress).texts := by simp [Fitting, texts]
  unfold read
  refine (yields_readStruct each start).bind fun struct fits => ?_
  split
  · exact .throw _
  next progress =>
    split
    · exact .throw _
    next id =>
      split
      · exact .throw _
      next valid => exact .pure ⟨⟨valid, fits⟩, received_eq (by simpa using progress) (by simpa using id)⟩

end JobProgress

/-! ### Lists of messages -/

/-- Each message of a list that is not null, and their number, can be written. -/
def AllWritable (writable : τ → Prop) (values : Option (List τ)) : Prop :=
  ∀ list, values = some list → Short list.length ∧ ∀ v ∈ list, writable v

/-- A null list is not sent, and of another each message in turn. -/
def AllEncoded (encoded : τ → List β → Prop) : Option (List τ) → Option (List (List β)) → Prop :=
  Option.Rel (List.Forall₂ encoded)

theorem fills_all (lawful : P.Lawful) {cases : List (Case β TException σ)} {id : Int16} {s : σ}
    {element : Reader β TException τ} {set : σ → Option (List τ) → σ} {writable : τ → Prop}
    {encoded : τ → List β → Prop}
    {received : τ → τ} (taken : cases.find? (·.id = id) = some (listCase P id element set))
    (each : ∀ v units, writable v → encoded v units → Decodes element units (received v)) {values : Option (List τ)}
    {elements : Option (List (List β))} (writables : AllWritable writable values)
    (encodeds : AllEncoded encoded values elements) (blank : set s none = s) :
    Fills cases s (listField P id elements) (set s (values.map fun list => list.map received)) := by
  cases encodeds with
  | none =>
    rw [Option.map_none, blank]
    exact .nil s
  | @some list units reads =>
    obtain ⟨short, writables⟩ := writables list rfl
    refine fills_list lawful taken ?_ (by simpa using short)
    rw [List.forall₂_map_left_iff]
    have both : List.Forall₂ (fun v units => writable v ∧ encoded v units) list units :=
      (List.forall₂_and_left list units).mpr ⟨writables, reads⟩
    exact both.imp fun v units holds => each v units holds.1 holds.2

theorem all_received {received : τ → τ} {values : Option (List τ)}
    (fixed : ∀ list, values = some list → ∀ v ∈ list, received v = v) :
    (values.map fun list => list.map received) = values := by
  cases values with
  | none => rfl
  | some list => rw [Option.map_some, (List.map_congr_left (fixed list rfl)).trans (List.map_id' list)]

theorem write_all {write : τ → Except TException (List β)} {writable : τ → Prop} {encoded : τ → List β → Prop}
    (each : ∀ v, writable v → ∃ units, write v = .ok units ∧ encoded v units) {values : Option (List τ)}
    (writables : AllWritable writable values) :
    ∃ elements, values.mapM (fun list => list.mapM write) = .ok elements ∧ AllEncoded encoded values elements := by
  cases values with
  | none => exact ⟨none, rfl, .none⟩
  | some list =>
    have turn : ∃ elements, list.mapM write = .ok elements ∧ List.Forall₂ encoded list elements := by
      have all := (writables list rfl).2
      clear writables
      induction list with
      | nil => exact ⟨[], rfl, .nil⟩
      | cons v rest ih =>
        obtain ⟨units, written, one⟩ := each v (all v List.mem_cons_self)
        obtain ⟨elements, others, many⟩ := ih fun w member => all w (List.mem_cons_of_mem _ member)
        refine ⟨units :: elements, ?_, .cons one many⟩
        rw [List.mapM_cons, written, others]
        rfl
    obtain ⟨elements, written, many⟩ := turn
    exact ⟨some elements, by rw [Option.mapM_some, written]; rfl, .some many⟩

/-! ### `HeartbeatResponse` -/

namespace HeartbeatResponse

def Writable (struct : HeartbeatResponse) : Prop := AllWritable JobEvent.Writable struct.jobEvents

def received (struct : HeartbeatResponse) : HeartbeatResponse :=
  { struct with
    isSetExecutorStatus := true
    jobEvents := struct.jobEvents.map fun events => events.map JobEvent.received }

/-- The events inside may be padded too. -/
def Encoded (P : Protocol β TException) (struct : HeartbeatResponse) (units : List β) : Prop :=
  ∃ events, AllEncoded (JobEvent.Encoded P) struct.jobEvents events ∧ Encodes P (cases P) (struct.fields P events) units

theorem read_encoded (lawful : P.Lawful) {struct : HeartbeatResponse} {units : List β} (writable : struct.Writable)
    (encoded : Encoded P struct units) : Decodes (read P) units struct.received := by
  obtain ⟨events, each, encodes⟩ := encoded
  have fills : Fills (cases P) {} (struct.fields P events) struct.received := by
    refine (fills_i32 lawful rfl _).append ?_
    exact (fills_all lawful rfl (fun _ _ => JobEvent.read_encoded lawful) writable each rfl).to rfl
  intro rest
  unfold read
  rw [bind_ok (readStruct_encodes lawful encodes fills rest)]
  rfl

theorem write_ok {struct : HeartbeatResponse} (writable : struct.Writable) :
    ∃ units, struct.write P = .ok units ∧ Encoded P struct units := by
  obtain ⟨events, written, each⟩ :=
    write_all (fun _ valid => ⟨_, JobEvent.write_ok valid, encodes_writeStruct P (JobEvent.cases P) _⟩) writable
  refine ⟨writeStruct P (struct.fields P events), ?_, events, each, encodes_writeStruct P _ _⟩
  unfold write
  rw [written]
  rfl

theorem received_eq {struct : HeartbeatResponse} (set : struct.isSetExecutorStatus = true)
    (events : ∀ list, struct.jobEvents = some list → ∀ event ∈ list, event.received = event) :
    struct.received = struct := by
  cases struct
  simp only [received, all_received events] at set ⊢
  rw [set]

theorem yields_read (lawful : P.Lawful) :
    Yields (read P) fun struct => struct.Writable ∧ struct.received = struct := by
  let I : HeartbeatResponse → Prop := fun s =>
    AllWritable (fun event => event.Writable ∧ event.received = event) s.jobEvents
  have each : ∀ case ∈ cases P, ∀ s : HeartbeatResponse, I s → Yields (case.read s) I := by
    intro case member s holds
    simp only [cases, List.mem_cons, List.not_mem_nil, or_false] at member
    rcases member with rfl | rfl
    · exact yields_i32 fun _ => holds
    · refine yields_list (JobEvent.yields_read lawful) fun events short all => ?_
      intro list same
      cases same
      exact ⟨short, all⟩
  have start : I {} := by
    intro list same
    cases same
  unfold read
  refine (yields_readStruct each start).bind fun struct holds => ?_
  split
  · exact .throw _
  next set =>
    refine .pure ⟨fun list same => ⟨(holds list same).1, fun event member => ((holds list same).2 event member).1⟩, ?_⟩
    exact received_eq (by simpa using set) fun list same event member => ((holds list same).2 event member).2

end HeartbeatResponse

/-! ### Arguments and results -/

namespace sendHeartbeat_args

structure Writable (struct : sendHeartbeat_args) : Prop where
  fits : Fitting [struct.executorClusterID]
  reports : AllWritable JobProgress.Writable struct.progressList

def received (struct : sendHeartbeat_args) : sendHeartbeat_args :=
  { struct with
    isSetLastSeen := true
    progressList := struct.progressList.map fun reports => reports.map JobProgress.received }

def Encoded (P : Protocol β TException) (struct : sendHeartbeat_args) (units : List β) : Prop :=
  ∃ reports, AllEncoded (JobProgress.Encoded P) struct.progressList reports ∧
    Encodes P (cases P) (struct.fields P reports) units

theorem read_encoded (lawful : P.Lawful) {struct : sendHeartbeat_args} {units : List β} (writable : struct.Writable)
    (encoded : Encoded P struct units) : Decodes (read P) units struct.received := by
  obtain ⟨reports, each, encodes⟩ := encoded
  have fits := writable.fits
  simp only [Fitting, List.forall_mem_cons] at fits
  have fills : Fills (cases P) {} (struct.fields P reports) struct.received := by
    refine (fills_string lawful rfl fits.1 rfl).append ?_
    refine (fills_all lawful rfl (fun _ _ => JobProgress.read_encoded lawful) writable.reports each rfl).append ?_
    exact (fills_i64 lawful rfl _).to rfl
  exact readStruct_encodes lawful encodes fills

theorem write_ok {struct : sendHeartbeat_args} (writable : struct.Writable) :
    ∃ units, struct.write P = .ok units ∧ Encoded P struct units := by
  obtain ⟨reports, written, each⟩ :=
    write_all (fun _ valid => ⟨_, JobProgress.write_ok valid, encodes_writeStruct P (JobProgress.cases P) _⟩)
      writable.reports
  refine ⟨writeStruct P (struct.fields P reports), ?_, reports, each, encodes_writeStruct P _ _⟩
  unfold write
  rw [written]
  rfl

/-- `lastSeen` alone may stay unset. -/
theorem yields_read (lawful : P.Lawful) :
    Yields (read P) fun struct => struct.Writable ∧ struct.received = { struct with isSetLastSeen := true } := by
  let I : sendHeartbeat_args → Prop := fun s =>
    Fitting [s.executorClusterID] ∧ AllWritable
      (fun report => report.Writable ∧ report.received = report) s.progressList
  have each : ∀ case ∈ cases P, ∀ s : sendHeartbeat_args, I s → Yields (case.read s) I := by
    intro case member s holds
    simp only [cases, List.mem_cons, List.not_mem_nil, or_false] at member
    rcases member with rfl | rfl | rfl
    · refine yields_string lawful fun t short => ⟨?_, holds.2⟩
      simpa [Fitting] using short
    · refine yields_list (JobProgress.yields_read lawful) fun reports short all => ⟨holds.1, ?_⟩
      intro list same
      cases same
      exact ⟨short, all⟩
    · exact yields_i64 fun _ => holds
  have start : I {} := by
    refine ⟨by simp [Fitting], ?_⟩
    intro list same
    cases same
  intro input struct rest returned
  obtain ⟨fits, all⟩ := yields_readStruct each start _ _ _ returned
  refine ⟨⟨fits, fun list same => ⟨(all list same).1, fun report member => ((all list same).2 report member).1⟩⟩, ?_⟩
  rw [received, all_received fun list same report member => ((all list same).2 report member).2]

end sendHeartbeat_args

namespace sendHeartbeat_result

/-- The result of a call that returned a response. -/
def Encoded (P : Protocol β TException) (response : HeartbeatResponse) (units : List β) : Prop :=
  ∃ inner, HeartbeatResponse.Encoded P response inner ∧ Encodes P (cases P) (fields (some inner)) units

theorem read_encoded (lawful : P.Lawful) {response : HeartbeatResponse} {units : List β} (writable : response.Writable)
    (encoded : Encoded P response units) : Decodes (read P) units { success := some response.received } := by
  obtain ⟨inner, one, encodes⟩ := encoded
  exact readStruct_encodes lawful encodes
    ((fills_struct rfl (HeartbeatResponse.read_encoded lawful writable one)).to rfl)

theorem write_ok {response : HeartbeatResponse} (writable : response.Writable) :
    ∃ units, write P { success := some response } = .ok units ∧ Encoded P response units := by
  obtain ⟨inner, written, one⟩ := HeartbeatResponse.write_ok (P := P) writable
  refine ⟨writeStruct P (fields (some inner)), ?_, inner, one, encodes_writeStruct P _ _⟩
  unfold write
  rw [Option.mapM_some, written]
  rfl

end sendHeartbeat_result

/-! ### The loops end -/

section Shrinks

variable {id : Int16} {s : σ}

theorem shrinks_string (shrinking : P.Shrinking) {set : σ → Option String → σ} :
    Shrinks ((stringCase P id set).read s) := shrinking.string.bind fun _ => .pure _

theorem shrinks_i32 (shrinking : P.Shrinking) {set : σ → Int32 → σ} : Shrinks ((i32Case P id set).read s) :=
  shrinking.i32.bind fun _ => .pure _

theorem shrinks_i64 (shrinking : P.Shrinking) {set : σ → Int64 → σ} : Shrinks ((i64Case P id set).read s) :=
  shrinking.i64.bind fun _ => .pure _

theorem shrinks_list (shrinking : P.Shrinking) {element : Reader β TException τ} (each : Shrinks element)
    {set : σ → Option (List τ) → σ} : Shrinks ((listCase P id element set).read s) :=
  (shrinks_readList shrinking each _).bind fun _ => .pure _

end Shrinks

theorem JobEvent.shrinks_read (shrinking : P.Shrinking) : Shrinks (JobEvent.read P) := by
  have each : ∀ case ∈ cases P, ∀ s, Shrinks (case.read s) := by
    intro case member s
    simp only [cases, List.mem_cons, List.not_mem_nil, or_false] at member
    rcases member with rfl | rfl | rfl | rfl | rfl | rfl | rfl | rfl | rfl | rfl
    · exact shrinks_i32 shrinking
    all_goals exact shrinks_string shrinking
  unfold read
  refine (shrinks_readStruct shrinking each {}).bind fun struct => .ite (.throw _) ?_
  split
  · exact .throw _
  · exact .pure _

theorem JobProgress.shrinks_read (shrinking : P.Shrinking) : Shrinks (JobProgress.read P) := by
  have each : ∀ case ∈ cases P, ∀ s, Shrinks (case.read s) := by
    intro case member s
    simp only [cases, List.mem_cons, List.not_mem_nil, or_false] at member
    rcases member with rfl | rfl | rfl | rfl | rfl | rfl | rfl
    case inr.inr.inl => exact shrinks_i32 shrinking
    case inr.inr.inr.inr.inr.inr => exact shrinks_i32 shrinking
    all_goals exact shrinks_string shrinking
  unfold read
  refine (shrinks_readStruct shrinking each {}).bind fun struct => .ite (.throw _) (.ite (.throw _) ?_)
  split
  · exact .throw _
  · exact .pure _

theorem HeartbeatResponse.shrinks_cases (shrinking : P.Shrinking) : ∀ case ∈ cases P, ∀ s, Shrinks (case.read s) := by
  intro case member s
  simp only [cases, List.mem_cons, List.not_mem_nil, or_false] at member
  rcases member with rfl | rfl
  · exact shrinks_i32 shrinking
  · exact shrinks_list shrinking (JobEvent.shrinks_read shrinking)

theorem sendHeartbeat_args.shrinks_cases (shrinking : P.Shrinking) : ∀ case ∈ cases P, ∀ s, Shrinks (case.read s) := by
  intro case member s
  simp only [cases, List.mem_cons, List.not_mem_nil, or_false] at member
  rcases member with rfl | rfl | rfl
  · exact shrinks_string shrinking
  · exact shrinks_list shrinking (JobProgress.shrinks_read shrinking)
  · exact shrinks_i64 shrinking

/-! ### What is accepted -/

/-- What is accepted from any input at all can be written, and that is read to the same
message. The loop that accepts or rejects the input is over before it has made as many
turns as the input has units. -/
theorem accepted_again (lawful : P.Lawful) (shrinking : P.Shrinking) :
    (∀ input rest response, HeartbeatResponse.read P input = .ok response rest →
      ∃ units, response.write P = .ok units ∧ Decodes (HeartbeatResponse.read P) units response) ∧
    (∀ input rest args, sendHeartbeat_args.read P input = .ok args rest →
      ∃ units, args.write P = .ok units ∧
        Decodes (sendHeartbeat_args.read P) units { args with isSetLastSeen := true }) ∧
    (∀ (input : List β) fuel, input.length < fuel →
      readFields P (HeartbeatResponse.cases P) fuel {} input =
        readFields P (HeartbeatResponse.cases P) (input.length + 1) {} input) ∧
    ∀ (input : List β) fuel, input.length < fuel →
      readFields P (sendHeartbeat_args.cases P) fuel {} input =
        readFields P (sendHeartbeat_args.cases P) (input.length + 1) {} input := by
  refine ⟨fun input rest response accepted => ?_, fun input rest args accepted => ?_, fun input fuel enough => ?_,
    fun input fuel enough => ?_⟩
  · obtain ⟨writable, fixed⟩ := HeartbeatResponse.yields_read lawful _ _ _ accepted
    obtain ⟨units, written, encoded⟩ := HeartbeatResponse.write_ok (P := P) writable
    have again := HeartbeatResponse.read_encoded lawful writable encoded
    rw [fixed] at again
    exact ⟨units, written, again⟩
  · obtain ⟨writable, fixed⟩ := sendHeartbeat_args.yields_read lawful _ _ _ accepted
    obtain ⟨units, written, encoded⟩ := sendHeartbeat_args.write_ok (P := P) writable
    have again := sendHeartbeat_args.read_encoded lawful writable encoded
    rw [fixed] at again
    exact ⟨units, written, again⟩
  · exact readFields_enough lawful shrinking (HeartbeatResponse.shrinks_cases shrinking) (Nat.lt_succ_self _) enough {}
  · exact readFields_enough lawful shrinking (sendHeartbeat_args.shrinks_cases shrinking) (Nat.lt_succ_self _) enough {}

def nestedEvent : JobEvent where
  eventType := 1
  isSetEventType := true
  eventID := some "1"
  executorClusterID := some "c"
  xjobExecutorType := some "Auto"
  mode := some "l"
  executionContent := some "s"
  jobClassName := some "j"
  jobPlanNodeName := some "a"

/-- The event as the binary protocol writes it, with a field that is not known behind the third. -/
def nestedBytes : List UInt8 :=
  [8, 0, 1, 0, 0, 0, 1, 11, 0, 2, 0, 0, 0, 1, 49, 11, 0, 3, 0, 0, 0, 1, 99, 2, 0, 99, 1, 11, 0, 4, 0, 0, 0, 4, 65, 117,
   116, 111, 11, 0, 5, 0, 0, 0, 1, 108, 11, 0, 6, 0, 0, 0, 1, 115, 11, 0, 7, 0, 0, 0, 1, 106, 11, 0, 8,
     0, 0, 0, 1, 97, 0]

/-- A response with one event, and with a number of another type in the place of the events before. -/
theorem accepted_again_bytes :
    ∃ units, HeartbeatResponse.write (Binary.protocol .transportException (.protocolException "malformed"))
        { executorStatus := 2, isSetExecutorStatus := true, jobEvents := some [nestedEvent] } = .ok units ∧
      Decodes (HeartbeatResponse.read (Binary.protocol .transportException (.protocolException "malformed"))) units
        { executorStatus := 2, isSetExecutorStatus := true, jobEvents := some [nestedEvent] } :=
  (accepted_again Binary.lawful Binary.shrinking).1
    ([6, 0, 2, 1, 1, 8, 0, 1, 0, 0, 0, 2, 15, 0, 2, 12, 0, 0, 0, 1] ++ nestedBytes ++ [0]) [] _ rfl

end Hella.Messages
