import Hella.Lib.Exec
import Mathlib.Algebra.Group.Nat.Defs
import Mathlib.Data.List.Forall2

/-!
# Records on a wire

A record travels as its fields, each behind its type and its number, and a stop. The
reader of a record knows some numbers and the type it expects for each; it skips every
other field, so a peer may send more than this one knows. What a protocol does with one
header or one number is left open: `Protocol` lists its operations and `Lawful` says that
each reader takes off the input what the writer of that name puts on it. The results are
`readStruct_encodes`, that foreign fields anywhere between the known ones change nothing,
and `readFields_enough`, that the reader ends on every input.
-/
namespace Wire

open Exec

variable {β ε σ α γ : Type}

abbrev Reader (β ε α : Type) := EStateM ε (List β) α

/-- The reader takes exactly these units off the input, whatever follows them. -/
def Decodes (x : Reader β ε α) (units : List β) (a : α) : Prop := ∀ rest, x (units ++ rest) = .ok a rest

/-- No reader gives back more than it was given. -/
def Shrinks (x : Reader β ε α) : Prop := ∀ input a rest, x input = .ok a rest → rest.length ≤ input.length

/-- Whatever the reader returns, from any input, is such a value. -/
def Yields (x : Reader β ε α) (Q : α → Prop) : Prop := ∀ input a rest, x input = .ok a rest → Q a

namespace Decodes

variable {x : Reader β ε α} {f : α → Reader β ε γ} {units more : List β} {a : α} {c : γ}

theorem pure (a : α) : Decodes (Pure.pure a : Reader β ε α) [] a := fun _ => rfl

theorem bind (first : Decodes x units a) (second : Decodes (f a) more c) : Decodes (x >>= f) (units ++ more) c := by
  intro rest
  rw [List.append_assoc, bind_ok (first _)]
  exact second rest

/-- A last step that only computes. -/
theorem map (first : Decodes x units a) (g : α → γ) :
    Decodes (do let a ← x; return g a : Reader β ε γ) units (g a) := by
  intro rest
  rw [bind_ok (first rest)]
  rfl

end Decodes

namespace Shrinks

variable {x : Reader β ε α} {f : α → Reader β ε γ}

theorem pure (a : α) : Shrinks (Pure.pure a : Reader β ε α) := by
  intro input b rest returned
  cases returned
  exact Nat.le_refl _

theorem throw (e : ε) : Shrinks (MonadExcept.throw e : Reader β ε α) := by
  intro input b rest returned
  cases returned

theorem bind (first : Shrinks x) (second : ∀ a, Shrinks (f a)) : Shrinks (x >>= f) := by
  intro input c rest returned
  obtain ⟨a, middle, one, two⟩ := bind_returns returned
  exact Nat.le_trans (second a _ _ _ two) (first _ _ _ one)

theorem ite {p : Prop} [Decidable p] {y : Reader β ε α} (first : Shrinks x) (second : Shrinks y) :
    Shrinks (if p then x else y) := by
  split
  · exact first
  · exact second

end Shrinks

namespace Yields

variable {x : Reader β ε α} {f : α → Reader β ε γ} {Q : α → Prop} {R : γ → Prop}

theorem any (x : Reader β ε α) : Yields x fun _ => True := fun _ _ _ _ => True.intro

theorem pure {a : α} (holds : Q a) : Yields (Pure.pure a : Reader β ε α) Q := by
  intro input b rest returned
  cases returned
  exact holds

theorem throw (e : ε) : Yields (MonadExcept.throw e : Reader β ε α) Q := by
  intro input b rest returned
  cases returned

theorem bind (first : Yields x Q) (second : ∀ a, Q a → Yields (f a) R) : Yields (x >>= f) R := by
  intro input c rest returned
  obtain ⟨a, middle, one, two⟩ := bind_returns returned
  exact second a (first _ _ _ one) _ _ _ two

end Yields

/-! ### Protocols -/

inductive FieldType where
  | bool | byte | double | i16 | i32 | i64 | string | struct | map | set | list
  deriving DecidableEq, Repr

structure Protocol (β ε : Type) where
  writeStructBegin : List β
  writeStructEnd : List β
  writeFieldBegin : FieldType → Int16 → List β
  writeFieldEnd : List β
  writeFieldStop : List β
  writeListBegin : FieldType → Int32 → List β
  writeListEnd : List β
  writeI32 : Int32 → List β
  writeI64 : Int64 → List β
  writeString : String → List β
  readStructBegin : Reader β ε Unit
  readStructEnd : Reader β ε Unit
  /-- `none` is the stop -/
  readFieldBegin : Reader β ε (Option (FieldType × Int16))
  readFieldEnd : Reader β ε Unit
  readListBegin : Reader β ε (FieldType × Int32)
  readListEnd : Reader β ε Unit
  readI32 : Reader β ε Int32
  readI64 : Reader β ε Int64
  readString : Reader β ε String
  /-- reads over a value of that type -/
  skip : FieldType → Reader β ε Unit
  /-- what a header at the end of the input throws -/
  endOfInput : ε

/-- Lengths go into 32 bits with a sign. -/
def Short (n : Nat) : Prop := n < 2 ^ 31

namespace Protocol

structure Lawful (P : Protocol β ε) : Prop where
  structBegin : Decodes P.readStructBegin P.writeStructBegin ()
  structEnd : Decodes P.readStructEnd P.writeStructEnd ()
  fieldBegin : ∀ type id, Decodes P.readFieldBegin (P.writeFieldBegin type id) (some (type, id))
  fieldEnd : Decodes P.readFieldEnd P.writeFieldEnd ()
  fieldStop : Decodes P.readFieldBegin P.writeFieldStop none
  listBegin : ∀ type size, Decodes P.readListBegin (P.writeListBegin type size) (type, size)
  listEnd : Decodes P.readListEnd P.writeListEnd ()
  i32 : ∀ n, Decodes P.readI32 (P.writeI32 n) n
  i64 : ∀ n, Decodes P.readI64 (P.writeI64 n) n
  string : ∀ text : String, Short text.utf8ByteSize → Decodes P.readString (P.writeString text) text
  /-- no protocol can have read a longer text -/
  short : ∀ input text rest, P.readString input = .ok text rest → Short text.utf8ByteSize
  /-- a header takes room -/
  header : ∀ input field rest, P.readFieldBegin input = .ok (some field) rest → rest.length < input.length

/-- Every operation but the header of a field may also read nothing. -/
structure Shrinking (P : Protocol β ε) : Prop where
  structBegin : Shrinks P.readStructBegin
  structEnd : Shrinks P.readStructEnd
  fieldBegin : Shrinks P.readFieldBegin
  fieldEnd : Shrinks P.readFieldEnd
  listBegin : Shrinks P.readListBegin
  listEnd : Shrinks P.readListEnd
  i32 : Shrinks P.readI32
  i64 : Shrinks P.readI64
  string : Shrinks P.readString
  skip : ∀ type, Shrinks (P.skip type)

end Protocol

/-! ### Reading a record -/

/-- One case of the switch over field numbers. -/
structure Case (β ε σ : Type) where
  id : Int16
  type : FieldType
  read : σ → Reader β ε σ

section Reading

variable (P : Protocol β ε) (cases : List (Case β ε σ))

/-- A field of another type than the case's, or without a case, is skipped. -/
def switch (s : σ) (type : FieldType) (id : Int16) : Reader β ε σ :=
  match cases.find? (·.id = id) with
  | some case => if type = case.type then case.read s else do P.skip type; return s
  | none => do P.skip type; return s

/-- The loop over the fields. As a header takes a unit of the input, the loop with more
fuel than units ends by itself. -/
def readFields : Nat → σ → Reader β ε σ
  | 0, _ => throw P.endOfInput
  | fuel + 1, s => do
    match ← P.readFieldBegin with
    | none => return s
    | some (type, id) =>
      let s ← switch P cases s type id
      P.readFieldEnd
      readFields fuel s

def readStruct (s : σ) : Reader β ε σ := do
  P.readStructBegin
  let input ← get
  let s ← readFields P cases (input.length + 1) s
  P.readStructEnd
  return s

end Reading

/-- The elements of a list, one after the other. -/
def readElements (element : Reader β ε α) : Nat → Reader β ε (List α)
  | 0 => return []
  | n + 1 => do
    let a ← element
    let rest ← readElements element n
    return a :: rest

/-- The type of the elements is not looked at. Room for a negative number of them is
refused. -/
def readList (P : Protocol β ε) (negative : ε) (element : Reader β ε α) : Reader β ε (List α) := do
  let (_, size) ← P.readListBegin
  if size < 0 then throw negative
  else
    let elements ← readElements element size.toNatClampNeg
    P.readListEnd
    return elements

/-! ### Writing a record -/

structure RawField (β : Type) where
  type : FieldType
  id : Int16
  body : List β

def RawField.units (P : Protocol β ε) (field : RawField β) : List β :=
  P.writeFieldBegin field.type field.id ++ (field.body ++ P.writeFieldEnd)

def writeStruct (P : Protocol β ε) (fields : List (RawField β)) : List β :=
  P.writeStructBegin ++ ((fields.flatMap (RawField.units P) ++ P.writeFieldStop) ++ P.writeStructEnd)

def writeList (P : Protocol β ε) (type : FieldType) (elements : List (List β)) : List β :=
  P.writeListBegin type (Int32.ofNat elements.length) ++ (elements.flatten ++ P.writeListEnd)

/-! ### What the loop makes of a field -/

section Fields

variable (P : Protocol β ε) (cases : List (Case β ε σ))

/-- No case takes the field, and it can be skipped. -/
structure Foreign (field : RawField β) : Prop where
  untaken : ∀ case, cases.find? (·.id = field.id) = some case → field.type ≠ case.type
  skips : Decodes (P.skip field.type) field.body ()

/-- The case of that field reads it. -/
def Sets (s : σ) (field : RawField β) (t : σ) : Prop :=
  ∃ case, cases.find? (·.id = field.id) = some case ∧ field.type = case.type ∧ Decodes (case.read s) field.body t

/-- The fields, each read by its case, make `t` of `s`. -/
inductive Fills : σ → List (RawField β) → σ → Prop where
  | nil (s : σ) : Fills s [] s
  | cons {s t u : σ} {field : RawField β} {fields : List (RawField β)} (first : Sets cases s field t)
      (rest : Fills t fields u) : Fills s (field :: fields) u

/-- The fields as another peer may send them: in this order, with others in between. -/
inductive Padded : List (RawField β) → List β → Prop where
  | stop : Padded [] P.writeFieldStop
  | field (field : RawField β) {fields : List (RawField β)} {units : List β} (rest : Padded fields units) :
      Padded (field :: fields) (field.units P ++ units)
  | foreign (field : RawField β) {fields : List (RawField β)} {units : List β} (foreign : Foreign P cases field)
      (rest : Padded fields units) : Padded fields (field.units P ++ units)

/-- The units of a record with these fields, as another peer may send them. -/
def Encodes (fields : List (RawField β)) (units : List β) : Prop :=
  ∃ inner, Padded P cases fields inner ∧ units = P.writeStructBegin ++ (inner ++ P.writeStructEnd)

end Fields

section Results

variable {P : Protocol β ε} {cases : List (Case β ε σ)} {field : RawField β}
  {fields : List (RawField β)} {units : List β}
  {s t u : σ}

theorem switch_foreign (foreign : Foreign P cases field) :
    Decodes (switch P cases s field.type field.id) field.body s := by
  unfold switch
  split
  next case found =>
    rw [if_neg (foreign.untaken case found)]
    exact foreign.skips.map fun _ => s
  next => exact foreign.skips.map fun _ => s

theorem Sets.decodes (sets : Sets cases s field t) :
    Decodes (switch P cases s field.type field.id) field.body t := by
  obtain ⟨case, found, type, reads⟩ := sets
  unfold switch
  rw [found]
  simp only [if_pos type]
  exact reads

/-- One turn of the loop. -/
theorem readFields_field (lawful : P.Lawful) (taken : Decodes (switch P cases s field.type field.id) field.body t)
    {fuel : Nat} (rest : Decodes (readFields P cases fuel t) units u) :
    Decodes (readFields P cases (fuel + 1) s) (field.units P ++ units) u := by
  rw [readFields, RawField.units, List.append_assoc, List.append_assoc]
  exact (lawful.fieldBegin field.type field.id).bind (taken.bind (lawful.fieldEnd.bind rest))

theorem RawField.length_pos (lawful : P.Lawful) (field : RawField β) : 0 < (field.units P).length := by
  have room := lawful.header _ _ _ (lawful.fieldBegin field.type field.id [])
  rw [List.append_nil, List.length_nil] at room
  rw [RawField.units, List.length_append]
  omega

/-- The loop fills the record, whatever stands between its fields. -/
theorem readFields_padded (lawful : P.Lawful) (padded : Padded P cases fields units) {fuel : Nat}
    (enough : units.length < fuel) (fills : Fills cases s fields t) :
    Decodes (readFields P cases fuel s) units t := by
  induction padded generalizing fuel s with
  | stop =>
    obtain ⟨fuel, rfl⟩ := Nat.exists_eq_succ_of_ne_zero (Nat.ne_of_gt (Nat.zero_lt_of_lt enough))
    cases fills
    intro rest
    rw [readFields, bind_ok (lawful.fieldStop rest)]
    rfl
  | field field rest ih =>
    have room := field.length_pos lawful
    rw [List.length_append] at enough
    obtain ⟨fuel, rfl⟩ := Nat.exists_eq_succ_of_ne_zero (Nat.ne_of_gt (Nat.zero_lt_of_lt enough))
    cases fills with
    | cons first others => exact readFields_field lawful first.decodes (ih (by omega) others)
  | foreign field foreign rest ih =>
    have room := field.length_pos lawful
    rw [List.length_append] at enough
    obtain ⟨fuel, rfl⟩ := Nat.exists_eq_succ_of_ne_zero (Nat.ne_of_gt (Nat.zero_lt_of_lt enough))
    exact readFields_field lawful (switch_foreign foreign) (ih (by omega) fills)

/-- Foreign fields anywhere between the known ones change nothing. -/
theorem readStruct_encodes (lawful : P.Lawful) (encodes : Encodes P cases fields units)
    (fills : Fills cases s fields t) : Decodes (readStruct P cases s) units t := by
  obtain ⟨units, padded, rfl⟩ := encodes
  unfold readStruct
  refine lawful.structBegin.bind ?_
  intro rest
  rw [bind_ok (get_apply _), List.append_assoc]
  have enough : units.length < (units ++ (P.writeStructEnd ++ rest)).length + 1 := by
    rw [List.length_append]
    omega
  rw [bind_ok (readFields_padded lawful padded enough fills _), bind_ok (lawful.structEnd rest)]
  rfl

/-- What a writer of the record itself sends. -/
theorem padded_self (P : Protocol β ε) (cases : List (Case β ε σ)) (fields : List (RawField β)) :
    Padded P cases fields (fields.flatMap (RawField.units P) ++ P.writeFieldStop) := by
  induction fields with
  | nil => exact .stop
  | cons field fields ih =>
    rw [List.flatMap_cons, List.append_assoc]
    exact .field field ih

theorem encodes_writeStruct (P : Protocol β ε) (cases : List (Case β ε σ)) (fields : List (RawField β)) :
    Encodes P cases fields (writeStruct P fields) := ⟨_, padded_self P cases fields, rfl⟩

theorem Fills.append {before after : List (RawField β)} (first : Fills cases s before t)
    (second : Fills cases t after u) : Fills cases s (before ++ after) u := by
  induction first with
  | nil => exact second
  | cons one _ ih => exact .cons one (ih second)

theorem Fills.to (fills : Fills cases s fields t) (same : t = u) : Fills cases s fields u := same ▸ fills

theorem Fills.single (sets : Sets cases s field t) : Fills cases s [field] t := .cons sets (.nil t)

/-- A field that is sent when there is a value for it. -/
theorem Fills.toList {value : Option (RawField β)} (none_ : value = none → t = s)
    (some_ : ∀ field, value = some field → Sets cases s field t) : Fills cases s value.toList t := by
  cases value with
  | none =>
    rw [none_ rfl]
    exact .nil s
  | some field => exact .single (some_ field rfl)

/-! ### Lists -/

theorem readElements_decodes {element : Reader β ε α} {elements : List (List β)} {values : List α}
    (reads : List.Forall₂ (fun value units => Decodes element units value) values elements) :
    Decodes (readElements element values.length) elements.flatten values := by
  induction reads with
  | nil => exact .pure []
  | cons first _ ih => exact first.bind (ih.map _)

theorem readList_decodes (lawful : P.Lawful) {negative : ε} {element : Reader β ε α} {elements : List (List β)}
    {values : List α} (reads : List.Forall₂ (fun value units => Decodes element units value) values elements)
    (short : Short values.length) (type : FieldType) :
    Decodes (readList P negative element) (writeList P type elements) values := by
  have size : (Int32.ofNat elements.length).toInt = elements.length := by
    rw [reads.length_eq] at short
    exact Int32.toInt_ofNat_of_lt short
  have length : (Int32.ofNat elements.length).toNatClampNeg = values.length := by
    rw [← Int32.toNat_toInt, size, reads.length_eq]
    rfl
  have positive : ¬ Int32.ofNat elements.length < 0 := by
    rw [Int32.lt_iff_toInt_lt, size]
    exact Int.not_lt.mpr (Int.natCast_nonneg _)
  refine (lawful.listBegin type _).bind ?_
  simp only [if_neg positive, length]
  have ends : Decodes (do P.readListEnd; return values : Reader β ε (List α)) P.writeListEnd values :=
    lawful.listEnd.map fun _ => values
  exact (readElements_decodes reads).bind ends

/-! ### The loop ends -/

theorem shrinks_switch (shrinking : P.Shrinking) (cases_ : ∀ case ∈ cases, ∀ s, Shrinks (case.read s)) (s : σ)
    (type : FieldType) (id : Int16) : Shrinks (switch P cases s type id) := by
  have skips : Shrinks (do P.skip type; return s : Reader β ε σ) := (shrinking.skip type).bind fun _ => .pure s
  unfold switch
  split
  next case found => exact .ite (cases_ case (List.mem_of_find?_eq_some found) s) skips
  next => exact skips

/-- More fuel than there is input makes no difference. -/
theorem readFields_enough (lawful : P.Lawful) (shrinking : P.Shrinking)
    (cases_ : ∀ case ∈ cases, ∀ s, Shrinks (case.read s)) {fuel more : Nat} {input : List β}
    (enough : input.length < fuel) (longer : fuel ≤ more) (s : σ) :
    readFields P cases more s input = readFields P cases fuel s input := by
  induction fuel generalizing more s input with
  | zero => exact absurd enough (Nat.not_lt_zero _)
  | succ fuel ih =>
    obtain ⟨more, rfl⟩ := Nat.exists_eq_succ_of_ne_zero (Nat.ne_of_gt (Nat.lt_of_lt_of_le (Nat.succ_pos fuel) longer))
    simp only [readFields, bind_apply]
    split
    next header middle found =>
      cases header with
      | none => rfl
      | some field =>
        have room := lawful.header _ _ _ found
        simp only [bind_apply]
        split
        next t later taken =>
          have smaller := shrinks_switch shrinking cases_ s field.1 field.2 _ _ _ taken
          split
          next last ended =>
            have smallest := shrinking.fieldEnd _ _ _ ended
            exact ih (by omega) (by omega) t
          next => rfl
        next => rfl
    next => rfl

theorem shrinks_readFields (shrinking : P.Shrinking) (cases_ : ∀ case ∈ cases, ∀ s, Shrinks (case.read s)) (fuel : Nat)
    (s : σ) : Shrinks (readFields P cases fuel s) := by
  induction fuel generalizing s with
  | zero => exact .throw _
  | succ fuel ih =>
    rw [readFields]
    refine shrinking.fieldBegin.bind fun header => ?_
    split
    · exact .pure s
    · exact (shrinks_switch shrinking cases_ s _ _).bind fun t => shrinking.fieldEnd.bind fun _ => ih t

theorem shrinks_readStruct (shrinking : P.Shrinking) (cases_ : ∀ case ∈ cases, ∀ s, Shrinks (case.read s)) (s : σ) :
    Shrinks (readStruct P cases s) := by
  unfold readStruct
  refine shrinking.structBegin.bind fun _ => Shrinks.bind (fun input a rest same => ?_) fun input => ?_
  · cases same
    exact Nat.le_refl _
  · exact (shrinks_readFields shrinking cases_ _ s).bind fun t => shrinking.structEnd.bind fun _ => .pure t

theorem shrinks_readElements {element : Reader β ε α} (each : Shrinks element) (n : Nat) :
    Shrinks (readElements element n) := by
  induction n with
  | zero => exact .pure []
  | succ n ih => exact each.bind fun a => ih.bind fun rest => .pure _

theorem shrinks_readList (shrinking : P.Shrinking) {element : Reader β ε α} (each : Shrinks element) (negative : ε) :
    Shrinks (readList P negative element) := by
  unfold readList
  refine shrinking.listBegin.bind fun header => ?_
  exact .ite (.throw _) ((shrinks_readElements each _).bind fun _ => shrinking.listEnd.bind fun _ => .pure _)

/-! ### What was read -/

theorem yields_switch {I : σ → Prop} (keeps : ∀ case ∈ cases, ∀ s, I s → Yields (case.read s) I) (start : I s)
    (type : FieldType) (id : Int16) : Yields (switch P cases s type id) I := by
  have skips : Yields (do P.skip type; return s : Reader β ε σ) I := (Yields.any _).bind fun _ _ => .pure start
  unfold switch
  split
  next case found =>
    split
    · exact keeps case (List.mem_of_find?_eq_some found) s start
    · exact skips
  next => exact skips

/-- A condition that every case keeps holds of whatever the loop returns. -/
theorem yields_readFields {I : σ → Prop} (keeps : ∀ case ∈ cases, ∀ s, I s → Yields (case.read s) I) (fuel : Nat)
    (start : I s) : Yields (readFields P cases fuel s) I := by
  induction fuel generalizing s with
  | zero => exact .throw _
  | succ fuel ih =>
    rw [readFields]
    refine (Yields.any _).bind fun header _ => ?_
    split
    · exact .pure start
    · refine (yields_switch keeps start _ _).bind fun t kept => ?_
      exact (Yields.any _).bind fun _ _ => ih kept

theorem yields_readStruct {I : σ → Prop} (keeps : ∀ case ∈ cases, ∀ s, I s → Yields (case.read s) I) (start : I s) :
    Yields (readStruct P cases s) I := by
  unfold readStruct
  refine (Yields.any _).bind fun _ _ => (Yields.any _).bind fun input _ => ?_
  refine (yields_readFields keeps _ start).bind fun t kept => ?_
  exact (Yields.any _).bind fun _ _ => .pure kept

theorem yields_readElements {element : Reader β ε α} {Q : α → Prop} (each : Yields element Q) (n : Nat) :
    Yields (readElements element n) fun elements => elements.length = n ∧ ∀ a ∈ elements, Q a := by
  induction n with
  | zero => exact .pure ⟨rfl, by simp⟩
  | succ n ih =>
    refine each.bind fun a holds => ih.bind fun rest others => .pure ⟨?_, ?_⟩
    · rw [List.length_cons, others.1]
    · intro b member
      rcases List.mem_cons.mp member with rfl | later
      · exact holds
      · exact others.2 b later

theorem yields_readList {element : Reader β ε α} {Q : α → Prop} {negative : ε} (each : Yields element Q) :
    Yields (readList P negative element) fun elements => Short elements.length ∧ ∀ a ∈ elements, Q a := by
  unfold readList
  refine (Yields.any _).bind fun header _ => ?_
  obtain ⟨type, size⟩ := header
  by_cases below : size < 0
  · simp only [if_pos below]
    exact .throw _
  · simp only [if_neg below]
    refine (yields_readElements each _).bind fun elements found => (Yields.any _).bind fun _ _ => .pure ⟨?_, found.2⟩
    rw [found.1]
    exact Int32.toNatClampNeg_lt size

end Results

end Wire
