import Hella.Lib.Wire
import Mathlib.Algebra.Order.Group.Nat

/-!
# A binary protocol

Numbers big endian, a text behind its length, a field behind one byte of type and two of
number, and nothing where a record begins or ends.
-/
namespace Wire.Binary

open Exec

variable {ε : Type}

/-! ### Numbers -/

/-- The last `k` bytes of a number, the highest first. -/
def bigEndian : Nat → Nat → List UInt8
  | 0, _ => []
  | k + 1, n => UInt8.ofNat (n / 256 ^ k) :: bigEndian k n

def number (bytes : List UInt8) : Nat := bytes.foldl (fun n byte => n * 256 + byte.toNat) 0

theorem length_bigEndian (k n : Nat) : (bigEndian k n).length = k := by
  induction k with
  | zero => rfl
  | succ k ih => rw [bigEndian, List.length_cons, ih]

theorem foldl_number (bytes : List UInt8) (m : Nat) :
    bytes.foldl (fun n byte => n * 256 + byte.toNat) m = m * 256 ^ bytes.length + number bytes := by
  induction bytes generalizing m with
  | nil => simp [number]
  | cons byte rest ih =>
    simp only [number, List.foldl_cons, List.length_cons] at *
    rw [ih, ih (0 * 256 + byte.toNat), Nat.pow_succ, Nat.zero_mul, Nat.zero_add, Nat.add_mul, Nat.mul_assoc,
      Nat.mul_comm 256, Nat.add_assoc]

theorem number_bigEndian (k n : Nat) : number (bigEndian k n) = n % 256 ^ k := by
  induction k with
  | zero => simp [bigEndian, number, Nat.mod_one]
  | succ k ih =>
    have tail := foldl_number (bigEndian k n) (UInt8.ofNat (n / 256 ^ k)).toNat
    rw [ih, length_bigEndian] at tail
    rw [bigEndian, number, List.foldl_cons, Nat.zero_mul, Nat.zero_add, tail, Nat.mod_pow_succ, UInt8.toNat_ofNat',
      Nat.add_comm, Nat.mul_comm]

/-! ### Reading bytes -/

section

variable (short : ε)

/-- `short` when fewer are left. -/
def take (n : Nat) : Reader UInt8 ε (List UInt8) := fun input =>
  if n ≤ input.length then .ok (input.take n) (input.drop n) else .error short input

theorem take_decodes (bytes : List UInt8) : Decodes (take short bytes.length) bytes bytes := by
  intro rest
  rw [take, if_pos (by rw [List.length_append]; omega), List.take_left, List.drop_left]

theorem shrinks_take (n : Nat) : Shrinks (take short n) := by
  intro input a rest returned
  unfold take at returned
  split at returned
  · cases returned
    rw [List.length_drop]
    omega
  · cases returned

theorem yields_take (n : Nat) : Yields (take short n) fun bytes => bytes.length = n := by
  intro input bytes rest returned
  unfold take at returned
  split at returned
  next enough =>
    cases returned
    rw [List.length_take, Nat.min_eq_left enough]
  · cases returned

def readByte : Reader UInt8 ε UInt8 := do
  return UInt8.ofNat (number (← take short 1))

def writeI16 (n : Int16) : List UInt8 := bigEndian 2 n.toUInt16.toNat

def writeI32 (n : Int32) : List UInt8 := bigEndian 4 n.toUInt32.toNat

def writeI64 (n : Int64) : List UInt8 := bigEndian 8 n.toUInt64.toNat

def readI16 : Reader UInt8 ε Int16 := do
  return (UInt16.ofNat (number (← take short 2))).toInt16

def readI32 : Reader UInt8 ε Int32 := do
  return (UInt32.ofNat (number (← take short 4))).toInt32

def readI64 : Reader UInt8 ε Int64 := do
  return (UInt64.ofNat (number (← take short 8))).toInt64

/-- Read `k` bytes and make something of their number. -/
theorem number_decodes {α : Type} (k n : Nat) (f : Nat → α) :
    Decodes (do return f (number (← take short k)) : Reader UInt8 ε α) (bigEndian k n) (f (n % 256 ^ k)) := by
  have bytes := take_decodes short (bigEndian k n)
  rw [length_bigEndian] at bytes
  rw [← number_bigEndian]
  exact bytes.map fun bytes => f (number bytes)

theorem readI16_decodes (n : Int16) : Decodes (readI16 short) (writeI16 n) n := by
  have reads := number_decodes short 2 n.toUInt16.toNat fun m => (UInt16.ofNat m).toInt16
  rw [Nat.mod_eq_of_lt (by exact n.toUInt16.toNat_lt), UInt16.ofNat_toNat] at reads
  exact reads

theorem readI32_decodes (n : Int32) : Decodes (readI32 short) (writeI32 n) n := by
  have reads := number_decodes short 4 n.toUInt32.toNat fun m => (UInt32.ofNat m).toInt32
  rw [Nat.mod_eq_of_lt (by exact n.toUInt32.toNat_lt), UInt32.ofNat_toNat] at reads
  exact reads

theorem readI64_decodes (n : Int64) : Decodes (readI64 short) (writeI64 n) n := by
  have reads := number_decodes short 8 n.toUInt64.toNat fun m => (UInt64.ofNat m).toInt64
  rw [Nat.mod_eq_of_lt (by exact n.toUInt64.toNat_lt), UInt64.ofNat_toNat] at reads
  exact reads

theorem readByte_decodes (byte : UInt8) : Decodes (readByte short) [byte] byte := by
  have reads := number_decodes short 1 byte.toNat UInt8.ofNat
  rw [Nat.mod_eq_of_lt (by exact byte.toNat_lt), UInt8.ofNat_toNat] at reads
  have one : bigEndian 1 byte.toNat = [byte] := by simp [bigEndian]
  rw [one] at reads
  exact reads

end

/-! ### Texts -/

/-- `none` on bytes that are no UTF-8. -/
def text (bytes : List UInt8) : Option String :=
  if valid : (ByteArray.mk bytes.toArray).validateUTF8 = true then
    some (String.ofByteArray (ByteArray.mk bytes.toArray) (ByteArray.validateUTF8_eq_true_iff.mp valid))
  else none

def bytes (text : String) : List UInt8 := text.toByteArray.data.toList

theorem text_bytes (t : String) : text (bytes t) = some t := by
  have same : ByteArray.mk (bytes t).toArray = t.toByteArray := by
    rw [bytes, Array.toArray_toList]
  have valid : (ByteArray.mk (bytes t).toArray).validateUTF8 = true := by
    rw [same]
    exact ByteArray.validateUTF8_eq_true_iff.mpr t.isValidUTF8
  rw [text, dif_pos valid]
  congr 1

theorem length_of_text {list : List UInt8} {t : String} (same : text list = some t) : t.utf8ByteSize = list.length := by
  unfold text at same
  split at same
  · cases same
    rfl
  · cases same

/-! ### The protocol -/

def code : FieldType → UInt8
  | .bool => 2
  | .byte => 3
  | .double => 4
  | .i16 => 6
  | .i32 => 8
  | .i64 => 10
  | .string => 11
  | .struct => 12
  | .map => 13
  | .set => 14
  | .list => 15

def types : List FieldType := [.bool, .byte, .double, .i16, .i32, .i64, .string, .struct, .map, .set, .list]

def ofCode (byte : UInt8) : Option FieldType := types.find? (code · = byte)

theorem ofCode_code (type : FieldType) : ofCode (code type) = some type := by
  cases type <;> rfl

theorem code_ne_zero (type : FieldType) : code type ≠ 0 := by
  cases type <;> decide

section

variable (short malformed : ε)

def readFieldBegin : Reader UInt8 ε (Option (FieldType × Int16)) := do
  let byte ← readByte short
  if byte = 0 then return none
  else
    match ofCode byte with
    | some type => return some (type, ← readI16 short)
    | none => throw malformed

def readListBegin : Reader UInt8 ε (FieldType × Int32) := do
  let byte ← readByte short
  match ofCode byte with
  | some type => return (type, ← readI32 short)
  | none => throw malformed

/-- A length below zero is refused. -/
def readBytes : Reader UInt8 ε (List UInt8) := do
  let size ← readI32 short
  if size < 0 then throw malformed else take short size.toNatClampNeg

def readString : Reader UInt8 ε String := do
  match text (← readBytes short malformed) with
  | some t => return t
  | none => throw malformed

/-- Fuel is the depth and the number of the fields; the input has no more. What is left
of a record behind a field is skipped as a record. -/
def skip : Nat → FieldType → Reader UInt8 ε Unit
  | 0, _ => throw short
  | fuel + 1, type =>
    match type with
    | .bool | .byte => do let _ ← take short 1
    | .i16 => do let _ ← take short 2
    | .i32 => do let _ ← take short 4
    | .i64 | .double => do let _ ← take short 8
    | .string => do let _ ← readBytes short malformed
    | .struct => do
      match ← readFieldBegin short malformed with
      | none => return ()
      | some (type, _) =>
        skip fuel type
        skip fuel .struct
    | .list | .set => do
      let (type, size) ← readListBegin short malformed
      (List.range size.toNatClampNeg).forM fun _ => skip fuel type
    | .map => do
      let key ← readByte short
      let value ← readByte short
      let size ← readI32 short
      match ofCode key, ofCode value with
      | some key, some value => (List.range size.toNatClampNeg).forM fun _ => do
        skip fuel key
        skip fuel value
      | _, _ => throw malformed

def protocol : Protocol UInt8 ε where
  writeStructBegin := []
  writeStructEnd := []
  writeFieldBegin := fun type id => code type :: writeI16 id
  writeFieldEnd := []
  writeFieldStop := [0]
  writeListBegin := fun type size => code type :: writeI32 size
  writeListEnd := []
  writeI32 := writeI32
  writeI64 := writeI64
  writeString := fun t => writeI32 (Int32.ofNat t.utf8ByteSize) ++ bytes t
  readStructBegin := return ()
  readStructEnd := return ()
  readFieldBegin := readFieldBegin short malformed
  readFieldEnd := return ()
  readListBegin := readListBegin short malformed
  readListEnd := return ()
  readI32 := readI32 short
  readI64 := readI64 short
  readString := readString short malformed
  skip := fun type input => skip short malformed (input.length + 1) type input
  endOfInput := short

end

section

variable {short malformed : ε}

theorem readFieldBegin_decodes (type : FieldType) (id : Int16) :
    Decodes (readFieldBegin short malformed) (code type :: writeI16 id) (some (type, id)) := by
  refine Decodes.bind (readByte_decodes short _) ?_
  rw [if_neg (code_ne_zero type), ofCode_code]
  exact (readI16_decodes short id).map _

theorem readListBegin_decodes (type : FieldType) (size : Int32) :
    Decodes (readListBegin short malformed) (code type :: writeI32 size) (type, size) := by
  refine Decodes.bind (readByte_decodes short _) ?_
  rw [ofCode_code]
  exact (readI32_decodes short size).map _

theorem readBytes_decodes (t : String) (fits : Short t.utf8ByteSize) :
    Decodes (readBytes short malformed) (writeI32 (Int32.ofNat t.utf8ByteSize) ++ bytes t) (bytes t) := by
  have size : (Int32.ofNat t.utf8ByteSize).toInt = t.utf8ByteSize := Int32.toInt_ofNat_of_lt fits
  have length : (Int32.ofNat t.utf8ByteSize).toNatClampNeg = (bytes t).length := by
    rw [← Int32.toNat_toInt, size]
    rfl
  have positive : ¬ Int32.ofNat t.utf8ByteSize < 0 := by
    rw [Int32.lt_iff_toInt_lt, size]
    exact Int.not_lt.mpr (Int.natCast_nonneg _)
  refine (readI32_decodes short _).bind ?_
  rw [if_neg positive, length]
  exact take_decodes short (bytes t)

theorem readString_decodes (t : String) (fits : Short t.utf8ByteSize) :
    Decodes (readString short malformed) (writeI32 (Int32.ofNat t.utf8ByteSize) ++ bytes t) t := by
  rw [← List.append_nil (_ ++ bytes t)]
  refine (readBytes_decodes t fits).bind ?_
  rw [text_bytes]
  exact .pure t

theorem yields_readString : Yields (readString short malformed) fun t => Short t.utf8ByteSize := by
  have room : Yields (readBytes short malformed) fun list => Short list.length := by
    refine (Yields.any _).bind fun size _ => ?_
    split
    · exact .throw _
    · intro input list rest returned
      rw [yields_take short _ _ _ _ returned]
      exact Int32.toNatClampNeg_lt size
  refine room.bind fun list fits => ?_
  split
  next t same =>
    refine .pure ?_
    rw [length_of_text same]
    exact fits
  · exact .throw _

theorem shrinks_readByte : Shrinks (readByte short) := (shrinks_take short 1).bind fun _ => .pure _

theorem shrinks_readI16 : Shrinks (readI16 short) := (shrinks_take short 2).bind fun _ => .pure _

theorem shrinks_readI32 : Shrinks (readI32 short) := (shrinks_take short 4).bind fun _ => .pure _

theorem shrinks_readI64 : Shrinks (readI64 short) := (shrinks_take short 8).bind fun _ => .pure _

/-- What follows the type of a field. -/
theorem shrinks_header (byte : UInt8) :
    Shrinks (if byte = 0 then return none
      else match ofCode byte with
        | some type => do return some (type, ← readI16 short)
        | none => throw malformed : Reader UInt8 ε (Option (FieldType × Int16))) := by
  refine .ite (.pure _) ?_
  split
  · exact shrinks_readI16.bind fun id => .pure _
  · exact .throw _

theorem readByte_shorter {input rest : List UInt8} {byte : UInt8} (returned : readByte short input = .ok byte rest) :
    rest.length < input.length := by
  obtain ⟨list, middle, taken, last⟩ := bind_returns returned
  cases last
  unfold take at taken
  split at taken
  next enough =>
    cases taken
    rw [List.length_drop]
    omega
  · cases taken

theorem lawful : (protocol short malformed).Lawful where
  structBegin := .pure ()
  structEnd := .pure ()
  fieldBegin := readFieldBegin_decodes
  fieldEnd := .pure ()
  fieldStop := by
    refine Decodes.bind (readByte_decodes short 0) ?_
    exact .pure none
  listBegin := readListBegin_decodes
  listEnd := .pure ()
  i32 := readI32_decodes short
  i64 := readI64_decodes short
  string := readString_decodes
  short := yields_readString
  header := by
    intro input field rest returned
    obtain ⟨byte, middle, first, second⟩ := bind_returns returned
    exact Nat.lt_of_le_of_lt (shrinks_header byte _ _ _ second) (readByte_shorter first)

theorem shrinks_readFieldBegin : Shrinks (readFieldBegin short malformed) :=
  shrinks_readByte.bind shrinks_header

theorem shrinks_readListBegin : Shrinks (readListBegin short malformed) := by
  refine shrinks_readByte.bind fun byte => ?_
  split
  · exact shrinks_readI32.bind fun size => .pure _
  · exact .throw _

theorem shrinks_readBytes : Shrinks (readBytes short malformed) :=
  shrinks_readI32.bind fun _ => .ite (.throw _) (shrinks_take short _)

theorem shrinks_readString : Shrinks (readString short malformed) := by
  refine shrinks_readBytes.bind fun list => ?_
  split
  · exact .pure _
  · exact .throw _

theorem shrinks_forM {α : Type} {body : α → Reader UInt8 ε PUnit} (each : ∀ a, Shrinks (body a)) (items : List α) :
    Shrinks (items.forM body) := by
  induction items with
  | nil => exact .pure _
  | cons a rest ih => exact (each a).bind fun _ => ih

theorem shrinks_skip (fuel : Nat) (type : FieldType) : Shrinks (skip short malformed fuel type) := by
  have bytes (n : Nat) : Shrinks (do let _ ← take short n : Reader UInt8 ε Unit) :=
    (shrinks_take short n).bind fun _ => .pure ()
  induction fuel generalizing type with
  | zero => exact .throw _
  | succ fuel ih =>
    cases type with
    | bool | byte => exact bytes 1
    | i16 => exact bytes 2
    | i32 => exact bytes 4
    | i64 | double => exact bytes 8
    | string => exact shrinks_readBytes.bind fun _ => .pure ()
    | struct =>
      refine shrinks_readFieldBegin.bind fun header => ?_
      split
      · exact .pure ()
      next => exact (ih _).bind fun _ => ih _
    | list | set => exact shrinks_readListBegin.bind fun header => shrinks_forM (fun _ => ih _) _
    | map =>
      refine shrinks_readByte.bind fun key => ?_
      refine shrinks_readByte.bind fun value => ?_
      refine shrinks_readI32.bind fun size => ?_
      split
      next => exact shrinks_forM (fun _ => (ih _).bind fun _ => ih _) _
      · exact .throw _

theorem shrinking : (protocol short malformed).Shrinking where
  structBegin := .pure ()
  structEnd := .pure ()
  fieldBegin := shrinks_readFieldBegin
  fieldEnd := .pure ()
  listBegin := shrinks_readListBegin
  listEnd := .pure ()
  i32 := shrinks_readI32
  i64 := shrinks_readI64
  string := shrinks_readString
  skip := fun type input a rest returned => shrinks_skip _ type input a rest returned

/-- A text is skipped as a whole. -/
theorem skip_string (t : String) (fits : Short t.utf8ByteSize) :
    Decodes ((protocol short malformed).skip .string) ((protocol short malformed).writeString t) () := by
  intro rest
  exact (readBytes_decodes t fits).map (fun _ => ()) rest

end

end Wire.Binary
