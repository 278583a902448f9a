import Mathlib.Algebra.Group.Int.Defs
import Mathlib.Data.List.DropRight
import Mathlib.Data.List.Basic

/-!
# Text encodings

Decimal numerals and separator-joined lists as Java's library reads and writes
them: `String.split(",")`, `Integer.parseInt`, `StringUtils.isBlank`, and string
concatenation with a possibly null operand. The results are the two round trips
(`split_intercalate`, `parseInt_toString`) and the overlap law of concatenation
(`append_eq_append_iff_overlap`).
-/
namespace Text

/-- `String.split(",")`: without a comma the text is its only piece, and empty
pieces at the end are dropped. -/
def split (text : String) : List String :=
  if ',' ∈ text.toList then
    ((text.toList.splitOn ',').map String.ofList).rdropWhile (· == "")
  else [text]

def parseDigits (digits : List Char) : Option Int :=
  if digits ≠ [] ∧ digits.all Char.isDigit then some (Nat.ofDigitChars 10 digits 0) else none

/-- `Integer.parseInt` on texts that fit an `int`; `none` is NumberFormatException. -/
def parseInt (text : String) : Option Int :=
  match text.toList with
  | '-' :: digits => (parseDigits digits).map Neg.neg
  | '+' :: digits => parseDigits digits
  | digits => parseDigits digits

/-- `Character.isWhitespace`: control characters that separate, and spaces that may be broken at. -/
def isWhitespace (c : Char) : Bool :=
  decide (9 ≤ c.toNat ∧ c.toNat ≤ 13) || decide (28 ≤ c.toNat ∧ c.toNat ≤ 32) ||
    decide (0x2000 ≤ c.toNat ∧ c.toNat ≤ 0x200a ∧ c.toNat ≠ 0x2007) ||
    [0x1680, 0x2028, 0x2029, 0x205f, 0x3000].contains c.toNat

/-- `StringUtils.isBlank`. -/
def isBlank : Option String → Bool
  | none => true
  | some text => text.toList.all isWhitespace

def endsWith (text ending : String) : Bool := ending.toList.isSuffixOf text.toList

/-- The zeros of the decimal digits that `Character.digit` knows. -/
def zeros : List Nat :=
  [0x30, 0x660, 0x6f0, 0x7c0, 0x966, 0x9e6, 0xa66, 0xae6, 0xb66, 0xbe6, 0xc66, 0xce6, 0xd66, 0xde6, 0xe50, 0xed0,
   0xf20, 0x1040, 0x1090, 0x17e0, 0x1810, 0x1946, 0x19d0, 0x1a80, 0x1a90, 0x1b50, 0x1bb0, 0x1c40, 0x1c50, 0xa620,
   0xa8d0, 0xa900, 0xa9d0, 0xa9f0, 0xaa50, 0xabf0, 0xff10]

def digit (c : Char) : Option Nat :=
  (zeros.find? fun first => decide (first ≤ c.toNat) && decide (c.toNat < first + 10)).map (c.toNat - ·)

def digits : List Char → Option Nat
  | [] => none
  | cs => cs.foldlM (fun n c => (digit c).map (10 * n + ·)) 0

/-- `Integer.valueOf` on any text, as from Java 7 on: before that a leading `+` is refused too.
`none` is NumberFormatException. -/
def integerValueOf (text : String) : Option Int :=
  let number : Option Int :=
    match text.toList with
    | '-' :: rest => (digits rest).map fun n => -(n : Int)
    | '+' :: rest => (digits rest).map Int.ofNat
    | all => (digits all).map Int.ofNat
  number.filter fun n => decide (-2 ^ 31 ≤ n) && decide (n < 2 ^ 31)

/-- A sign, if there is one, and digits. -/
def decimal (text : String) : Option Int :=
  match text.toList with
  | '-' :: rest => (digits rest).map fun n => -(n : Int)
  | '+' :: rest => (digits rest).map Int.ofNat
  | all => (digits all).map Int.ofNat

theorem integerValueOf_eq (text : String) :
    integerValueOf text = (decimal text).filter fun n => decide (-2 ^ 31 ≤ n) && decide (n < 2 ^ 31) := rfl

/-- `Long.parseLong`, likewise from Java 7 on; `none` is NumberFormatException. -/
def parseLong (text : String) : Option Int :=
  (decimal text).filter fun n => decide (-2 ^ 63 ≤ n) && decide (n < 2 ^ 63)

/-- A text without the characters of a kind at either end. -/
def strip (kind : Char → Bool) (text : String) : String :=
  String.ofList ((text.toList.dropWhile kind).rdropWhile kind)

/-- `String.trim`: what is not above a space goes. -/
def trim (text : String) : String := strip (fun c => decide (c ≤ ' ')) text

/-- A null operand of a string concatenation reads as `null`. -/
def orNull (text : Option String) : String := text.getD "null"

/-- Joining nonempty comma-free names with commas is undone by `split`. -/
theorem split_intercalate (names : List String) (some_name : names ≠ [])
    (nonempty : ∀ name ∈ names, name ≠ "") (plain : ∀ name ∈ names, ',' ∉ name.toList) :
    split (",".intercalate names) = names := by
  have pieces : ((",".intercalate names).toList.splitOn ',').map String.ofList = names := by
    have joined : (",".intercalate names).toList = [','].intercalate (names.map String.toList) := by
      simp [String.toList_intercalate]
    rw [joined, List.splitOn_intercalate _ (by simpa using plain) (by simpa using some_name)]
    simp
  unfold split
  split
  next _ =>
    rw [pieces, List.rdropWhile_eq_self_iff]
    intro present
    have last := nonempty _ (List.getLast_mem present)
    simpa using last
  next absent =>
    rw [List.splitOn_eq_singleton absent, List.map_singleton, String.ofList_toList] at pieces
    exact pieces

theorem plain_of_mem_splitOnP {α : Type} {p : α → Bool} {xs piece : List α} (member : piece ∈ xs.splitOnP p) :
    ∀ x ∈ piece, p x = false := by
  induction xs generalizing piece with
  | nil => simp_all
  | cons x xs ih =>
    rw [List.splitOnP_cons_eq_if_modifyHead] at member
    split at member
    next => -- a separator closes an empty piece
      rcases List.mem_cons.mp member with rfl | member
      · simp
      · exact ih member
    next other =>
      cases pieces : xs.splitOnP p with
      | nil => simp [pieces] at member
      | cons first rest =>
        rw [pieces, List.modifyHead_cons] at member
        rcases List.mem_cons.mp member with rfl | member
        · have plain : ∀ y ∈ first, p y = false := ih (by simp [pieces])
          simpa [other] using plain
        · exact ih (by simp [pieces, member])

/-- No piece of a text that has a comma contains one. -/
theorem plain_of_mem_split {text piece : String} (comma : ',' ∈ text.toList) (member : piece ∈ split text) :
    ',' ∉ piece.toList := by
  rw [split, if_pos comma] at member
  have kept := (List.rdropWhile_prefix _ _).subset member
  obtain ⟨chars, inside, rfl⟩ := List.mem_map.mp kept
  rw [String.toList_ofList]
  intro present
  rw [List.splitOn_eq_splitOnP] at inside
  have other := plain_of_mem_splitOnP inside ',' present
  simp at other

theorem comma_mem_intercalate {names : List String} (several : 2 ≤ names.length) :
    ',' ∈ (",".intercalate names).toList := by
  match names, several with
  | first :: second :: rest, _ => simp [String.toList_intercalate]

/-- Several names without a comma, joined with commas: `split` drops the empty ones at the end. -/
theorem split_intercalate_of_plain {names : List String} (several : 2 ≤ names.length)
    (plain : ∀ name ∈ names, ',' ∉ name.toList) : split (",".intercalate names) = names.rdropWhile (· == "") := by
  have some_name : names ≠ [] := by
    intro none
    simp [none] at several
  have joined : (",".intercalate names).toList = [','].intercalate (names.map String.toList) := by
    simp [String.toList_intercalate]
  rw [split, if_pos (comma_mem_intercalate several), joined,
    List.splitOn_intercalate _ (by simpa using plain) (by simpa using some_name)]
  simp

/-- Joining two or more names with commas is undone by `split` exactly when no name has a
comma and the last one is not empty. -/
theorem split_intercalate_iff {names : List String} (several : 2 ≤ names.length) :
    split (",".intercalate names) = names ↔
      (∀ name ∈ names, ',' ∉ name.toList) ∧ names.getLast? ≠ some "" := by
  have some_name : names ≠ [] := by
    intro none
    simp [none] at several
  have last : names.rdropWhile (· == "") = names ↔ names.getLast? ≠ some "" := by
    rw [List.rdropWhile_eq_self_iff, List.getLast?_eq_some_getLast some_name]
    simp [some_name]
  constructor
  · intro same
    have plain : ∀ name ∈ names, ',' ∉ name.toList := by
      intro name member
      apply plain_of_mem_split (comma_mem_intercalate several)
      rwa [same]
    rw [split_intercalate_of_plain several plain] at same
    exact ⟨plain, last.mp same⟩
  · rintro ⟨plain, ends⟩
    rw [split_intercalate_of_plain several plain]
    exact last.mpr ends

theorem isDigit_of_mem_toString {n : Nat} {c : Char} (member : c ∈ (toString n).toList) :
    c.isDigit := by
  rw [Nat.toString_eq_repr, Nat.toList_repr] at member
  exact Nat.isDigit_of_mem_toDigits (by decide) (by decide) member

theorem toString_toList_ne_nil (n : Nat) : (toString n).toList ≠ [] := by
  rw [Nat.toString_eq_repr, Nat.toList_repr]
  exact Nat.toDigits_ne_nil

/-- A numeral written with `String.valueOf` is read back by `Integer.parseInt`. -/
theorem parseInt_toString (n : Nat) : parseInt (toString n) = some (n : Int) := by
  have digits : ∀ c ∈ (toString n).toList, c.isDigit := fun c => isDigit_of_mem_toString
  have read : parseDigits (toString n).toList = some (n : Int) := by
    have all : (toString n).toList ≠ [] ∧ (toString n).toList.all Char.isDigit :=
      ⟨toString_toList_ne_nil n, by simpa using digits⟩
    rw [parseDigits, if_pos all, Nat.toString_eq_repr, Nat.toList_repr, Nat.ofDigitChars_ten_toDigits]
  unfold parseInt
  split
  next rest same => exact absurd (digits '-' (by rw [same]; simp)) (by decide)
  next rest same => exact absurd (digits '+' (by rw [same]; simp)) (by decide)
  next => exact read

theorem toString_inj {m n : Nat} (same : toString m = toString n) : m = n := by
  have parsed := congrArg parseInt same
  rw [parseInt_toString, parseInt_toString] at parsed
  exact Int.ofNat_inj.mp (Option.some.inj parsed)

theorem isBlank_numeral (n : Nat) (text : String) : isBlank (some (toString n ++ text)) = false := by
  obtain ⟨c, rest, same⟩ := List.exists_cons_of_ne_nil (toString_toList_ne_nil n)
  have digit : c.isDigit := isDigit_of_mem_toString (n := n) (by rw [same]; simp)
  have visible : isWhitespace c = false := by
    have range : 48 ≤ c.toNat ∧ c.toNat ≤ 57 := by
      simp only [Char.isDigit, ge_iff_le, Bool.and_eq_true, decide_eq_true_eq] at digit
      exact digit
    unfold isWhitespace
    simp only [List.contains_cons, List.contains_nil, Bool.or_false, Bool.or_eq_false_iff, decide_eq_false_iff_not,
      beq_eq_false_iff_ne]
    omega
  simp only [isBlank, String.toList_append, same, List.cons_append, List.all_cons, visible,
    Bool.false_and]

theorem visible_of_digit {c : Char} {d : Nat} (read : digit c = some d) : isWhitespace c = false := by
  unfold digit at read
  obtain ⟨first, found, -⟩ := Option.map_eq_some_iff.mp read
  have member := List.mem_of_find?_eq_some found
  have range : first ≤ c.toNat ∧ c.toNat < first + 10 := by simpa using List.find?_some found
  have visible : ∀ first ∈ zeros, ∀ k < 10, ¬ (9 ≤ first + k ∧ first + k ≤ 13) ∧ ¬ (28 ≤ first + k ∧ first + k ≤ 32) ∧
      ¬ (0x2000 ≤ first + k ∧ first + k ≤ 0x200a) ∧ first + k ∉ [0x1680, 0x2028, 0x2029, 0x205f, 0x3000] := by
    decide
  obtain ⟨one, two, three, four⟩ := visible first member (c.toNat - first) (by omega)
  have same : first + (c.toNat - first) = c.toNat := by omega
  rw [same] at one two three four
  unfold isWhitespace
  simp only [Bool.or_eq_false_iff, decide_eq_false_iff_not, List.contains_eq_mem]
  exact ⟨⟨⟨one, two⟩, fun inside => three ⟨inside.1, inside.2.1⟩⟩, four⟩

theorem visible_of_digits {c : Char} {rest : List Char} {n : Nat} (read : digits (c :: rest) = some n) :
    isWhitespace c = false := by
  cases first : digit c with
  | none => simp [digits, first] at read
  | some d => exact visible_of_digit first

/-- A number is not blank. -/
theorem not_blank_of_integer {text : String} {n : Int} (read : integerValueOf text = some n) :
    isBlank (some text) = false := by
  unfold integerValueOf at read
  obtain ⟨number, -⟩ := Option.filter_eq_some_iff.mp read
  unfold isBlank
  rw [List.all_eq_false]
  cases chars : text.toList with
  | nil => simp [chars, digits] at number
  | cons c rest =>
    refine ⟨c, by simp, ?_⟩
    rw [Bool.not_eq_true]
    by_cases minus : c = '-'
    · subst minus
      decide
    · by_cases plus : c = '+'
      · subst plus
        decide
      · rw [chars] at number
        split at number
        next same => exact absurd (List.cons.inj same).1 minus
        next same => exact absurd (List.cons.inj same).1 plus
        next =>
          obtain ⟨d, read, -⟩ := Option.map_eq_some_iff.mp number
          exact visible_of_digits read

/-- Two concatenations agree exactly when one left part extends the other by a
text that the right part of the other begins with. -/
theorem append_eq_append_iff_overlap (f j f' j' : String) :
    f ++ j = f' ++ j' ↔
      ∃ w, (f' = f ++ w ∧ j = w ++ j') ∨ (f = f' ++ w ∧ j' = w ++ j) := by
  constructor
  · intro same
    have chars : f.toList ++ j.toList = f'.toList ++ j'.toList := by
      simpa only [String.toList_append] using congrArg String.toList same
    rcases List.append_eq_append_iff.mp chars with ⟨w, left, right⟩ | ⟨w, left, right⟩
    · refine ⟨String.ofList w, Or.inl ⟨?_, ?_⟩⟩ <;> apply String.toList_inj.mp <;>
        simpa only [String.toList_append, String.toList_ofList]
    · refine ⟨String.ofList w, Or.inr ⟨?_, ?_⟩⟩ <;> apply String.toList_inj.mp <;>
        simpa only [String.toList_append, String.toList_ofList]
  · rintro ⟨w, ⟨rfl, rfl⟩ | ⟨rfl, rfl⟩⟩ <;> simp [String.append_assoc]

/-- The same with a separator of one character between the parts: the parts agree, or a text
with a separator before or after it goes over from one part to the other. -/
theorem separated_eq_iff {separator : String} {c : Char} (one : separator.toList = [c]) (f j f' j' : String) :
    f ++ separator ++ j = f' ++ separator ++ j' ↔
      (f = f' ∧ j = j') ∨ ∃ u, (f' = f ++ separator ++ u ∧ j = u ++ separator ++ j') ∨
        (f = f' ++ separator ++ u ∧ j' = u ++ separator ++ j) := by
  -- an overlap is empty or begins with the separator, because the other right part does
  have overlap (f j f' j' : String) : (∃ w, f' = f ++ w ∧ separator ++ j = w ++ (separator ++ j')) ↔
      (f = f' ∧ j = j') ∨ ∃ u, f' = f ++ separator ++ u ∧ j = u ++ separator ++ j' := by
    constructor
    · rintro ⟨w, rfl, same⟩
      have chars := congrArg String.toList same
      simp only [String.toList_append, one, List.singleton_append] at chars
      cases parts : w.toList with
      | nil =>
        have empty : w = "" := String.toList_inj.mp parts
        subst empty
        left
        simpa [String.toList_inj] using chars
      | cons d u =>
        rw [parts, List.cons_append, List.cons.injEq] at chars
        obtain ⟨rfl, rest⟩ := chars
        right
        refine ⟨String.ofList u, ?_, ?_⟩ <;> apply String.toList_inj.mp
        · simp [parts, one]
        · simpa [one] using rest
    · rintro (⟨rfl, rfl⟩ | ⟨u, rfl, rfl⟩)
      · exact ⟨"", by simp, by simp⟩
      · exact ⟨separator ++ u, by simp [String.append_assoc], by simp [String.append_assoc]⟩
  rw [String.append_assoc, String.append_assoc, append_eq_append_iff_overlap]
  simp only [exists_or]
  rw [overlap f j f' j', overlap f' j' f j]
  constructor
  · rintro ((same | left_) | (⟨one, two⟩ | right_))
    · exact .inl same
    · exact .inr (.inl left_)
    · exact .inl ⟨one.symm, two.symm⟩
    · exact .inr (.inr right_)
  · rintro (same | left_ | right_)
    · exact .inl (.inl same)
    · exact .inl (.inr left_)
    · exact .inr (.inr right_)

/-- Left parts without the separator have nothing to give away. -/
theorem separated_eq_iff_plain {separator : String} {c : Char} (one : separator.toList = [c]) {f f' : String}
    (plain : c ∉ f.toList) (plain' : c ∉ f'.toList) (j j' : String) :
    f ++ separator ++ j = f' ++ separator ++ j' ↔ f = f' ∧ j = j' := by
  rw [separated_eq_iff one]
  constructor
  · rintro (same | ⟨u, ⟨rfl, -⟩ | ⟨rfl, -⟩⟩)
    · exact same
    · exact absurd (by simp [one]) plain'
    · exact absurd (by simp [one]) plain
  · exact fun same => .inl same

end Text
