import Hella.Lib.Xml

/-!
# Lexical forms

Two readers of one text agree where the form leaves nothing to choose. A schema takes
white space off a boolean or an integer and reads the rest; Java's `trim` takes off
more, and `Integer.valueOf` reads digits of every script but only so many of them.
-/
namespace Text

variable {kind : Char → Bool} {text : String}

/-! ### Stripped texts -/

theorem strip_sublist (kind : Char → Bool) (text : String) : (strip kind text).toList.Sublist text.toList := by
  rw [strip, String.toList_ofList]
  exact (List.rdropWhile_prefix kind _).sublist.trans (List.dropWhile_sublist kind)

theorem length_strip_le (kind : Char → Bool) (text : String) : (strip kind text).length ≤ text.length := by
  simpa only [String.length_toList] using (strip_sublist kind text).length_le

/-- A text that keeps its length is kept. -/
theorem strip_eq_self (long : text.length ≤ (strip kind text).length) : strip kind text = text := by
  apply String.toList_inj.mp
  exact (strip_sublist kind text).eq_of_length_le (by simpa only [String.length_toList] using long)

/-- What is stripped is padding of that kind. -/
theorem strip_parts (kind : Char → Bool) (text : String) :
    ∃ before after, text.toList = before ++ (strip kind text).toList ++ after ∧
      (∀ c ∈ before, kind c = true) ∧ ∀ c ∈ after, kind c = true := by
  refine ⟨text.toList.takeWhile kind, (text.toList.dropWhile kind).rtakeWhile kind, ?_, ?_, ?_⟩
  · rw [strip, String.toList_ofList, List.append_assoc, List.rdropWhile_append_rtakeWhile,
      List.takeWhile_append_dropWhile]
  · exact fun c member => List.mem_takeWhile_imp member
  · exact fun c member => List.mem_rtakeWhile_imp member

/-- Padding around a text without such characters is stripped, and no more. -/
theorem strip_padded {before after core : List Char} (padded : text.toList = before ++ core ++ after)
    (left_ : ∀ c ∈ before, kind c = true) (right_ : ∀ c ∈ after, kind c = true)
    (plain : ∀ c ∈ core, kind c = false) : strip kind text = String.ofList core := by
  rw [strip, padded, List.append_assoc, List.dropWhile_append_of_pos left_]
  cases core with
  | nil =>
    rw [List.nil_append, List.dropWhile_eq_nil_iff.mpr right_]
    rfl
  | cons c rest =>
    have first : kind c = false := plain c List.mem_cons_self
    rw [List.cons_append, List.dropWhile_cons_of_neg (by simp [first]), ← List.cons_append]
    rw [← List.reverse_reverse (c :: rest ++ after), List.rdropWhile_reverse, List.reverse_append,
      List.dropWhile_append_of_pos (by simpa using right_)]
    have stays : (c :: rest).reverse.dropWhile kind = (c :: rest).reverse := by
      apply List.dropWhile_eq_self_iff.mpr
      intro some_
      have member := List.mem_reverse.mp (List.getElem_mem some_)
      rw [plain _ member]
      exact Bool.false_ne_true
    rw [stays, List.reverse_reverse]

/-- Where the finer strip leaves nothing of the coarser kind, the two agree. -/
theorem strip_eq_strip {fine coarse : Char → Bool} (finer : ∀ c, fine c = true → coarse c = true)
    (plain : ∀ c ∈ (strip fine text).toList, coarse c = false) : strip coarse text = strip fine text := by
  obtain ⟨before, after, padded, left_, right_⟩ := strip_parts fine text
  have same := strip_padded padded (fun c member => finer c (left_ c member))
    (fun c member => finer c (right_ c member)) plain
  rwa [String.ofList_toList] at same

/-! ### Numerals -/

theorem digit_of_isDigit {c : Char} (ascii : c.isDigit = true) : digit c = some (c.toNat - '0'.toNat) := by
  have range : 48 ≤ c.toNat ∧ c.toNat ≤ 57 := by
    simp only [Char.isDigit, ge_iff_le, Bool.and_eq_true, decide_eq_true_eq] at ascii
    exact ascii
  have first : zeros.find? (fun first => decide (first ≤ c.toNat) && decide (c.toNat < first + 10)) = some 0x30 := by
    rw [zeros, List.find?_cons_of_pos]
    simp only [Bool.and_eq_true, decide_eq_true_eq]
    omega
  rw [digit, first]
  rfl

theorem foldlM_digits {cs : List Char} (ascii : ∀ c ∈ cs, c.isDigit = true) (n : Nat) :
    cs.foldlM (fun n c => (digit c).map (10 * n + ·)) n = some (Nat.ofDigitChars 10 cs n) := by
  induction cs generalizing n with
  | nil => simp
  | cons c rest ih =>
    rw [List.foldlM_cons, digit_of_isDigit (ascii c List.mem_cons_self), Nat.ofDigitChars_cons]
    exact ih (fun other member => ascii other (List.mem_cons_of_mem _ member)) _

theorem digits_of_parseDigits {cs : List Char} {n : Int} (read : parseDigits cs = some n) :
    (digits cs).map Int.ofNat = some n ∧ ∀ c ∈ cs, c.isDigit = true := by
  unfold parseDigits at read
  split at read
  next all =>
    have ascii : ∀ c ∈ cs, c.isDigit = true := by simpa using all.2
    refine ⟨?_, ascii⟩
    cases cs with
    | nil => exact absurd rfl all.1
    | cons c rest =>
      rw [digits, foldlM_digits ascii]
      · exact read
      · simp
  next => cases read

/-- ASCII numerals mean the same to both readers. -/
theorem decimal_of_parseInt {n : Int} (read : parseInt text = some n) :
    decimal text = some n ∧ ∀ c ∈ text.toList, c.isDigit = true ∨ c = '-' ∨ c = '+' := by
  unfold parseInt at read
  unfold decimal
  -- a minus, a plus or no sign: what follows are digits in all three cases
  split at read
  next rest same =>
    obtain ⟨m, number, rfl⟩ := Option.map_eq_some_iff.mp read
    obtain ⟨value, ascii⟩ := digits_of_parseDigits number
    rw [same]
    refine ⟨?_, ?_⟩
    · obtain ⟨k, found, rfl⟩ := Option.map_eq_some_iff.mp value
      simp [found]
    · intro c member
      rcases List.mem_cons.mp member with rfl | inside
      · exact .inr (.inl rfl)
      · exact .inl (ascii c inside)
  next rest same =>
    obtain ⟨value, ascii⟩ := digits_of_parseDigits read
    rw [same]
    refine ⟨value, fun c member => ?_⟩
    rcases List.mem_cons.mp member with rfl | inside
    · exact .inr (.inr rfl)
    · exact .inl (ascii c inside)
  next minus plus =>
    obtain ⟨value, ascii⟩ := digits_of_parseDigits read
    exact ⟨value, fun c member => .inl (ascii c member)⟩

theorem integerValueOf_of_parseInt {n : Int} (read : parseInt text = some n) :
    integerValueOf text = if -2 ^ 31 ≤ n ∧ n < 2 ^ 31 then some n else none := by
  rw [integerValueOf_eq, (decimal_of_parseInt read).1, Option.filter_some]
  simp [Bool.and_eq_true]

/-! ### Joined texts -/

section Joined

variable {f : String → String} (shorter : ∀ text, (f text).length ≤ text.length)
  (same : ∀ text, text.length ≤ (f text).length → f text = text)
include shorter

theorem length_intercalate_map_le (names : List String) :
    (",".intercalate (names.map f)).length ≤ (",".intercalate names).length := by
  induction names with
  | nil => exact Nat.le_refl _
  | cons name rest ih =>
    cases rest with
    | nil => simpa using shorter name
    | cons second rest =>
      simp only [List.map_cons, String.intercalate_cons_cons, String.length_append] at ih ⊢
      have first := shorter name
      omega

include same

/-- A join of shortened texts is the join of the texts only where none is shortened. -/
theorem intercalate_map_eq_iff (names : List String) :
    ",".intercalate (names.map f) = ",".intercalate names ↔ ∀ name ∈ names, f name = name := by
  constructor
  · intro joined
    induction names with
    | nil => simp
    | cons name rest ih =>
      cases rest with
      | nil => simpa using joined
      | cons second rest =>
        have more := length_intercalate_map_le shorter (second :: rest)
        simp only [List.map_cons, String.intercalate_cons_cons] at joined more ih
        have lengths := congrArg String.length joined
        simp only [String.length_append] at lengths
        have first : f name = name := same name (by omega)
        rw [first] at joined
        have others := String.append_right_inj _ |>.mp joined
        exact List.forall_mem_cons.mpr ⟨first, ih others⟩
  · intro kept
    rw [List.map_congr_left kept, List.map_id']

end Joined

end Text

namespace Xml

open Text

theorem isSpace_low (c : Char) (space : isSpace c = true) : decide (c ≤ ' ') = true := by
  simp only [isSpace, List.contains_eq_mem, List.mem_cons, List.not_mem_nil, or_false, decide_eq_true_eq] at space
  rcases space with rfl | rfl | rfl | rfl <;> decide

/-- Nothing low is left of a numeral, so `trim` takes off what a schema does. -/
theorem trim_eq_collapse_of_integer {text : String} {n : Int} (value : integerValue text = some n) :
    trim text = collapse text := by
  apply strip_eq_strip isSpace_low
  intro c member
  rcases (decimal_of_parseInt value).2 c member with ascii | rfl | rfl
  · simp only [Char.isDigit, ge_iff_le, Bool.and_eq_true, decide_eq_true_eq] at ascii
    have high : ¬ c ≤ ' ' := fun low => absurd (UInt32.le_trans ascii.1 low) (by decide)
    simpa using high
  · decide
  · decide

/-- A trimmed numeral is the same number. -/
theorem integerValue_trim {text : String} {n : Int} (value : integerValue text = some n) :
    integerValue (trim text) = some n := by
  have plain : ∀ c ∈ (collapse text).toList, isSpace c = false := by
    intro c member
    rcases (decimal_of_parseInt value).2 c member with ascii | rfl | rfl
    · by_contra space
      rw [Bool.not_eq_false] at space
      simp only [isSpace, List.contains_eq_mem, List.mem_cons, List.not_mem_nil, or_false, decide_eq_true_eq] at space
      rcases space with rfl | rfl | rfl | rfl <;> cases ascii
    · decide
    · decide
  have again : collapse (collapse text) = collapse text := by
    have bare : (collapse text).toList = [] ++ (collapse text).toList ++ [] := by simp
    have stripped := strip_padded bare (by simp) (by simp) plain
    rwa [String.ofList_toList] at stripped
  rw [trim_eq_collapse_of_integer value, integerValue, again]
  exact value

theorem trim_eq_collapse_of_boolean {text : String} {b : Bool} (value : booleanValue text = some b) :
    trim text = collapse text := by
  apply strip_eq_strip isSpace_low
  change ∀ c ∈ (collapse text).toList, decide (c ≤ ' ') = false
  have form : collapse text ∈ ["true", "1", "false", "0"] := by
    unfold booleanValue at value
    split at value
    next yes => rcases yes with same | same <;> simp [same]
    next =>
      split at value
      next no => rcases no with same | same <;> simp [same]
      next => cases value
  -- each of the four texts by itself: their characters are few
  simp only [List.mem_cons, List.not_mem_nil, or_false] at form
  rcases form with same | same | same | same <;> rw [same] <;> simp

end Xml
