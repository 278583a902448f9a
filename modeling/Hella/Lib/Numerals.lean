import Hella.Lib.Text

/-!
# Numerals

The numerals that `String.valueOf` writes: which texts they are, and when two numbers
written one behind the other read like two others.
-/
namespace Text

/-- Only the numeral of zero begins with a zero. -/
theorem numeral_zero {n : Nat} {rest : List Char} (zero : (toString n).toList = '0' :: rest) : rest = [] := by
  rw [Nat.toString_eq_repr, Nat.toList_repr] at zero
  induction n using Nat.strongRecOn generalizing rest with
  | ind n ih =>
    by_cases small : n < 10
    · rw [Nat.toDigits_of_lt_base small] at zero
      exact (List.cons.inj zero).2.symm
    · rw [Nat.toDigits_of_base_le (by decide) (Nat.le_of_not_lt small)] at zero
      cases front : Nat.toDigits 10 (n / 10) with
      | nil => exact absurd front Nat.toDigits_ne_nil
      | cons c more =>
        rw [front, List.cons_append] at zero
        obtain ⟨rfl, -⟩ := List.cons.inj zero
        have none_ := ih (n / 10) (by omega) front
        subst none_
        have number : Nat.ofDigitChars 10 (Nat.toDigits 10 (n / 10)) 0 = n / 10 := Nat.ofDigitChars_ten_toDigits
        rw [front] at number
        have nothing : Nat.ofDigitChars 10 ['0'] 0 = 0 := by decide
        omega

theorem toDigits_inj {m n : Nat} (same : Nat.toDigits 10 m = Nat.toDigits 10 n) : m = n := by
  have numbers := congrArg (Nat.ofDigitChars 10 · 0) same
  simpa only [Nat.ofDigitChars_ten_toDigits] using numbers

theorem large_of_longer {v n : Nat} {d : Char} {ds : List Char}
    (longer : Nat.toDigits 10 n = Nat.toDigits 10 v ++ d :: ds) : 10 ≤ n := by
  by_contra small
  rw [Nat.toDigits_of_lt_base (Nat.lt_of_not_le small)] at longer
  have sizes := congrArg List.length longer
  have some_ : 0 < (Nat.toDigits 10 v).length := Nat.length_toDigits_pos
  simp only [List.length_append, List.length_cons, List.length_nil] at sizes
  omega

theorem digitChar_of_isDigit {c : Char} (digit : c.isDigit = true) : ∃ d < 10, Nat.digitChar d = c := by
  have range : 48 ≤ c.toNat ∧ c.toNat ≤ 57 := by
    simp only [Char.isDigit, ge_iff_le, Bool.and_eq_true, decide_eq_true_eq] at digit
    exact digit
  refine ⟨c.toNat - 48, by omega, ?_⟩
  have table : ∀ d < 10, Nat.digitChar d = Char.ofNat (d + 48) := by decide
  rw [table _ (by omega), Nat.sub_add_cancel range.1, Char.ofNat_toNat]

/-- Digits are a numeral if the first is not zero. -/
theorem exists_numeral {c : Char} {rest : List Char} (some_ : c ≠ '0') (digits : ∀ d ∈ c :: rest, d.isDigit = true) :
    ∃ n, 0 < n ∧ (toString (n : Nat)).toList = c :: rest := by
  simp only [Nat.toString_eq_repr, Nat.toList_repr]
  induction rest using List.reverseRecOn with
  | nil =>
    obtain ⟨d, small, rfl⟩ := digitChar_of_isDigit (digits c (List.mem_cons_self ..))
    refine ⟨d, Nat.pos_of_ne_zero fun zero => some_ (zero ▸ rfl), ?_⟩
    exact Nat.toDigits_of_lt_base small
  | append_singleton rest last ih =>
    obtain ⟨n, positive, same⟩ := ih fun d member => digits d (by simp at member ⊢; tauto)
    obtain ⟨d, small, rfl⟩ := digitChar_of_isDigit (digits last (by simp))
    refine ⟨10 * n + d, by omega, ?_⟩
    rw [← Nat.toDigits_append_toDigits (by decide) positive small, same, Nat.toDigits_of_lt_base small]
    rfl

theorem toList_negSucc (n : Nat) : (toString (Int.negSucc n)).toList = '-' :: (toString (n + 1)).toList := by
  change ("-" ++ toString (n + 1)).toList = _
  rw [String.toList_append]
  rfl

/-- Different numbers have different numerals. -/
theorem toString_int_inj {m n : Int} (same : (toString m).toList = (toString n).toList) : m = n := by
  have digits (k : Nat) : '-' ∉ (toString k).toList := fun member => absurd (isDigit_of_mem_toString member) (by decide)
  cases m with
  | ofNat m =>
    cases n with
    | ofNat n => exact congrArg Int.ofNat (toString_inj (String.toList_inj.mp same))
    | negSucc n =>
      rw [toList_negSucc] at same
      exact absurd (same ▸ List.mem_cons_self ..) (digits m)
  | negSucc m =>
    cases n with
    | ofNat n =>
      rw [toList_negSucc] at same
      exact absurd (same ▸ List.mem_cons_self ..) (digits n)
    | negSucc n =>
      rw [toList_negSucc, toList_negSucc] at same
      have inside := toString_inj (String.toList_inj.mp (List.cons.inj same).2)
      exact congrArg Int.negSucc (Nat.succ.inj inside)

/-- A numeral with at least one more character behind it is of a number ten times as large. -/
theorem ten_mul_le {v n : Nat} {d : Char} {ds : List Char}
    (longer : (toString n).toList = (toString v).toList ++ d :: ds) : 10 * v ≤ n := by
  simp only [Nat.toString_eq_repr, Nat.toList_repr] at longer
  induction ds using List.reverseRecOn generalizing n with
  | nil =>
    have large : 10 ≤ n := large_of_longer longer
    rw [Nat.toDigits_of_base_le (by decide) large] at longer
    have front := toDigits_inj (List.append_inj_left' longer rfl)
    omega
  | append_singleton ds last ih =>
    have large : 10 ≤ n := large_of_longer longer
    rw [Nat.toDigits_of_base_le (by decide) large, ← List.cons_append, ← List.append_assoc] at longer
    have less := ih (List.append_inj_left' longer rfl)
    omega

/-- Two different numbers with a number behind each of them read the same only if the numeral
of one goes on with a number, to which the number behind it goes on in turn. -/
theorem overlap_of_append_eq {m n : Int} {p q : Nat} (same : toString m ++ toString p = toString n ++ toString q)
    (differ : m ≠ n) :
    ∃ v : Nat, 0 < v ∧ ((toString n = toString m ++ toString v ∧ 10 * v ≤ p) ∨
      (toString m = toString n ++ toString v ∧ 10 * v ≤ q)) := by
  have overlap {m n : Int} {p q : Nat} {w : String} (differ : m ≠ n) (more : toString n = toString m ++ w)
      (less : toString p = w ++ toString q) :
        ∃ v : Nat, 0 < v ∧ toString n = toString m ++ toString v ∧ 10 * v ≤ p := by
    rw [← String.toList_inj, String.toList_append] at less
    cases chars : w.toList with
    | nil =>
      have empty : w = "" := String.toList_inj.mp chars
      subst empty
      exact absurd (toString_int_inj (by rw [more]; simp)) (Ne.symm differ)
    | cons c rest =>
      rw [chars] at less
      have some_ : c ≠ '0' := by
        -- the number behind would begin with a zero
        rintro rfl
        exact toString_toList_ne_nil q (List.append_eq_nil_iff.mp (numeral_zero less)).2
      have digits : ∀ d ∈ c :: rest, d.isDigit = true := by
        intro d member
        have member' : d ∈ (toString p).toList := by
          rw [less]
          exact List.mem_append_left _ member
        exact isDigit_of_mem_toString member'
      obtain ⟨v, positive, numeral⟩ := exists_numeral some_ digits
      have part : toString v = w := String.toList_inj.mp (numeral.trans chars.symm)
      obtain ⟨d, ds, behind⟩ := List.exists_cons_of_ne_nil (toString_toList_ne_nil q)
      rw [← numeral, behind] at less
      exact ⟨v, positive, part ▸ more, ten_mul_le less⟩
  obtain ⟨w, ⟨more, less⟩ | ⟨more, less⟩⟩ := (append_eq_append_iff_overlap _ _ _ _).mp same
  · obtain ⟨v, positive, goes⟩ := overlap differ more less
    exact ⟨v, positive, .inl goes⟩
  · obtain ⟨v, positive, goes⟩ := overlap (Ne.symm differ) more less
    exact ⟨v, positive, .inr goes⟩

theorem append_digit {v d : Nat} (positive : 0 < v) (digit : d < 10) :
    toString v ++ toString d = toString (10 * v + d) := by
  apply String.toList_inj.mp
  rw [String.toList_append]
  simp only [Nat.toString_eq_repr, Nat.toList_repr]
  exact Nat.toDigits_append_toDigits (by decide) positive digit

end Text
