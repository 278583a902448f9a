import Hella.Engine.Dao
import Mathlib.Algebra.Group.Int.Defs
import Mathlib.Data.List.Basic
import Mathlib.Order.Basic

/-!
# Pages of a query

`findPage` passes the offset of the page to `BaseDao.findPage`, which reads it as the
number of a page: offsets up to one become zero. For pages of one row that shows the first
row twice; an offset of any other size is zero or at least two.
-/
namespace Hella.Dao

variable {α : Type}

/-- Consecutive pieces of one length make up a first part of the list. -/
theorem flatMap_pieces (rows : List α) (k p : Nat) :
    (List.range p).flatMap (fun i => (rows.drop (i * k)).take k) = rows.take (p * k) := by
  induction p with
  | zero => simp
  | succ p ih =>
    rw [List.range_succ, List.flatMap_append, ih, Nat.succ_mul, List.take_add]
    simp

/-- The page with this number. -/
def pageOf (rows : List α) (s pageNo : Int) : Page α := findPage rows (Page.construct pageNo s)

def totalPages (rows : List α) (s : Int) : Int := (pageOf rows s 1).getTotalPages

/-- The pages make up the rows in order, and each but the last is full. -/
structure Partitioned (rows : List α) (s : Int) : Prop where
  concatenates : (List.range (totalPages rows s).toNat).flatMap
    (fun i : Nat => (pageOf rows s ((i : Int) + 1)).result) = rows
  full : ∀ pageNo, 1 ≤ pageNo → pageNo < totalPages rows s → ((pageOf rows s pageNo).result.length : Int) = s

section Sizes

variable {rows : List α} {k : Nat}

theorem pageOf_of_ne_nil (some_ : rows ≠ []) (positive : 0 < k) (pageNo : Int) :
    pageOf rows k pageNo =
      { pageNo := (Page.construct pageNo k : Page α).pageNo
        pageSize := k
        totalCount := rows.length
        result := findRows rows (toInt (((Page.construct pageNo k : Page α).pageNo - 1) * k)) k } := by
  have count : 0 < rows.length := List.length_pos_iff.mpr some_
  have size : (Page.construct pageNo k : Page α).pageSize = k := if_neg (by omega)
  calc pageOf rows k pageNo = _ := if_pos (by omega)
    _ = _ := by rw [size]

theorem totalPages_nil (s : Int) : totalPages ([] : List α) s = -1 := rfl

/-- There are as many pages as it takes, and no more. -/
theorem totalPages_spec (some_ : rows ≠ []) (positive : 0 < k) :
    ∃ p : Nat, totalPages rows k = p + 1 ∧ p * k < rows.length ∧ rows.length ≤ (p + 1) * k := by
  have count : 0 < rows.length := List.length_pos_iff.mpr some_
  have pages : totalPages rows k = if rows.length % k > 0 then ((rows.length / k + 1 : Nat) : Int)
    else (rows.length / k : Nat) := by
    rw [totalPages, pageOf_of_ne_nil some_ positive]
    calc _ = _ := if_neg (by simp)
      _ = if ((rows.length % k : Nat) : Int) > 0 then ((rows.length / k : Nat) : Int) + 1
        else (rows.length / k : Nat) := rfl
      _ = _ := by split <;> split <;> omega
  have whole := Nat.div_add_mod rows.length k
  have below := Nat.mod_lt rows.length positive
  have product : (rows.length / k + 1) * k = k * (rows.length / k) + k := by rw [Nat.succ_mul, Nat.mul_comm]
  rw [pages]
  split
  next => exact ⟨rows.length / k, rfl, by rw [Nat.mul_comm]; omega, by omega⟩
  next =>
    -- the last page is full
    cases quotient : rows.length / k with
    | zero =>
      rw [quotient] at whole
      omega
    | succ p =>
      rw [quotient, Nat.mul_succ, Nat.mul_comm] at whole
      exact ⟨p, by simp, by omega, by rw [Nat.succ_mul]; omega⟩

/-- The rows of a page whose offset is in the range of an `int`. -/
theorem result_pageOf (some_ : rows ≠ []) (positive : 0 < k) (i : Nat) (range : i * k < 2 ^ 31) :
    (pageOf rows k (i + 1)).result = (rows.drop (if i * k ≤ 1 then 0 else i * k)).take k := by
  have number : (Page.construct (i + 1) k : Page α).pageNo = i + 1 :=
    show (if (i : Int) + 1 = 0 then (1 : Int) else i + 1) = i + 1 from if_neg (by omega)
  have offset : toInt ((((i : Int) + 1) - 1) * k) = ((i * k : Nat) : Int) := by
    rw [Int.add_sub_cancel, ← Int.natCast_mul]
    unfold toInt
    rw [Int.bmod_def]
    omega
  rw [pageOf_of_ne_nil some_ positive]
  simp only [number, offset, findRows, Int.toNat_natCast]
  congr 2
  split <;> split <;> omega

end Sizes

section Partition

variable {rows : List α} {k p : Nat}

/-- What the pages up to the last one hold, if the offset is used as it was computed. -/
theorem partitioned_of_offsets (pages : totalPages rows k = p + 1)
    (within : p * k < rows.length) (enough : rows.length ≤ (p + 1) * k)
    (offsets : ∀ i ≤ p, (pageOf rows k (i + 1)).result = (rows.drop (i * k)).take k) : Partitioned rows k := by
  constructor
  · have count : (totalPages rows k).toNat = p + 1 := by omega
    calc (List.range (totalPages rows k).toNat).flatMap (fun i : Nat => (pageOf rows k ((i : Int) + 1)).result)
        = (List.range (p + 1)).flatMap (fun i => (rows.drop (i * k)).take k) := by
          rw [count]
          apply List.flatMap_congr
          intro i member
          exact offsets i (by simpa [Nat.lt_succ_iff] using member)
      _ = rows.take ((p + 1) * k) := flatMap_pieces rows k (p + 1)
      _ = rows := List.take_of_length_le enough
  · intro pageNo first before
    obtain ⟨i, rfl⟩ : ∃ i : Nat, pageNo = i + 1 := ⟨(pageNo - 1).toNat, by omega⟩
    rw [offsets i (by omega)]
    -- a page before the last ends before the rows of the last begin
    have next : (i + 1) * k ≤ p * k := Nat.mul_le_mul_right k (by omega)
    rw [Nat.succ_mul] at next
    simp only [List.length_take, List.length_drop]
    omega

/-- With one row to a page, the second page is the first one again. -/
theorem pages_of_one (first second : α) (rest : List α) (range : (rest.length + 1) * 1 < 2 ^ 31) :
    (List.range (totalPages (first :: second :: rest) 1).toNat).flatMap
      (fun i : Nat => (pageOf (first :: second :: rest) 1 ((i : Int) + 1)).result) = first :: first :: rest := by
  have some_ : first :: second :: rest ≠ [] := List.cons_ne_nil _ _
  obtain ⟨p, pages, within, enough⟩ := totalPages_spec some_ Nat.one_pos
  -- one row a page makes one page more than the index of the last row
  have count : (totalPages (first :: second :: rest) 1).toNat = rest.length + 2 := by
    simp only [List.length_cons] at within enough
    have : (totalPages (first :: second :: rest) 1) = p + 1 := pages
    omega
  have results (i : Nat) (below : i < rest.length + 2) : (pageOf (first :: second :: rest) 1 (i + 1)).result =
      ((first :: second :: rest).drop (if i * 1 ≤ 1 then 0 else i * 1)).take 1 := by
    apply result_pageOf some_ Nat.one_pos
    omega
  rw [count]
  -- the second page starts at the first row again, and the later ones where they should
  calc _ = (List.range (rest.length + 2)).flatMap
        (fun i => ((first :: second :: rest).drop (if i * 1 ≤ 1 then 0 else i * 1)).take 1) := by
        apply List.flatMap_congr
        intro i member
        exact results i (List.mem_range.mp member)
    _ = first :: first :: (List.range rest.length).flatMap (fun i => (rest.drop (i * 1)).take 1) := by
        rw [List.range_succ_eq_map, List.range_succ_eq_map]
        simp [List.flatMap_map]
    _ = first :: first :: rest := by
        rw [flatMap_pieces]
        simp

end Partition

/-- Pages of two rows or more partition the rows, and so do pages of one row where the
first two rows are not told apart. -/
theorem partitioned_iff (rows : List α) (s : Int) (positive : 1 ≤ s) (range : (totalPages rows s - 1) * s < 2 ^ 31) :
    Partitioned rows s ↔ 2 ≤ s ∨ rows.length ≤ 1 ∨ rows[0]? = rows[1]? := by
  obtain ⟨k, rfl⟩ : ∃ k : Nat, s = k := ⟨s.toNat, by omega⟩
  by_cases none_ : rows = []
  · subst none_
    have pages : Partitioned ([] : List α) (k : Int) := by
      constructor
      · rfl
      · intro pageNo first before
        rw [totalPages_nil] at before
        omega
    exact iff_of_true pages (.inr (.inl (Nat.zero_le 1)))
  obtain ⟨p, pages, within, enough⟩ := totalPages_spec none_ (k := k) (by omega)
  have small : p * k < 2 ^ 31 := by
    rw [pages, Int.add_sub_cancel, ← Int.natCast_mul] at range
    omega
  -- the offset is used as it was computed unless it is one
  have offsets (i : Nat) (below : i ≤ p) (other : i * k ≠ 1) :
      (pageOf rows k (i + 1)).result = (rows.drop (i * k)).take k := by
    rw [result_pageOf none_ (by omega) i (Nat.lt_of_le_of_lt (Nat.mul_le_mul_right k below) small)]
    congr 2
    split <;> omega
  by_cases two : 2 ≤ k
  · apply iff_of_true _ (.inl (by omega))
    apply partitioned_of_offsets pages within enough
    intro i below
    apply offsets i below
    intro one
    have := Nat.eq_one_of_mul_eq_one_left one
    omega
  obtain rfl : k = 1 := by omega
  match rows with
  | [] => exact absurd rfl none_
  | [row] =>
    apply iff_of_true _ (.inr (.inl (Nat.le_refl 1)))
    apply partitioned_of_offsets pages within enough
    intro i below
    apply offsets i below
    simp only [List.length_singleton] at within
    omega
  | first :: second :: rest =>
    simp only [List.length_cons] at within enough
    have whole := pages_of_one first second rest (by omega)
    constructor
    · intro partitioned
      have same := partitioned.concatenates
      rw [Int.natCast_one, whole] at same
      simp only [List.cons.injEq, true_and, and_true] at same
      exact .inr (.inr (congrArg some same))
    · rintro (large | few | same)
      · omega
      · simp at few
      · obtain rfl : first = second := Option.some.inj same
        constructor
        · exact whole
        · intro pageNo start before
          obtain ⟨i, rfl⟩ : ∃ i : Nat, pageNo = i + 1 := ⟨(pageNo - 1).toNat, by omega⟩
          rw [result_pageOf none_ Nat.one_pos i (by omega)]
          simp only [List.length_take, List.length_drop, List.length_cons]
          split <;> omega

/-- Three rows make two pages of two. -/
theorem partitioned_three : Partitioned ["ann", "bob", "cid"] 2 :=
  (partitioned_iff ["ann", "bob", "cid"] 2 (by decide) (by decide)).mpr (.inl (by decide))

/-- Two pages of one row: both hold the first row. -/
theorem not_partitioned_two : totalPages ["ann", "bob"] 1 = 2 ∧ ¬ Partitioned ["ann", "bob"] 1 := by
  refine ⟨rfl, fun partitioned => ?_⟩
  have concatenates := partitioned.concatenates
  rw [show totalPages ["ann", "bob"] 1 = 2 from rfl] at concatenates
  revert concatenates
  decide

end Hella.Dao
