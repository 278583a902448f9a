import Mathlib.Data.Fintype.Card
import Mathlib.Logic.Function.Basic
import Mathlib.Logic.Relation
import Mathlib.Tactic.Common

/-!
# Monitors with one wait set

The threads of a monitor run its methods one at a time. A method whose condition does not
hold puts its thread into the wait set; a method that went through notifies one thread of
the set, whichever that is, which then tests its condition again. Over a bounded buffer
with one consumer no wake-up is lost as long as there are fewer than two producers to a
place of the buffer; from two producers on it can be lost.
-/
namespace Monitor

inductive Mode where
  | outside
  | waiting
  /-- taken from the wait set and not yet back in the monitor -/
  | notified
  deriving DecidableEq, Repr

structure State (τ σ : Type) where
  mode : τ → Mode
  store : σ

/-- The method each thread calls: when its condition makes it wait, and what it does. -/
structure Methods (τ σ : Type) where
  waits : τ → σ → Prop
  acts : τ → σ → σ → Prop

section Steps

variable {τ σ : Type} [DecidableEq τ]

/-- A thread that is not in the wait set calls its method or tests its condition again. -/
inductive Step (m : Methods τ σ) : State τ σ → State τ σ → Prop where
  | wait {s : State τ σ} {t : τ} (enters : s.mode t ≠ .waiting) (waits : m.waits t s.store) :
      Step m s { s with mode := Function.update s.mode t .waiting }
  /-- nobody is there to notify -/
  | act {s : State τ σ} {t : τ} {store : σ} (enters : s.mode t ≠ .waiting) (goes : ¬ m.waits t s.store)
      (acts : m.acts t s.store store) (nobody : ∀ u, s.mode u ≠ .waiting) :
      Step m s { mode := Function.update s.mode t .outside, store := store }
  | notify {s : State τ σ} {t u : τ} {store : σ} (enters : s.mode t ≠ .waiting) (goes : ¬ m.waits t s.store)
      (acts : m.acts t s.store store) (waiter : s.mode u = .waiting) :
      Step m s { mode := Function.update (Function.update s.mode t .outside) u .notified, store := store }

/-- Every thread inside waits for a notification, and one of them waits for what is there. -/
def LostWakeUp (m : Methods τ σ) (s : State τ σ) : Prop :=
  (∀ t, s.mode t ≠ .notified) ∧ ∃ t, s.mode t = .waiting ∧ ¬ m.waits t s.store

/-- The threads are outside, and the store is the given one. -/
def start (store : σ) : State τ σ := { mode := fun _ => .outside, store := store }

abbrev Reachable (m : Methods τ σ) (store : σ) (s : State τ σ) : Prop := Relation.ReflTransGen (Step m) (start store) s

end Steps

/-! ### Counting threads -/

section Counting

variable {ι : Type} [Fintype ι] [DecidableEq ι]

def count (f : ι → Mode) (k : Mode) : Nat := (Finset.univ.filter fun i => f i = k).card

omit [DecidableEq ι] in
theorem count_eq_zero {f : ι → Mode} {k : Mode} : count f k = 0 ↔ ∀ i, f i ≠ k := by
  simp [count, Finset.filter_eq_empty_iff]

omit [DecidableEq ι] in
theorem count_pos {f : ι → Mode} {k : Mode} {i : ι} (is : f i = k) : 0 < count f k := by
  apply Nat.pos_of_ne_zero
  intro none_
  exact count_eq_zero.mp none_ i is

/-- A thread that changes its mode leaves the count of the one and joins that of the other. -/
theorem count_update (f : ι → Mode) (i : ι) (m k : Mode) :
    count (Function.update f i m) k + (if f i = k then 1 else 0) = count f k + if m = k then 1 else 0 := by
  have split (g : ι → Mode) (same : ∀ j, j ≠ i → g j = f j) :
      count g k = ((Finset.univ.erase i).filter fun j => f j = k).card + if g i = k then 1 else 0 := by
    have rest : (Finset.univ.filter fun j => g j = k).erase i = (Finset.univ.erase i).filter fun j => f j = k := by
      ext j
      simp only [Finset.mem_erase, Finset.mem_filter, Finset.mem_univ, true_and, and_true]
      constructor
      · intro ⟨other, is⟩
        exact ⟨other, same j other ▸ is⟩
      · intro ⟨other, is⟩
        exact ⟨other, (same j other).symm ▸ is⟩
    unfold count
    rw [← rest]
    split
    next is => rw [Finset.card_erase_add_one (Finset.mem_filter.mpr ⟨Finset.mem_univ i, is⟩)]
    next is => rw [Finset.erase_eq_of_notMem (by simp [is]), Nat.add_zero]
  rw [split f fun _ _ => rfl, split (Function.update f i m) fun j other => Function.update_of_ne other _ _,
    Function.update_self]
  omega

theorem count_add_le (f : ι → Mode) : count f .waiting + count f .notified ≤ Fintype.card ι := by
  have disjoint : Disjoint (Finset.univ.filter fun i => f i = .waiting)
    (Finset.univ.filter fun i => f i = .notified) := by
    rw [Finset.disjoint_filter]
    intro i _ waiting notified
    rw [waiting] at notified
    cases notified
  rw [count, count, ← Finset.card_union_of_disjoint disjoint]
  exact Finset.card_le_univ _

end Counting

/-! ### A bounded buffer with one consumer -/

/-- The producers `some i` put into a buffer with `n` places what the consumer `none` takes
out. -/
structure Buffer {ι σ : Type} (m : Methods (Option ι) σ) (valid : σ → Prop) (size : σ → Nat) (n : Nat) : Prop where
  bounded : ∀ {s}, valid s → size s ≤ n
  full : ∀ {s i}, valid s → (m.waits (some i) s ↔ size s = n)
  empty : ∀ {s}, valid s → (m.waits none s ↔ size s = 0)
  put : ∀ {s s' i}, valid s → size s ≠ n → m.acts (some i) s s' → valid s' ∧ size s' = size s + 1
  take : ∀ {s s'}, valid s → size s ≠ 0 → m.acts none s s' → valid s' ∧ size s = size s' + 1
  puts : ∀ {s}, valid s → size s ≠ n → ∀ i, ∃ s', m.acts (some i) s s'
  takes : ∀ {s}, valid s → size s ≠ 0 → ∃ s', m.acts none s s'

namespace Buffer

variable {ι σ : Type} {m : Methods (Option ι) σ} {valid : σ → Prop} {size : σ → Nat} {n : Nat}

section Safe

variable [Fintype ι] [DecidableEq ι]

/-- How many producers are in this mode. -/
def producers (mode : Option ι → Mode) (k : Mode) : Nat := count (fun i => mode (some i)) k

theorem producers_some (mode : Option ι → Mode) (i : ι) (m k : Mode) :
    producers (Function.update mode (some i) m) k + (if mode (some i) = k then 1 else 0) =
      producers mode k + if m = k then 1 else 0 := by
  have same : (fun j => Function.update mode (some i) m (some j)) = Function.update (fun j => mode (some j)) i m := by
    funext j
    simp [Function.update_apply]
  unfold producers
  rw [same]
  exact count_update (fun j => mode (some j)) i m k

theorem producers_none (mode : Option ι → Mode) (m k : Mode) :
    producers (Function.update mode none m) k = producers mode k := rfl

/-- Producers wait only for a buffer that is full, if the notified ones are counted with
it. The consumer waits only while there is room for all producers that wait, and for what
is there only if a producer is notified. -/
structure Balanced (valid : σ → Prop) (size : σ → Nat) (n : Nat) (s : State (Option ι) σ) : Prop where
  valid : valid s.store
  producing : 0 < producers s.mode .waiting → n ≤ size s.store + producers s.mode .notified
  consuming : s.mode none = .waiting →
    producers s.mode .waiting + size s.store < n ∧ (size s.store = 0 ∨ 0 < producers s.mode .notified)

section Step

variable {s : State (Option ι) σ} {t u : Option ι} {store : σ}

theorem Balanced.wait (buffer : Buffer m valid size n) (positive : 0 < n) (few : Fintype.card ι < 2 * n)
    (balanced : Balanced valid size n s) (enters : s.mode t ≠ .waiting) (waits : m.waits t s.store) :
    Balanced valid size n { s with mode := Function.update s.mode t .waiting } := by
  obtain ⟨valid, producing, consuming⟩ := balanced
  have all := count_add_le fun i => s.mode (some i)
  cases t with
  | none =>
    -- the consumer waits for an empty buffer, which leaves less than half of the producers waiting
    have empty := (buffer.empty valid).mp waits
    refine ⟨valid, producing, fun _ => ?_⟩
    simp only [producers_none]
    unfold producers at *
    omega
  | some i =>
    have full := (buffer.full valid).mp waits
    refine ⟨valid, fun _ => by simp only; omega, fun waiting => ?_⟩
    have room := (consuming (by simpa using waiting)).1
    omega

theorem Balanced.act (buffer : Buffer m valid size n) (balanced : Balanced valid size n s) (goes : ¬ m.waits t s.store)
    (acts : m.acts t s.store store) (nobody : ∀ u, s.mode u ≠ .waiting) :
    Balanced valid size n { mode := Function.update s.mode t .outside, store := store } := by
  have idle : ∀ u, Function.update s.mode t .outside u ≠ .waiting := by
    intro u
    rw [Function.update_apply]
    split
    · simp
    · exact nobody u
  have none_ : producers (Function.update s.mode t .outside) .waiting = 0 := count_eq_zero.mpr fun i => idle (some i)
  constructor
  · cases t with
    | none => exact (buffer.take balanced.valid (fun zero => goes ((buffer.empty balanced.valid).mpr zero)) acts).1
    | some i => exact (buffer.put balanced.valid (fun full => goes ((buffer.full balanced.valid).mpr full)) acts).1
  · intro some_
    simp only at some_
    omega
  · intro waiting
    exact absurd waiting (idle none)

theorem Balanced.notify (buffer : Buffer m valid size n) (balanced : Balanced valid size n s)
    (enters : s.mode t ≠ .waiting)
    (goes : ¬ m.waits t s.store) (acts : m.acts t s.store store) (waiter : s.mode u = .waiting) :
    Balanced valid size n
      { mode := Function.update (Function.update s.mode t .outside) u .notified, store := store } := by
  obtain ⟨valid, producing, consuming⟩ := balanced
  have other : u ≠ t := fun same => enters (same ▸ waiter)
  have stays : Function.update s.mode t .outside u = .waiting := by rw [Function.update_of_ne other, waiter]
  cases t with
  | none =>
    obtain ⟨valid', taken⟩ := buffer.take valid (fun zero => goes ((buffer.empty valid).mpr zero)) acts
    cases u with
    | none => exact absurd rfl other
    | some j =>
      -- what the consumer takes out is made up for by the producer it notifies
      have waiting := producers_some (Function.update s.mode none .outside) j .notified .waiting
      have notified := producers_some (Function.update s.mode none .outside) j .notified .notified
      simp only [stays, producers_none] at waiting notified
      refine ⟨valid', fun _ => ?_, fun waits => ?_⟩
      · simp at waiting notified ⊢
        omega
      · simp at waits
  | some i =>
    obtain ⟨valid', put⟩ := buffer.put valid (fun full => goes ((buffer.full valid).mpr full)) acts
    have leftWaiting := producers_some s.mode i .outside .waiting
    have leftNotified := producers_some s.mode i .outside .notified
    simp [enters] at leftWaiting leftNotified
    cases u with
    | none =>
      refine ⟨valid', fun some_ => ?_, fun waits => ?_⟩
      · simp only [producers_none] at some_ ⊢
        split at leftNotified <;> omega
      · simp at waits
    | some j =>
      -- one producer less waits, for one product more
      have waiting := producers_some (Function.update s.mode (some i) .outside) j .notified .waiting
      have notified := producers_some (Function.update s.mode (some i) .outside) j .notified .notified
      simp [stays] at waiting notified
      refine ⟨valid', fun some_ => ?_, fun waits => ?_⟩
      · simp only
        split at leftNotified <;> omega
      · have before := consuming (by simpa using waits)
        simp only
        split at leftNotified <;> omega

end Step

theorem balanced_of_reachable (buffer : Buffer m valid size n) (positive : 0 < n) (few : Fintype.card ι < 2 * n)
    {store : σ} (fits : valid store) {s : State (Option ι) σ} (reachable : Reachable m store s) :
      Balanced valid size n s := by
  induction reachable with
  | refl =>
    refine ⟨fits, fun some_ => ?_, fun waiting => by cases waiting⟩
    rw [producers, count_eq_zero.mpr (by simp [start])] at some_
    omega
  | tail _ step ih =>
    cases step with
    | wait enters waits => exact ih.wait buffer positive few enters waits
    | act enters goes acts nobody => exact ih.act buffer goes acts nobody
    | notify enters goes acts waiter => exact ih.notify buffer enters goes acts waiter

/-- With fewer than two producers to a place no wake-up is lost. -/
theorem awake (buffer : Buffer m valid size n) (positive : 0 < n) (few : Fintype.card ι < 2 * n)
    {store : σ} (fits : valid store) {s : State (Option ι) σ} (reachable : Reachable m store s) : ¬ LostWakeUp m s := by
  rintro ⟨silent, t, waiting, ready⟩
  obtain ⟨valid', producing, consuming⟩ := balanced_of_reachable buffer positive few fits reachable
  have none_ : producers s.mode .notified = 0 := count_eq_zero.mpr fun i => silent (some i)
  have bounded := buffer.bounded valid'
  cases t with
  | none =>
    rw [buffer.empty valid'] at ready
    have := consuming waiting
    omega
  | some i =>
    rw [buffer.full valid'] at ready
    have pressed := producing (count_pos waiting)
    omega

end Safe

/-! ### Two producers to a place -/

section Unsafe

variable [DecidableEq ι]

/-- These producers change to a mode, one after the other. -/
def setting (producers : List ι) (k : Mode) (mode : Option ι → Mode) : Option ι → Mode :=
  producers.foldl (fun mode i => Function.update mode (some i) k) mode

theorem setting_some (producers : List ι) (k : Mode) (mode : Option ι → Mode) (i : ι) :
    setting producers k mode (some i) = if i ∈ producers then k else mode (some i) := by
  induction producers generalizing mode with
  | nil => simp [setting]
  | cons j rest ih =>
    have first : setting (j :: rest) k mode = setting rest k (Function.update mode (some j) k) := rfl
    rw [first, ih, Function.update_apply]
    by_cases same : i = j <;> simp [same]

theorem setting_none (producers : List ι) (k : Mode) (mode : Option ι → Mode) :
    setting producers k mode none = mode none := by
  induction producers generalizing mode with
  | nil => rfl
  | cons j rest ih =>
    have first : setting (j :: rest) k mode = setting rest k (Function.update mode (some j) k) := rfl
    rw [first, ih, Function.update_of_ne (by simp)]

theorem setting_update {producers : List ι} {i : ι} (other : i ∉ producers) (k l : Mode) (mode : Option ι → Mode) :
    setting producers k (Function.update mode (some i) l) = Function.update (setting producers k mode) (some i) l := by
  funext t
  cases t with
  | none => simp [setting_none]
  | some j =>
    rw [setting_some, Function.update_apply, Function.update_apply, setting_some]
    by_cases same : j = i
    · simp [same, other]
    · simp [same]

/-- A run leads to these modes and a buffer of this size. -/
def Leads (m : Methods (Option ι) σ) (valid : σ → Prop) (size : σ → Nat) (store : σ) (mode : Option ι → Mode)
    (k : Nat) : Prop :=
  ∃ s, Reachable m store s ∧ s.mode = mode ∧ valid s.store ∧ size s.store = k

section Leads

variable {store : σ} {mode : Option ι → Mode} {k : Nat}

theorem Leads.put (buffer : Buffer m valid size n) (leads : Leads m valid size store mode k) (room : k ≠ n) {i : ι}
    (enters : mode (some i) ≠ .waiting) (nobody : ∀ u, mode u ≠ .waiting) :
    Leads m valid size store (Function.update mode (some i) .outside) (k + 1) := by
  obtain ⟨s, reachable, rfl, fits, rfl⟩ := leads
  obtain ⟨store', acts⟩ := buffer.puts fits room i
  have goes : ¬ m.waits (some i) s.store := fun waits => room ((buffer.full fits).mp waits)
  have put := buffer.put fits room acts
  exact ⟨_, reachable.tail (.act enters goes acts nobody), rfl, put.1, put.2⟩

theorem Leads.putNotify (buffer : Buffer m valid size n) (leads : Leads m valid size store mode k)
    (room : k ≠ n) {i : ι} {u : Option ι} (enters : mode (some i) ≠ .waiting) (waiter : mode u = .waiting) :
    Leads m valid size store (Function.update (Function.update mode (some i) .outside) u .notified) (k + 1) := by
  obtain ⟨s, reachable, rfl, fits, rfl⟩ := leads
  obtain ⟨store', acts⟩ := buffer.puts fits room i
  have goes : ¬ m.waits (some i) s.store := fun waits => room ((buffer.full fits).mp waits)
  have put := buffer.put fits room acts
  exact ⟨_, reachable.tail (.notify enters goes acts waiter), rfl, put.1, put.2⟩

theorem Leads.takeNotify (buffer : Buffer m valid size n) (leads : Leads m valid size store mode (k + 1)) {u : Option ι}
    (enters : mode none ≠ .waiting) (waiter : mode u = .waiting) :
    Leads m valid size store (Function.update (Function.update mode none .outside) u .notified) k := by
  obtain ⟨s, reachable, rfl, fits, filled⟩ := leads
  have some_ : size s.store ≠ 0 := by omega
  obtain ⟨store', acts⟩ := buffer.takes fits some_
  have goes : ¬ m.waits none s.store := fun waits => some_ ((buffer.empty fits).mp waits)
  have take := buffer.take fits some_ acts
  exact ⟨_, reachable.tail (.notify enters goes acts waiter), rfl, take.1, show size store' = k by omega⟩

theorem Leads.putWait (buffer : Buffer m valid size n) (leads : Leads m valid size store mode n) {i : ι}
    (enters : mode (some i) ≠ .waiting) : Leads m valid size store (Function.update mode (some i) .waiting) n := by
  obtain ⟨s, reachable, rfl, fits, filled⟩ := leads
  exact ⟨_, reachable.tail (.wait enters ((buffer.full fits).mpr filled)), rfl, fits, filled⟩

theorem Leads.takeWait (buffer : Buffer m valid size n) (leads : Leads m valid size store mode 0)
    (enters : mode none ≠ .waiting) : Leads m valid size store (Function.update mode none .waiting) 0 := by
  obtain ⟨s, reachable, rfl, fits, emptied⟩ := leads
  exact ⟨_, reachable.tail (.wait enters ((buffer.empty fits).mpr emptied)), rfl, fits, emptied⟩

end Leads

section Phases

variable {store : σ} {mode : Option ι → Mode} {k : Nat}

/-- One producer fills the buffer. -/
theorem Leads.fill (buffer : Buffer m valid size n) (i : ι) (idle : ∀ t, mode t = .outside) :
    ∀ k ≤ n, Leads m valid size store mode 0 → Leads m valid size store mode k := by
  intro k below leads
  induction k with
  | zero => exact leads
  | succ k ih =>
    have put := (ih (by omega)).put buffer (by omega) (i := i) (by simp [idle]) (by simp [idle])
    rwa [← idle (some i), Function.update_eq_self] at put

/-- Producers that find the buffer full wait. -/
theorem Leads.waiting (buffer : Buffer m valid size n) (producers : List ι) (distinct : producers.Nodup)
    (enter : ∀ i ∈ producers, mode (some i) ≠ .waiting) (leads : Leads m valid size store mode n) :
    Leads m valid size store (setting producers .waiting mode) n := by
  induction producers generalizing mode with
  | nil => exact leads
  | cons i rest ih =>
    obtain ⟨fresh, distinct⟩ := List.nodup_cons.mp distinct
    apply ih distinct _ (leads.putWait buffer (enter i List.mem_cons_self))
    intro j member
    rw [Function.update_of_ne (by rintro ⟨⟩; exact fresh member)]
    exact enter j (List.mem_cons_of_mem _ member)

/-- The consumer takes and notifies a waiting producer each time. -/
theorem Leads.taking (buffer : Buffer m valid size n) (producers : List ι) (distinct : producers.Nodup)
    (wait : ∀ i ∈ producers, mode (some i) = .waiting) (outside : mode none = .outside)
    (leads : Leads m valid size store mode (k + producers.length)) :
    Leads m valid size store (setting producers .notified mode) k := by
  induction producers generalizing mode with
  | nil => exact leads
  | cons i rest ih =>
    obtain ⟨fresh, distinct⟩ := List.nodup_cons.mp distinct
    have taken := Leads.takeNotify buffer leads (by simp [outside]) (wait i List.mem_cons_self)
    rw [← outside, Function.update_eq_self] at taken
    apply ih distinct _ (by simpa using outside) taken
    intro j member
    rw [Function.update_of_ne (by rintro ⟨⟩; exact fresh member)]
    exact wait j (List.mem_cons_of_mem _ member)

/-- Notified producers put, and each notifies a waiting one. -/
theorem Leads.putting (buffer : Buffer m valid size n) (notified waiting : List ι)
    (many : notified.length = waiting.length)
    (distinct : (notified ++ waiting).Nodup) (enter : ∀ i ∈ notified, mode (some i) ≠ .waiting)
    (wait : ∀ i ∈ waiting, mode (some i) = .waiting) (room : k + notified.length ≤ n)
    (leads : Leads m valid size store mode k) :
    Leads m valid size store (setting waiting .notified (setting notified .outside mode)) (k + notified.length) := by
  induction notified generalizing mode k waiting with
  | nil =>
    rw [List.length_nil, eq_comm, List.length_eq_zero_iff] at many
    subst many
    exact leads
  | cons i rest ih =>
    match waiting with
    | [] => simp at many
    | j :: others =>
      obtain ⟨apartI, distinct⟩ := List.nodup_cons.mp distinct
      obtain ⟨apartJ, distinct⟩ := List.nodup_cons.mp (List.nodup_middle.mp distinct)
      replace apartI : i ∉ rest ++ j :: others := apartI
      simp only [List.mem_append, List.mem_cons, not_or] at apartI apartJ
      have put := leads.putNotify buffer (by simp at room; omega) (enter i List.mem_cons_self)
        (wait j List.mem_cons_self)
      -- the others keep the modes they had
      have same (x : ι) (notI : x ≠ i) (notJ : x ≠ j) :
          Function.update (Function.update mode (some i) .outside) (some j) .notified (some x) = mode (some x) := by
        simp [notI, notJ]
      have more := ih others (by simpa using many) distinct
        (fun x member => by
          rw [same x (by rintro rfl; exact apartI.1 member) (by rintro rfl; exact apartJ.1 member)]
          exact enter x (List.mem_cons_of_mem _ member))
        (fun x member => by
          rw [same x (by rintro rfl; exact apartI.2.2 member) (by rintro rfl; exact apartJ.2 member)]
          exact wait x (List.mem_cons_of_mem _ member))
        (by simp at room; omega) put
      rw [setting_update apartJ.1] at more
      rwa [show k + (i :: rest).length = k + 1 + rest.length by simp; omega]

end Phases

/-- From two producers to a place on a wake-up can be lost: the producers that follow the
waiting consumer notify each other. -/
theorem asleep [Fintype ι] (buffer : Buffer m valid size n) (positive : 0 < n)
    (many : 2 * n ≤ Fintype.card ι) {store : σ}
    (fits : valid store) (empty : size store = 0) : ∃ s, Reachable m store s ∧ LostWakeUp m s := by
  -- half of the producers are notified by the consumer, the others by these
  have parts : ∃ A B : List ι, A.length = n ∧ B.length = n ∧ (A ++ B).Nodup := by
    refine ⟨Finset.univ.toList.take n, (Finset.univ.toList.drop n).take n, ?_, ?_, ?_⟩
    · simp
      omega
    · simp
      omega
    · rw [← List.take_add]
      exact (List.take_sublist _ _).nodup (Finset.nodup_toList _)
  obtain ⟨A, B, lengthA, lengthB, distinct⟩ := parts
  obtain ⟨distinctA, distinctB, apart⟩ := List.nodup_append.mp distinct
  have others (i : ι) (member : i ∈ B) : i ∉ A := fun inA => apart i inA i member rfl
  obtain ⟨first, -⟩ : ∃ i, i ∈ A := List.exists_mem_of_length_pos (by omega)
  have idle : Leads m valid size store (fun _ => .outside) 0 := ⟨start store, .refl, rfl, fits, empty⟩
  have full := idle.fill buffer first (fun _ => rfl) n (Nat.le_refl n)
  let crowded : Option ι → Mode := setting (A ++ B) .waiting fun _ => .outside
  have leads : Leads m valid size store crowded n := full.waiting buffer (A ++ B) distinct (by simp)
  let called := setting A .notified crowded
  have leads : Leads m valid size store called 0 := by
    apply Leads.taking buffer A distinctA _ (setting_none _ _ _)
    · rwa [Nat.zero_add, lengthA]
    · intro i member
      simp [crowded, setting_some, member]
  let emptied := Function.update called none .waiting
  have leads : Leads m valid size store emptied 0 := leads.takeWait buffer (by simp [called, crowded, setting_none])
  let passed := setting B .notified (setting A .outside emptied)
  have leads : Leads m valid size store passed n := by
    have put := leads.putting buffer A B (lengthA.trans lengthB.symm) distinct
      (by intro i member; simp [emptied, called, setting_some, member])
      (by intro i member; simp [emptied, called, crowded, setting_some, member, others i member])
      (by omega)
    rwa [Nat.zero_add, lengthA] at put
  obtain ⟨s, reachable, mode, valid', size_⟩ := leads.waiting buffer B distinctB (by
    intro i member
    simp [passed, setting_some, member])
  refine ⟨s, reachable, ?_, none, ?_, ?_⟩
  · intro t
    rw [mode]
    cases t with
    | none => simp [setting_none, passed, emptied]
    | some i =>
      rw [setting_some]
      split
      · simp
      next notB =>
        by_cases inA : i ∈ A
        · simp [passed, setting_some, notB, inA]
        · simp [passed, emptied, called, crowded, setting_some, notB, inA]
  · rw [mode]
    simp [setting_none, passed, emptied]
  · rw [buffer.empty valid']
    omega

end Unsafe

end Buffer

end Monitor
