import Hella.Executor.Xjobs

/-!
# The collected output of a shell job

A line is collected if it starts with the marker after `trim`, but the marker's length is
cut off the line as it came. Where blanks come before the marker, the end of the marker
stays in the text.
-/
namespace Hella.ShellXjob

/-- The trimmed line starts with the marker. -/
def Marked (line : Chars) : Prop := jobLogStart <+: Units.trim line

instance (line : Chars) : Decidable (Marked line) := inferInstanceAs (Decidable (jobLogStart <+: Units.trim line))

/-- No blank comes before what the line shows. -/
def Flush (line : Chars) : Prop := line.takeWhile Units.isBlank = []

instance (line : Chars) : Decidable (Flush line) := inferInstanceAs (Decidable (line.takeWhile Units.isBlank = []))

/-- What follows the marker in a marked line. -/
def textOf (line : Chars) : Chars := (line.dropWhile Units.isBlank).drop jobLogStart.length

/-- The texts of the marked lines, in order. -/
def texts (lines : List Chars) : Chars := (lines.filter (Marked ·)).flatMap textOf

/-- What the convention promises of the output, before it is cut. -/
def promised (lines : List Chars) : Chars := if texts lines = [] then lines.flatten else texts lines

/-- Every marked line is flush, at least among those whose texts fill the run info. -/
def Aligned (lines : List Chars) : Prop :=
  ∃ before, before <+: lines ∧ (∀ line ∈ before, Marked line → Flush line) ∧
    (before = lines ∨ xjobLogMaxLength ≤ (texts before).length)

section Lines

variable {line : Chars} {lines : List Chars}

theorem canCollector_iff : canCollector line = true ↔ Marked line := by
  unfold canCollector Marked
  rw [← List.isPrefixOf_iff_prefix]
  cases line with
  | nil => simp [Units.trim, jobLogStart]; decide
  | cons u rest => simp

/-- A marked line shows the marker at least. -/
theorem Marked.length (marked : Marked line) : jobLogStart.length ≤ (line.dropWhile Units.isBlank).length :=
  Nat.le_trans marked.length_le (List.rdropWhile_prefix Units.isBlank _).length_le

theorem collected_of_marked (marked : Marked line) : collected line = line.drop jobLogStart.length :=
  if_pos (canCollector_iff.mpr marked)

theorem collected_of_not_marked (plain : ¬ Marked line) : collected line = [] :=
  if_neg fun collects => plain (canCollector_iff.mp collects)

theorem collected_of_flush (marked : Marked line) (flush : Flush line) : collected line = textOf line := by
  have whole : line.dropWhile Units.isBlank = line := by
    conv_rhs => rw [← List.takeWhile_append_dropWhile (p := Units.isBlank) (l := line), flush]
    rfl
  rw [collected_of_marked marked, textOf, whole]

/-- The blanks before the marker are what is collected too much. -/
theorem length_collected (marked : Marked line) :
    (collected line).length = (textOf line).length + (line.takeWhile Units.isBlank).length := by
  have parts := congrArg List.length (List.takeWhile_append_dropWhile (p := Units.isBlank) (l := line))
  have shown := marked.length
  rw [List.length_append] at parts
  rw [collected_of_marked marked, textOf, List.length_drop, List.length_drop]
  omega

theorem texts_cons (line : Chars) (lines : List Chars) :
    texts (line :: lines) = (if Marked line then textOf line else []) ++ texts lines := by
  unfold texts
  by_cases marked : Marked line <;> simp [marked]

theorem texts_append (lines more : List Chars) : texts (lines ++ more) = texts lines ++ texts more := by
  simp [texts]

theorem flatMap_collected_of_flush (flush : ∀ line ∈ lines, Marked line → Flush line) :
    lines.flatMap collected = texts lines := by
  induction lines with
  | nil => rfl
  | cons line rest ih =>
    rw [List.flatMap_cons, texts_cons, ih fun other member => flush other (List.mem_cons_of_mem _ member)]
    by_cases marked : Marked line
    · rw [if_pos marked, collected_of_flush marked (flush line List.mem_cons_self marked)]
    · rw [if_neg marked, collected_of_not_marked marked]

/-- Lists that are no longer one by one are no longer together, and shorter where one is. -/
theorem length_flatMap_le {f g : Chars → Chars} (each : ∀ line, (f line).length ≤ (g line).length)
    (lines : List Chars) : (lines.flatMap f).length ≤ (lines.flatMap g).length ∧
      ((∃ line ∈ lines, (f line).length < (g line).length) → (lines.flatMap f).length < (lines.flatMap g).length) := by
  induction lines with
  | nil => simp
  | cons line rest ih =>
    have first := each line
    rw [List.flatMap_cons, List.flatMap_cons, List.length_append, List.length_append]
    refine ⟨by omega, ?_⟩
    rintro ⟨other, member, shorter⟩
    rcases List.mem_cons.mp member with rfl | later
    · omega
    · have more := ih.2 ⟨other, later, shorter⟩
      omega

theorem texts_eq (lines : List Chars) : texts lines = lines.flatMap fun line =>
    if Marked line then textOf line else [] := by
  induction lines with
  | nil => rfl
  | cons line rest ih => rw [texts_cons, ih, List.flatMap_cons]

/-- What is collected is longer than the texts where a marked line is not flush. -/
theorem length_texts_lt (indented : ∃ line ∈ lines, Marked line ∧ ¬ Flush line) :
    (texts lines).length < (lines.flatMap collected).length := by
  rw [texts_eq]
  apply (length_flatMap_le _ lines).2
  · obtain ⟨line, member, marked, notFlush⟩ := indented
    have some_ : 0 < (line.takeWhile Units.isBlank).length := List.length_pos_iff.mpr notFlush
    refine ⟨line, member, ?_⟩
    rw [if_pos marked, length_collected marked]
    omega
  · intro line
    split
    next marked => rw [length_collected marked]; omega
    next => exact Nat.zero_le _

/-- What is collected is shorter than all lines where one is marked. -/
theorem length_collected_lt (some_ : ∃ line ∈ lines, Marked line) :
    (lines.flatMap collected).length < lines.flatten.length := by
  have shown : ∀ line, Marked line → (collected line).length < line.length := by
    intro line marked
    have whole := Nat.le_trans marked.length (List.dropWhile_suffix Units.isBlank).length_le
    have positive : 0 < jobLogStart.length := by decide
    rw [collected_of_marked marked, List.length_drop]
    omega
  rw [← List.flatMap_id]
  apply (length_flatMap_le _ lines).2
  · obtain ⟨line, member, marked⟩ := some_
    exact ⟨line, member, shown line marked⟩
  · intro line
    by_cases marked : Marked line
    · exact Nat.le_of_lt (shown line marked)
    · rw [collected_of_not_marked marked]
      exact Nat.zero_le _

end Lines

section Runs

variable {o : Outside} {x : XjobFields} {name shellFile : String} {executeUser args : Option String}

/-- The run info of a script that was read to its end and has succeeded. -/
theorem runInfo_executeshell {process : ShellProcess}
    (started : o.exec (command executeUser shellFile args) = .ok process)
    (read : process.outputEnd = .ended) (exits : process.waitFor = .ok 0) :
    (executeshell o x name executeUser shellFile args).runInfo =
      some ((if process.output.flatMap collected = [] then process.output.flatten
        else process.output.flatMap collected).take xjobLogMaxLength) := by
  simp [executeshell, started, readOutput, read, readExit, exits]

/-- The run info is what the convention promises. -/
def Collects (o : Outside) (x : XjobFields) (name : String) (executeUser : Option String) (shellFile : String)
    (args : Option String) (lines : List Chars) : Prop :=
  (executeshell o x name executeUser shellFile args).runInfo = some ((promised lines).take xjobLogMaxLength)

/-- Aligned lines are collected as promised; and where the promised text is not cut, the
lines are collected only if all marked ones are flush. -/
theorem collects_iff (process : ShellProcess) (started : o.exec (command executeUser shellFile args) = .ok process)
    (read : process.outputEnd = .ended) (exits : process.waitFor = .ok 0) :
    (Aligned process.output → Collects o x name executeUser shellFile args process.output) ∧
      ((promised process.output).length < xjobLogMaxLength →
        (Collects o x name executeUser shellFile args process.output ↔ ∀ line ∈ process.output, Marked line →
          Flush line)) := by
  unfold Collects
  rw [runInfo_executeshell started read exits, Option.some_inj]
  generalize process.output = lines
  -- what is collected is what was promised if each marked line is a flush
  have flush (all : ∀ line ∈ lines, Marked line → Flush line) :
      (if lines.flatMap collected = [] then lines.flatten else lines.flatMap collected).take xjobLogMaxLength =
        (promised lines).take xjobLogMaxLength := by
    rw [flatMap_collected_of_flush all]
    rfl
  constructor
  · rintro ⟨before, ⟨after, rfl⟩, flushed, whole | full⟩
    · exact flush (by rwa [← whole])
    · -- the texts of the first lines fill the run info on either side
      have positive : 0 < xjobLogMaxLength := by decide
      have some_ : texts before ≠ [] := List.length_pos_iff.mp (by omega)
      have collected_ : (before ++ after).flatMap collected = texts before ++ after.flatMap collected := by
        rw [List.flatMap_append, flatMap_collected_of_flush flushed]
      rw [promised, texts_append, collected_, if_neg (by simp [some_]), if_neg (by simp [some_]),
        List.take_append_of_le_length full, List.take_append_of_le_length full]
  -- below the limit nothing is cut off, so a line that is no flush shows in the length
  · intro short
    refine ⟨fun same => ?_, flush⟩
    by_contra notFlush
    simp only [not_forall, exists_prop] at notFlush
    have longer := length_texts_lt notFlush
    have shorter := length_collected_lt (notFlush.imp fun line given => ⟨given.1, given.2.1⟩)
    have some_ : lines.flatMap collected ≠ [] := List.length_pos_iff.mp (by omega)
    have lengths := congrArg List.length same
    rw [if_neg some_, List.length_take, List.length_take] at lengths
    unfold promised at short lengths
    split at short
    next none_ =>
      rw [if_pos none_] at lengths
      omega
    next texts_ =>
      rw [if_neg texts_] at lengths
      omega

/-- Every script succeeds and prints these lines. -/
def printing (lines : List String) : Outside where
  userDir := "/opt/hella"
  date := "20140109"
  exec _ := .ok { output := lines.map Units.ofString, waitFor := .ok 0 }
  sendGet _ := .error ()
  sendPost _ _ := .error ()
  html2Text _ := []

/-- One line is marked and flush, the other is not marked. -/
theorem collects_done : Collects (printing ["working", "SCHED_JOB=done "]) new "load" none "/opt/load.sh" none
    (["working", "SCHED_JOB=done "].map Units.ofString) := by
  apply (collects_iff { output := ["working", "SCHED_JOB=done "].map Units.ofString, waitFor := .ok 0 } rfl rfl rfl).1
  exact ⟨_, List.prefix_rfl, by decide +kernel, .inl rfl⟩

/-- Two blanks before the marker: the end of the marker is collected with the text. -/
theorem not_collects_indented :
    (executeshell (printing ["  SCHED_JOB=done"]) new "load" none "/opt/load.sh" none).runInfo =
      some (Units.ofString "B=done") ∧
      ¬ Collects (printing ["  SCHED_JOB=done"]) new "load" none "/opt/load.sh" none
        (["  SCHED_JOB=done"].map Units.ofString) := by
  have collected : (executeshell (printing ["  SCHED_JOB=done"]) new "load" none "/opt/load.sh" none).runInfo =
      some (Units.ofString "B=done") := by decide +kernel
  refine ⟨collected, fun collects => ?_⟩
  have same := collected.symm.trans collects
  revert same
  decide +kernel

end Runs

end Hella.ShellXjob
