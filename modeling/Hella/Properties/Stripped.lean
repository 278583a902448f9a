import Hella.Executor.HtmlTagFilter

/-!
# Text without tags

A `<` that the last expression of `Html2Text` leaves in the text is followed by a `>` at
once, or by none at all. Cutting out what comes behind it changes neither, so the text is
without tags after one pass, and without tags there is nothing for the other two
expressions either.
-/
namespace Hella

open Regex

namespace HtmlTagFilter

/-- No part of the text is a text of the expression for any tag. -/
def Tagless (text : Chars) : Prop := ∀ front tag back, text = front ++ tag ++ back → ¬ Matches regEx_html tag

variable {text tag front back rest : Chars} {u : UInt16}

/-! ### Tags -/

theorem matches_html_iff : Matches regEx_html tag ↔ ∃ first inner last, tag = first :: (inner ++ [last]) ∧
    char '<' first = true ∧ inner ≠ [] ∧ (∀ u ∈ inner, notClose u = true) ∧ char '>' last = true := by
  constructor
  · intro matched
    cases matched with
    | once opens later =>
      cases later with
      | greedy some_ all later =>
        cases later with
        | once closes later =>
          cases later
          exact ⟨_, _, _, rfl, opens, some_, all, closes⟩
  · rintro ⟨first, inner, last, rfl, opens, some_, all, closes⟩
    exact .once opens (.greedy some_ all (.once closes .nil))

theorem not_matches_nil : ¬ Matches regEx_html [] := by
  rintro ⟨⟩

/-- A character that does not open a tag stays. -/
theorem replaceAll_of_not_open (other : char '<' u = false) :
    replaceAll regEx_html (u :: rest) = u :: replaceAll regEx_html rest := by
  apply replaceAll_of_none
  simp [regEx_html, matchAt, other]

/-- A `<` that opens no tag has a `>` right behind it, or none at all. -/
theorem not_open_tag (opens : char '<' u = true) (none_ : matchAt regEx_html (u :: rest) = none) :
    (∃ close more, rest = close :: more ∧ char '>' close = true) ∨ ∀ v ∈ rest, notClose v = true := by
  cases behind : rest.dropWhile notClose with
  | nil =>
    right
    exact List.dropWhile_eq_nil_iff.mp behind
  | cons close more =>
    left
    have closes : char '>' close = true := by
      have stopped := List.dropWhile_get_zero_not notClose rest (by simp [behind])
      simpa [behind, notClose] using stopped
    have parts : rest = rest.takeWhile notClose ++ close :: more := by
      rw [← behind, List.takeWhile_append_dropWhile]
    cases inner : rest.takeWhile notClose with
    | nil =>
      rw [inner] at parts
      exact ⟨close, more, parts, closes⟩
    | cons v inner' =>
      -- with something in between it would be a tag
      have all : ∀ w ∈ rest.takeWhile notClose, notClose w = true := fun w => List.mem_takeWhile_imp
      have isTag : Matches regEx_html (u :: (rest.takeWhile notClose ++ [close])) :=
        matches_html_iff.mpr ⟨u, _, close, rfl, opens, by simp [inner], all, closes⟩
      have found := matchAt_complete isTag more
      have whole : u :: (rest.takeWhile notClose ++ [close]) ++ more = u :: rest := by
        simp [← parts]
      rw [whole, none_] at found
      cases found

theorem tagless_replaceAll (text : Chars) : Tagless (replaceAll regEx_html text) := by
  refine replaceAll_induction (P := fun _ result => Tagless result) not_matches_nil ?_ ?_ ?_ text
  -- an empty text has no tag
  · rintro front tag back same matched
    obtain ⟨-, rfl⟩ := List.append_eq_nil_iff.mp (List.append_eq_nil_iff.mp same.symm).1
    exact not_matches_nil matched
  -- a character that stays: a tag in the result begins with it or lies behind it
  · intro u rest none_ ih front tag back same matched
    cases front with
    | cons v front => exact ih front tag back (List.cons.inj same).2 matched
    | nil =>
      obtain ⟨first, inner, last, rfl, opens, some_, all, closes⟩ := matches_html_iff.mp matched
      obtain ⟨rfl, later⟩ := List.cons.inj same
      obtain ⟨close, more, rfl, closes'⟩ | open_ := not_open_tag opens none_
      · -- the `>` behind it stays there
        have stays : char '<' close = false := by
          simp only [char, beq_iff_eq, beq_eq_false_iff_ne] at closes' ⊢
          rw [closes']
          decide
        rw [replaceAll_of_not_open stays] at later
        obtain ⟨v, inner, rfl⟩ := List.exists_cons_of_ne_nil some_
        have head := (List.cons.inj later).1
        have inside := all v (List.mem_cons_self ..)
        rw [← head, notClose, closes'] at inside
        cases inside
      · -- no `>` comes in
        have member : last ∈ rest := by
          apply replaceAll_subset not_matches_nil rest
          rw [later]
          simp
        have inside := open_ last member
        rw [notClose, closes] at inside
        cases inside
  · exact fun _ _ _ ih => ih

/-! ### Elements begin with a tag -/

theorem word_ne_nil {name : String} (some_ : name.toList ≠ []) (matched : Matches (word name) text) : text ≠ [] := by
  obtain ⟨c, cs, same⟩ := List.exists_cons_of_ne_nil some_
  rw [word, same, List.map_cons] at matched
  cases matched
  exact List.cons_ne_nil _ _

theorem notClose_of_space (white : space u = true) : notClose u = true := by
  simp only [space, notClose, char, List.any_cons, List.any_nil, Bool.or_false, Bool.or_eq_true, beq_iff_eq,
    Bool.not_eq_true',
    beq_eq_false_iff_ne] at white ⊢
  rcases white with same | same | same | same | same | same <;> rw [same] <;> decide

theorem notClose_of_letter {c : Char} (small : 97 ≤ c.toNat) (same : letter c u = true) : notClose u = true := by
  simp only [letter, notClose, char, Bool.or_eq_true, beq_iff_eq, Bool.not_eq_true', beq_eq_false_iff_ne] at same ⊢
  have close : '>'.toNat = 62 := rfl
  omega

/-- An opening tag is a tag. -/
theorem matches_html_of_opening {name : String} (some_ : name.toList ≠ []) (small : ∀ c ∈ name.toList, 97 ≤ c.toNat)
    (matched : Matches (opening name) text) : Matches regEx_html text := by
  have parts : opening name = [⟨char '<', .once⟩] ++
    (([⟨space, .reluctant⟩] ++ word name ++ [⟨notClose, .reluctant⟩]) ++
      [⟨char '>', .once⟩]) := by
    simp [opening]
  rw [parts] at matched
  obtain ⟨front, back, rfl, opens, later⟩ := matched.split
  obtain ⟨inner, close, rfl, inside, closes⟩ := later.split
  have all : ∀ u ∈ inner, notClose u = true := by
    refine Matches.forall_mem (P := fun u => notClose u = true) (fun piece member u takes => ?_) inside
    simp only [List.cons_append, List.nil_append, List.mem_cons, List.mem_append, List.not_mem_nil, or_false, word,
      List.mem_map] at member
    rcases member with rfl | ⟨c, inName, rfl⟩ | rfl
    · exact notClose_of_space takes
    · exact notClose_of_letter (small c inName) takes
    · exact takes
  have nonempty : inner ≠ [] := by
    obtain ⟨begin_, more, rfl, spaces, -⟩ := inside.split
    obtain ⟨white, letters, rfl, -, named⟩ := spaces.split
    have some_letter := word_ne_nil some_ named
    simp [some_letter]
  obtain ⟨first, rfl, isOpen⟩ := opens.single
  obtain ⟨last, rfl, isClose⟩ := closes.single
  exact matches_html_iff.mpr ⟨first, inner, last, rfl, isOpen, nonempty, all, isClose⟩

theorem replaceAll_element {name : String} (some_ : name.toList ≠ []) (small : ∀ c ∈ name.toList, 97 ≤ c.toNat)
    (tagless : Tagless text) : replaceAll (element name) text = text := by
  refine replaceAll_eq_self fun front back same => matchAt_eq_none_iff.mpr fun match_ rest parts matched => ?_
  obtain ⟨tag, more, rfl, opens, -⟩ := Matches.split matched
  have whole : text = front ++ tag ++ (more ++ rest) := by
    rw [same, parts]
    simp
  exact tagless front tag _ whole (matches_html_of_opening some_ small opens)

theorem replaceAll_html (tagless : Tagless text) : replaceAll regEx_html text = text := by
  refine replaceAll_eq_self fun front back same => matchAt_eq_none_iff.mpr fun tag rest parts => ?_
  apply tagless front tag rest
  rw [same, parts, List.append_assoc]

/-- One pass leaves no tag, and a second pass has nothing to do. -/
theorem Html2Text_tagless (inputString : Option Chars) :
    Tagless (Html2Text inputString) ∧ Html2Text (some (Html2Text inputString)) = Html2Text inputString := by
  have tagless : Tagless (Html2Text inputString) := by
    cases inputString with
    | none => exact tagless_replaceAll []
    | some htmlStr => exact tagless_replaceAll _
  refine ⟨tagless, ?_⟩
  generalize Html2Text inputString = text at tagless
  rw [Html2Text, regEx_script, replaceAll_element (by simp) (by simp) tagless, regEx_style,
    replaceAll_element (by simp) (by simp) tagless, replaceAll_html tagless]

end HtmlTagFilter

/-- What an HTTP job with a result shows is without tags. -/
theorem HttpXjob.runInfo_tagless {o : Outside} (filter : o.html2Text = HtmlTagFilter.Html2Text)
    {send : JobEvent → Except Unit (Option Chars)} {cut : Chars → Chars} {jobEvent : JobEvent} {text : Chars}
    (success : (execute o send cut new jobEvent).jobPlanNodeState = some .resultSuccess)
    (shown : (execute o send cut new jobEvent).runInfo = some text) : HtmlTagFilter.Tagless text := by
  unfold execute at success shown
  split at success
  · cases success
  · rename_i some_content
    rw [if_neg some_content] at shown
    cases sent : send jobEvent with
    | error _ =>
      rw [sent] at success
      cases success
    | ok rs =>
      rw [sent] at shown
      simp only [filter, Option.some.injEq] at shown
      rw [← shown]
      exact (HtmlTagFilter.Html2Text_tagless _).1

end Hella
