import Mathlib.Data.List.Infix
import RibMap.Text.Cut

/-! # Occurrences of a word

Occurrences of a word in a text may overlap only if some proper part of the word stands both at its
start and at its end. Of a word without such a border the occurrences lie apart. Then a text that
ends where an occurrence begins hides no other one that reaches across, and cutting out the first
occurrence leaves all the others as they were.
-/

namespace RibMap

theorem cutOut?_isSome_iff {word text : List Char} :
    (cutOut? word text).isSome ↔ word <:+: text := by
  induction text with
  | nil =>
    rw [cutOut?, Option.isSome_map, Option.isSome_iff_exists, List.infix_nil]
    simp only [afterWord?_eq_some_iff, List.nil_eq, List.append_eq_nil_iff, exists_eq_right]
  | cons c text ih =>
    rw [cutOut?, List.infix_cons_iff]
    split
    · rename_i rest found
      have start : word <+: c :: text := ⟨rest, (afterWord?_eq_some_iff.mp found).symm⟩
      simp only [Option.isSome_some, start, true_or]
    · rename_i missing
      have start : ¬ word <+: c :: text := by
        rintro ⟨rest, same⟩
        rw [afterWord?_eq_some_iff.mpr same.symm] at missing
        contradiction
      rw [Option.isSome_map, ih]
      simp only [start, false_or]

/-- A word does not occur before the place where it is cut out. -/
theorem not_infix_of_cutOut?_eq_some {word text before after : List Char} (proper : word ≠ [])
    (cut : cutOut? word text = some (before, after)) : ¬ word <:+: before := by
  induction text generalizing before with
  | nil =>
    simp only [cutOut?, Option.map_eq_some_iff, Prod.mk.injEq] at cut
    obtain ⟨rest, -, rfl, -⟩ := cut
    exact fun found => proper (List.infix_nil.mp found)
  | cons c text ih =>
    rw [cutOut?] at cut
    split at cut
    · cases cut
      exact fun found => proper (List.infix_nil.mp found)
    · rename_i missing
      simp only [Option.map_eq_some_iff, Prod.mk.injEq, Prod.exists] at cut
      obtain ⟨inner, rest, found, rfl, rfl⟩ := cut
      rw [List.infix_cons_iff, not_or]
      refine ⟨?_, ih found⟩
      rintro ⟨more, starts⟩
      have split : c :: text = word ++ (more ++ (word ++ rest)) := by
        rw [eq_of_cutOut?_eq_some found, ← List.append_assoc word more, starts]
        simp
      rw [afterWord?_eq_some_iff.mpr split] at missing
      contradiction

/-- A word with no border: nothing but the whole word stands both at its start and at its end. -/
structure Unbordered (word : List Char) : Prop where
  proper : word ≠ []
  alone : ∀ border, border ≠ [] → border <+: word → border <:+ word → border = word

/-- A word whose first letter stands nowhere else in it has no border. -/
theorem unbordered_of_notMem {first : Char} {word : List Char} (once : first ∉ word) :
    Unbordered (first :: word) := by
  refine ⟨List.cons_ne_nil first word, fun border proper starts ends => ?_⟩
  obtain ⟨c, border, rfl⟩ := List.exists_cons_of_ne_nil proper
  obtain ⟨rfl, -⟩ := List.cons_prefix_cons.mp starts
  rcases List.suffix_cons_iff.mp ends with whole | inner
  · exact whole
  · exact absurd (inner.subset List.mem_cons_self) once

/-- The number of places in a text where a word begins. -/
def occurrences (word text : List Char) : Nat :=
  text.tails.countP fun rest => decide (word <+: rest)

theorem occurrences_cons (word : List Char) (c : Char) (text : List Char) :
    occurrences word (c :: text) = occurrences word text + if word <+: c :: text then 1 else 0 := by
  simp only [occurrences, List.tails_cons, List.countP_cons, decide_eq_true_eq]

theorem occurrences_eq_zero {word text : List Char} (absent : ¬ word <:+: text) :
    occurrences word text = 0 := by
  refine List.countP_eq_zero.mpr fun rest mem starts => ?_
  have tail : rest <:+ text := (List.mem_tails rest text).mp mem
  exact absent ((of_decide_eq_true starts).isInfix.trans tail.isInfix)

namespace Unbordered

variable {word before : List Char}

theorem reverse (unbordered : Unbordered word) : Unbordered word.reverse := by
  refine ⟨List.reverse_ne_nil_iff.mpr unbordered.proper, fun border proper starts ends => ?_⟩
  have starts' : border.reverse <+: word := by rwa [← List.reverse_suffix, List.reverse_reverse]
  have ends' : border.reverse <:+ word := by rwa [← List.reverse_prefix, List.reverse_reverse]
  rw [← unbordered.alone _ (List.reverse_ne_nil_iff.mpr proper) starts' ends',
    List.reverse_reverse]

/-- The word does not begin within a text without it that is followed by the word: it would end
inside the word, and what it covers of the word would be a border. -/
theorem not_prefix_append (unbordered : Unbordered word) (absent : ¬ word <:+: before)
    (proper : before ≠ []) (after : List Char) : ¬ word <+: before ++ (word ++ after) := by
  rintro ⟨rest, joint⟩
  rcases List.append_eq_append_iff.mp joint with ⟨more, rfl, -⟩ | ⟨border, split, joint⟩
  · exact absent (List.prefix_append word more).isInfix
  · have ends : border <:+ word := ⟨before, split.symm⟩
    have starts : border <+: word :=
      List.prefix_of_prefix_length_le ⟨rest, joint.symm⟩ (List.prefix_append word after)
        ends.length_le
    by_cases empty : border = []
    · rw [empty, List.append_nil] at split
      exact absent (split ▸ List.infix_rfl)
    · have whole := unbordered.alone border empty starts ends
      rw [whole, List.self_eq_append_left] at split
      exact proper split

/-- The word does not begin within its own end. -/
theorem not_prefix_of_suffix (unbordered : Unbordered word) {inner : List Char}
    (ends : inner <:+ word) (proper : inner ≠ []) (part : inner ≠ word) (after : List Char) :
    ¬ word <+: inner ++ after := by
  intro starts
  have border : inner <+: word :=
    List.prefix_of_prefix_length_le (List.prefix_append inner after) starts ends.length_le
  exact part (unbordered.alone inner proper border ends)

/-- The word is cut out at the joint of a text without it and whatever follows. -/
theorem cutOut?_append (unbordered : Unbordered word) (absent : ¬ word <:+: before)
    (after : List Char) : cutOut? word (before ++ (word ++ after)) = some (before, after) := by
  induction before with
  | nil =>
    obtain ⟨first, rest, rfl⟩ := List.exists_cons_of_ne_nil unbordered.proper
    have start : afterWord? (first :: rest) (first :: (rest ++ after)) = some after :=
      afterWord?_eq_some_iff.mpr rfl
    simp only [List.nil_append, List.cons_append, cutOut?, start]
  | cons c before ih =>
    have missing : afterWord? word (c :: (before ++ (word ++ after))) = none := by
      rw [Option.eq_none_iff_forall_ne_some]
      intro rest found
      exact unbordered.not_prefix_append absent (List.cons_ne_nil c before) after
        ⟨rest, (afterWord?_eq_some_iff.mp found).symm⟩
    have later : ¬ word <:+: before := fun found => absent (List.infix_cons found)
    rw [List.cons_append, cutOut?, missing, ih later]
    rfl

theorem occurrences_suffix_append (unbordered : Unbordered word) {inner : List Char}
    (ends : inner <:+ word) (part : inner ≠ word) (after : List Char) :
    occurrences word (inner ++ after) = occurrences word after := by
  induction inner with
  | nil => rfl
  | cons c inner ih =>
    have shorter : inner <:+ word := (List.suffix_cons c inner).trans ends
    have part' : inner ≠ word := by
      rintro rfl
      exact Nat.not_succ_le_self _ ends.length_le
    have missing := unbordered.not_prefix_of_suffix ends (List.cons_ne_nil c inner) part after
    rw [List.cons_append] at missing
    rw [List.cons_append, occurrences_cons, if_neg missing, ih shorter part', Nat.add_zero]

/-- An occurrence behind a text without any is one more than there are behind it. -/
theorem occurrences_append (unbordered : Unbordered word) (absent : ¬ word <:+: before)
    (after : List Char) :
    occurrences word (before ++ (word ++ after)) = occurrences word after + 1 := by
  induction before with
  | nil =>
    obtain ⟨first, rest, rfl⟩ := List.exists_cons_of_ne_nil unbordered.proper
    have start : first :: rest <+: first :: (rest ++ after) :=
      List.prefix_append (first :: rest) after
    have inner := unbordered.occurrences_suffix_append (List.suffix_cons first rest)
      (List.cons_ne_self first rest).symm after
    rw [List.nil_append, List.cons_append, occurrences_cons, if_pos start, inner]
  | cons c before ih =>
    have missing := unbordered.not_prefix_append absent (List.cons_ne_nil c before) after
    rw [List.cons_append] at missing
    have later : ¬ word <:+: before := fun found => absent (List.infix_cons found)
    rw [List.cons_append, occurrences_cons, if_neg missing, ih later, Nat.add_zero]

end Unbordered

end RibMap
