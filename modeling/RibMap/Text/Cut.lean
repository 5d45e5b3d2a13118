/-! # Cutting texts

Cutting a word off the start of a text, at its first occurrence, or a text at every separator. Each
cut says exactly how the text is put together again.
-/

namespace RibMap

/-- What follows a word at the start of a text. -/
def afterWord? : List Char → List Char → Option (List Char)
  | [], text => some text
  | _ :: _, [] => none
  | expected :: more, c :: rest => if c = expected then afterWord? more rest else none

/-- What stands before and after the first occurrence of a word. -/
def cutOut? (word : List Char) : List Char → Option (List Char × List Char)
  | [] => (afterWord? word []).map fun rest => ([], rest)
  | c :: text =>
    match afterWord? word (c :: text) with
    | some rest => some ([], rest)
    | none => (cutOut? word text).map fun (before, after) => (c :: before, after)

theorem afterWord?_eq_some_iff {word text rest : List Char} :
    afterWord? word text = some rest ↔ text = word ++ rest := by
  induction word generalizing text with
  | nil => simp [afterWord?]
  | cons expected more ih =>
    cases text with
    | nil => simp [afterWord?]
    | cons c left =>
      simp only [afterWord?, List.cons_append, List.cons.injEq]
      split
      · rename_i same
        simp [same, ih]
      · rename_i differ
        simp [differ]

theorem eq_of_cutOut?_eq_some {word text before after : List Char}
    (cut : cutOut? word text = some (before, after)) : text = before ++ word ++ after := by
  induction text generalizing before with
  | nil =>
    simp only [cutOut?, Option.map_eq_some_iff, Prod.mk.injEq] at cut
    obtain ⟨rest, found, rfl, rfl⟩ := cut
    simpa using afterWord?_eq_some_iff.mp found
  | cons c text ih =>
    rw [cutOut?] at cut
    split at cut
    · rename_i rest found
      cases cut
      simpa using afterWord?_eq_some_iff.mp found
    · simp only [Option.map_eq_some_iff, Prod.mk.injEq, Prod.exists] at cut
      obtain ⟨inner, rest, found, rfl, rfl⟩ := cut
      simp [ih found]

/-- Cut a text at every occurrence of a separator; `n` separators leave `n + 1` pieces. -/
def splitAt (separator : Char) : List Char → List (List Char)
  | [] => [[]]
  | c :: rest =>
    if c = separator then [] :: splitAt separator rest
    else match splitAt separator rest with
      | [] => [[c]]
      | piece :: pieces => (c :: piece) :: pieces

theorem splitAt_ne_nil (separator : Char) (text : List Char) : splitAt separator text ≠ [] := by
  induction text with
  | nil => simp [splitAt]
  | cons c rest ih =>
    unfold splitAt
    split
    · simp
    · split <;> simp

end RibMap
