import RibMap.Proofs.Reference.Json.Compact

/-! # Indented spellings

What is written of a value with an item or member to a line spells the value as its compact form
does. The line breaks stand where blanks may stand.
-/

namespace RibMap.Json

theorem layout_lineBreak (depth : Nat) : Layout (lineBreak depth) := by
  intro c mem
  rcases List.mem_cons.mp mem with rfl | mem
  · decide
  · rw [List.eq_of_mem_replicate mem]
    decide

theorem lead_lineBreak (depth : Nat) : Lead true ([] ++ lineBreak depth) :=
  .first (layout_lineBreak depth)

theorem lead_comma_lineBreak (depth : Nat) : Lead false ([','] ++ lineBreak depth) :=
  .later layout_nil (layout_lineBreak depth)

/-- The line break in front of the first item belongs to what stands in front of it. -/
theorem spellsItems_indentedItems {items : List Json} {depth : Nat}
    (spelled : ∀ item ∈ items, Spells (item.indented depth) item) (proper : items ≠ [])
    {first : Bool} {lead close : List Char} (leads : Lead first (lead ++ lineBreak depth))
    (layout : Layout close) :
    SpellsItems first (lead ++ (indentedItems depth items ++ close)) items := by
  induction items generalizing first lead with
  | nil => contradiction
  | cons item items ih =>
    have here := spelled item List.mem_cons_self
    cases items with
    | nil =>
      have whole := SpellsItems.next leads here (.done layout)
      simpa only [indentedItems, List.append_assoc] using whole
    | cons next items =>
      have others := ih (fun other mem => spelled other (List.mem_cons_of_mem _ mem))
        (List.cons_ne_nil _ _) (lead_comma_lineBreak depth)
      have whole := SpellsItems.next leads here others
      simpa only [indentedItems, List.append_assoc, List.cons_append, List.nil_append] using whole

theorem spellsMembers_indentedMembers {members : List (String × Json)} {depth : Nat}
    (spelled : ∀ key value, (key, value) ∈ members → Spells (value.indented depth) value)
    (proper : members ≠ []) {first : Bool} {lead close : List Char}
    (leads : Lead first (lead ++ lineBreak depth)) (layout : Layout close) :
    SpellsMembers first (lead ++ (indentedMembers depth members ++ close)) members := by
  induction members generalizing first lead with
  | nil => contradiction
  | cons entry members ih =>
    obtain ⟨key, value⟩ := entry
    have name := spellsText_writtenText key
    have here := spelled key value List.mem_cons_self
    cases members with
    | nil =>
      have whole := SpellsMembers.next leads name layout_nil layout_space here (.done layout)
      simpa only [indentedMembers, List.append_assoc, List.cons_append, List.nil_append] using whole
    | cons next members =>
      have others := ih (fun key value mem => spelled key value (List.mem_cons_of_mem _ mem))
        (List.cons_ne_nil _ _) (lead_comma_lineBreak depth)
      have whole := SpellsMembers.next leads name layout_nil layout_space here others
      simpa only [indentedMembers, List.append_assoc, List.cons_append, List.nil_append] using whole

/-- The indented form of a value spells it, at every depth. -/
theorem spells_indented {value : Json} (proper : value.Proper) (depth : Nat) :
    Spells (value.indented depth) value := by
  induction proper generalizing depth with
  | null => exact .null
  | @boolean value => cases value <;> constructor
  | number number => exact .number number
  | @string value => exact .string (spellsText_writtenText value)
  | @array items _ ih =>
    cases items with
    | nil => exact .array (.done layout_nil)
    | cons item items =>
      rw [indented]
      · apply Spells.array
        exact spellsItems_indentedItems (fun item mem => ih item mem (depth + 1))
          (List.cons_ne_nil _ _) (lead_lineBreak _) (layout_lineBreak depth)
      · exact List.cons_ne_nil _ _
  | @object members _ ih =>
    cases members with
    | nil => exact .object (.done layout_nil)
    | cons member members =>
      rw [indented]
      · apply Spells.object
        exact spellsMembers_indentedMembers (fun key value mem => ih key value mem (depth + 1))
          (List.cons_ne_nil _ _) (lead_lineBreak _) (layout_lineBreak depth)
      · exact List.cons_ne_nil _ _

theorem isSpelledBy_renderIndented {value : Json} (proper : value.Proper) :
    value.IsSpelledBy value.renderIndented := by
  have whole := IsSpelledBy.blanks layout_nil (spells_indented proper 0) layout_nil
  rwa [List.append_nil] at whole

end RibMap.Json
