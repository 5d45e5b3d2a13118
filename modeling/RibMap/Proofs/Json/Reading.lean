import RibMap.Proofs.Json.Rules

/-! # What is read of a text

By the rules for reading, every text that spells a value is read as the data of a shape that the
value stands for, and is refused if it stands for none.
-/

namespace RibMap.Json

theorem toOption_eq_some_iff {ε α : Type} {result : Except ε α} {value : α} :
    result.toOption = some value ↔ result = .ok value := by
  cases result <;> simp [Except.toOption]

theorem Shape.Readable.parts {α β : Type} {shape : Shape α} {part : Shape β}
    (readable : shape.Readable) (depth : part.depth ≤ shape.depth)
    (distinct : shape.distinct = true → part.distinct = true) : part.Readable :=
  ⟨Nat.le_trans depth readable.1, distinct readable.2⟩

variable [Library]

mutual

/-- A text that spells a value is read as the data that the value stands for. -/
theorem Shape.reads (rules : ReadsByRules) {α : Type} :
    ∀ (shape : Shape α), shape.Readable → ∀ value, Reads shape value (shape.decode value)
  | .text, _, value => rules.text value
  | .optional content, readable, value => by
    have inner : content.Readable := readable
    by_cases null : value = .null
    · subst null
      exact rules.nothing inner
    · have proper : (Shape.optional content).decode value = (content.decode value).map some := by
        cases value with
        | null => exact absurd rfl null
        | _ => rfl
      rw [proper]
      exact rules.something inner null (content.reads rules inner value)
  | .list item, readable, value => by
    have inner : item.Readable := readable.parts (Nat.le_succ _) id
    cases value with
    | array values => exact rules.list readable fun value _ => item.reads rules inner value
    | null | boolean | number | string | object =>
      exact rules.noList readable fun items same => by cases same
  | .record name fields, readable, value => by
    have shallow : fields.depth ≤ 127 := Nat.le_trans (Nat.le_succ _) readable.1
    have distinct : fields.distinct = true := (Bool.and_eq_true_iff.mp readable.2).2
    cases value with
    | array values =>
      exact rules.items readable (fields.readFromItems rules shallow distinct values)
    | object members =>
      exact rules.object readable (fields.readFromMembers rules shallow distinct members)
    | null | boolean | number | string =>
      exact rules.noRecord readable (fun members same => by cases same) fun items same => by
        cases same
  | .choice variants, readable, value => by
    have shallow : variants.depth ≤ 127 := Nat.le_trans (Nat.le_succ _) readable.1
    have distinct : variants.distinct = true := (Bool.and_eq_true_iff.mp readable.2).2
    have readFrom := variants.readFrom rules shallow distinct
    cases value with
    | string name => exact rules.name readable (readFrom name none)
    | object members =>
      match members with
      | [(name, content)] => exact rules.member readable (readFrom name (some content))
      | [] | _ :: _ :: _ =>
        refine rules.noVariant readable (fun name same => by cases same) fun name content same => ?_
        simp at same
    | null | boolean | number | array =>
      exact rules.noVariant readable (fun name same => by cases same) fun name content same => by
        cases same

theorem Fields.readFromMembers (rules : ReadsByRules) {σ : Type} :
    ∀ (fields : Fields σ), fields.depth ≤ 127 → fields.distinct = true → ∀ members,
      fields.ReadFromMembers members (fields.ofMembers members)
  | .nil, _, _, _ => rfl
  | .field _ _ shape others, shallow, distinct, members => by
    obtain ⟨here, behind⟩ := Nat.max_le.mp shallow
    obtain ⟨proper, others'⟩ := Bool.and_eq_true_iff.mp distinct
    exact ⟨shape.decode, others.ofMembers members,
      fun value _ => shape.reads rules ⟨here, proper⟩ value,
      others.readFromMembers rules behind others' members, rfl⟩

theorem Fields.readFromItems (rules : ReadsByRules) {σ : Type} :
    ∀ (fields : Fields σ), fields.depth ≤ 127 → fields.distinct = true → ∀ items,
      fields.ReadFromItems items (fields.ofItems items)
  | .nil, _, _, [] | .nil, _, _, _ :: _ => rfl
  | .field _ default? shape others, shallow, distinct, [] => by
    obtain ⟨-, behind⟩ := Nat.max_le.mp shallow
    obtain ⟨-, others'⟩ := Bool.and_eq_true_iff.mp distinct
    exact ⟨others.ofItems [], others.readFromItems rules behind others' [], rfl⟩
  | .field _ default? shape others, shallow, distinct, item :: items => by
    obtain ⟨here, behind⟩ := Nat.max_le.mp shallow
    obtain ⟨proper, others'⟩ := Bool.and_eq_true_iff.mp distinct
    exact ⟨shape.decode item, others.ofItems items, shape.reads rules ⟨here, proper⟩ item,
      others.readFromItems rules behind others' items, rfl⟩

theorem Variants.readFrom (rules : ReadsByRules) {σ : Type} :
    ∀ (variants : Variants σ), variants.depth ≤ 127 → variants.distinct = true →
      ∀ name content?, variants.ReadFrom name content? (variants.decode name content?)
  | .nil, _, _, _, _ => rfl
  | .bare own others, shallow, distinct, name, content? => by
    rw [Variants.ReadFrom, Variants.decode]
    split
    · rfl
    · exact ⟨_, others.readFrom rules shallow distinct name content?, rfl⟩
  | .holding own shape others, shallow, distinct, name, content? => by
    obtain ⟨here, behind⟩ := Nat.max_le.mp shallow
    obtain ⟨proper, others'⟩ := Bool.and_eq_true_iff.mp distinct
    rw [Variants.ReadFrom, Variants.decode]
    split
    · exact ⟨shape.decode, fun content _ => shape.reads rules ⟨here, proper⟩ content, rfl⟩
    · exact ⟨_, others.readFrom rules behind others' name content?, rfl⟩

end

end RibMap.Json
