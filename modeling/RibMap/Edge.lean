/-! # Edges

An edge says that the type on its left inherits from or conforms to the one on its right. No edge
leads from a type to itself. Edges are ordered by their left names, then by their right ones.
-/

namespace RibMap

/-- An inheritance edge between two different names. -/
structure Edge where
  left : String
  right : String
  proper : left ≠ right
  deriving DecidableEq

namespace Edge

/-- The edge between two names, unless they are the same. -/
def of? (left right : String) : Option Edge :=
  if same : left = right then none else some ⟨left, right, same⟩

def Before (a b : Edge) : Prop :=
  a.left < b.left ∨ a.left = b.left ∧ a.right < b.right

instance (a b : Edge) : Decidable (a.Before b) :=
  inferInstanceAs (Decidable (_ ∨ _))

/-- An edge as it is listed. -/
def listed (edge : Edge) : String :=
  edge.left ++ " -> " ++ edge.right

theorem ext_iff {a b : Edge} : a = b ↔ a.left = b.left ∧ a.right = b.right := by
  cases a
  cases b
  simp

theorem Before.trans {a b c : Edge} (first : a.Before b) (second : b.Before c) : a.Before c := by
  rcases first with first | ⟨same, first⟩ <;> rcases second with second | ⟨same', second⟩
  · exact .inl (String.lt_trans first second)
  · exact .inl (same' ▸ first)
  · exact .inl (same ▸ second)
  · exact .inr ⟨same.trans same', String.lt_trans first second⟩

theorem not_before_self (a : Edge) : ¬ a.Before a := by
  rintro (less | ⟨_, less⟩) <;> exact String.lt_irrefl _ less

/-- Of two different edges one comes before the other. -/
theorem before_or_before {a b : Edge} (differ : a ≠ b) : a.Before b ∨ b.Before a := by
  rcases Decidable.em (a.left < b.left) with less | notLess
  · exact .inl (.inl less)
  rcases Decidable.em (b.left < a.left) with more | notMore
  · exact .inr (.inl more)
  have left : a.left = b.left := String.le_antisymm notMore notLess
  rcases Decidable.em (a.right < b.right) with less | notLess
  · exact .inl (.inr ⟨left, less⟩)
  rcases Decidable.em (b.right < a.right) with more | notMore
  · exact .inr (.inr ⟨left.symm, more⟩)
  exact absurd (ext_iff.mpr ⟨left, String.le_antisymm notMore notLess⟩) differ

end Edge

end RibMap
