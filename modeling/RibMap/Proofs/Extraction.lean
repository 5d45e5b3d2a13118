import RibMap.Edge.Extraction
import RibMap.Proofs.EdgeSet

/-! # What declarations say about edges

An edge is extracted exactly if some class or protocol inherits under its own name another one, both
of them not empty. Extraction turns lists of declarations into sets: a list that is put together
from batches yields the union of what the batches yield.
-/

namespace RibMap

/-- Some class or protocol among declarations inherits a proper name other than its own. -/
def Declares (declarations : List Declaration) (left right : String) : Prop :=
  left ≠ "" ∧ right ≠ "" ∧ left ≠ right ∧
    ∃ declaration ∈ declarations, (declaration.kind = .class ∨ declaration.kind = .protocol) ∧
      declaration.name = some left ∧ right ∈ declaration.inherited

theorem Kind.isInheritable_iff {kind : Kind} :
    kind.isInheritable = true ↔ kind = .class ∨ kind = .protocol := by
  cases kind <;> simp [isInheritable]

theorem Declaration.mem_edges {declaration : Declaration} {edge : Edge} :
    edge ∈ declaration.edges ↔ Declares [declaration] edge.left edge.right := by
  obtain ⟨kind, name, inherited⟩ := declaration
  simp only [edges, Declares, List.mem_singleton, exists_eq_left, ← Kind.isInheritable_iff]
  cases name with
  | none => simp
  | some name =>
    by_cases inheritable : kind.isInheritable = true
    · by_cases nameless : name = ""
      · subst nameless
        simp only [inheritable, ↓reduceIte, List.not_mem_nil, Option.some.injEq, false_iff]
        rintro ⟨named, -, -, -, same, -⟩
        exact named same.symm
      · simp only [inheritable, nameless, ↓reduceIte, List.mem_filterMap, List.mem_filter,
          decide_eq_true_eq, Edge.of?_eq_some_iff, Option.some.injEq, true_and]
        constructor
        · rintro ⟨right, ⟨mem, proper⟩, rfl, rfl⟩
          exact ⟨nameless, proper, edge.proper, rfl, mem⟩
        · rintro ⟨-, proper, -, rfl, mem⟩
          exact ⟨_, ⟨mem, proper⟩, rfl, rfl⟩
    · simp [inheritable]

theorem declares_iff_exists_mem {declarations : List Declaration} {left right : String} :
    Declares declarations left right ↔
      ∃ declaration ∈ declarations, Declares [declaration] left right := by
  simp only [Declares, List.mem_singleton, exists_eq_left]
  constructor
  · rintro ⟨named, proper, differ, declaration, mem, said⟩
    exact ⟨declaration, mem, named, proper, differ, said⟩
  · rintro ⟨declaration, mem, named, proper, differ, said⟩
    exact ⟨named, proper, differ, declaration, mem, said⟩

namespace EdgeSet

theorem mem_ofDeclarations {declarations : List Declaration} {edge : Edge} :
    edge ∈ ofDeclarations declarations ↔ Declares declarations edge.left edge.right := by
  simp only [ofDeclarations, mem_ofList, List.mem_flatMap, Declaration.mem_edges]
  exact declares_iff_exists_mem.symm

theorem exists_mem_ofDeclarations_iff {declarations : List Declaration} {left right : String} :
    (∃ edge ∈ ofDeclarations declarations, edge.left = left ∧ edge.right = right) ↔
      Declares declarations left right := by
  constructor
  · rintro ⟨edge, mem, rfl, rfl⟩
    exact mem_ofDeclarations.mp mem
  · intro said
    exact ⟨⟨left, right, said.2.2.1⟩, mem_ofDeclarations.mpr said, rfl, rfl⟩

/-- Lists of declarations that say the same about edges yield the same set. -/
theorem ofDeclarations_congr {first second : List Declaration}
    (same : ∀ left right, Declares first left right ↔ Declares second left right) :
    ofDeclarations first = ofDeclarations second :=
  ext fun _ => mem_ofDeclarations.trans ((same _ _).trans mem_ofDeclarations.symm)

theorem ofDeclarations_append (first second : List Declaration) :
    ofDeclarations (first ++ second) = (ofDeclarations first).union (ofDeclarations second) := by
  refine ext fun edge => ?_
  simp only [ofDeclarations, mem_union, mem_ofList, List.flatMap_append, List.mem_append]

theorem empty_union (set : EdgeSet) : empty.union set = set :=
  ext fun edge => mem_union.trans (or_iff_right (notMem_empty edge))

theorem union_assoc (first second third : EdgeSet) :
    (first.union second).union third = first.union (second.union third) := by
  refine ext fun edge => ?_
  simp only [mem_union, or_assoc]

end EdgeSet

end RibMap
