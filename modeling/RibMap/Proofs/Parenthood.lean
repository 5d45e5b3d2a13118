import Mathlib.Data.List.Infix
import RibMap.Hierarchy
import RibMap.Proofs.Naming

/-! # Parents and children among names

The links between names that the edges of a set make, with the number of edges that make each of
them. Looking up the children of a name in the hierarchy of the set finds every link from the name
once for each edge that makes it, in the order of the edges.
-/

namespace RibMap

/-- An edge makes one name a child of another. -/
def Edge.Links (edge : Edge) (parent child : String) : Prop :=
  Marker.interactable.base? edge.left = some parent ∧
    Marker.listener.base? edge.right = some child

instance (edge : Edge) (parent child : String) : Decidable (edge.Links parent child) :=
  inferInstanceAs (Decidable (_ ∧ _))

theorem Edge.link?_eq_some_iff {edge : Edge} {link : Link} :
    edge.link? = some link ↔ edge.Links link.parent link.child := by
  obtain ⟨parent, child⟩ := link
  simp only [Edge.link?, Edge.Links, bind, pure, Option.bind_eq_some_iff, Option.some.injEq,
    Link.mk.injEq]
  constructor
  · rintro ⟨_, above, _, below, rfl, rfl⟩
    exact ⟨above, below⟩
  · rintro ⟨above, below⟩
    exact ⟨parent, above, child, below, rfl, rfl⟩

namespace EdgeSet

/-- Some edge makes one name a child of another. -/
def IsParent (edges : EdgeSet) (parent child : String) : Prop :=
  ∃ edge ∈ edges, edge.Links parent child

theorem isParent_iff_mem {edges : EdgeSet} {parent child : String} :
    edges.IsParent parent child ↔ ⟨parent, child⟩ ∈ edges.toList.filterMap Edge.link? := by
  simp only [IsParent, List.mem_filterMap, Edge.link?_eq_some_iff, mem_def]

/-- The number of edges that make one name a child of another. -/
def linkCount (edges : EdgeSet) (parent child : String) : Nat :=
  edges.toList.countP fun edge => decide (edge.Links parent child)

end EdgeSet

namespace Hierarchy

/-- One name is a child of another. -/
def IsParent (hierarchy : Hierarchy) (parent child : String) : Prop :=
  child ∈ hierarchy.children parent

theorem isParent_ofEdges {edges : EdgeSet} {parent child : String} :
    (ofEdges edges).IsParent parent child ↔ edges.IsParent parent child := by
  simp only [IsParent, children_ofEdges, List.mem_map, List.mem_filter, List.mem_filterMap,
    Edge.link?_eq_some_iff, decide_eq_true_eq, EdgeSet.IsParent, EdgeSet.mem_def]
  constructor
  · rintro ⟨link, ⟨⟨edge, mem, links⟩, rfl⟩, rfl⟩
    exact ⟨edge, mem, links⟩
  · rintro ⟨edge, mem, links⟩
    exact ⟨⟨parent, child⟩, ⟨⟨edge, mem, links⟩, rfl⟩, rfl⟩

theorem isParent_ofEdges_eq (edges : EdgeSet) : (ofEdges edges).IsParent = edges.IsParent := by
  funext parent child
  exact propext isParent_ofEdges

/-- A child is found as often as there are edges that make it a child. -/
theorem count_children_ofEdges (edges : EdgeSet) (parent child : String) :
    ((ofEdges edges).children parent).count child = edges.linkCount parent child := by
  rw [children_ofEdges, EdgeSet.linkCount]
  induction edges.toList with
  | nil => rfl
  | cons edge rest ih =>
    have made : edge.link? = some ⟨parent, child⟩ ↔ edge.Links parent child :=
      Edge.link?_eq_some_iff
    rw [List.countP_cons, ← ih]
    cases found : edge.link? with
    | none =>
      have apart : ¬ edge.Links parent child := by
        rw [← made, found]
        exact Option.some_ne_none _ ∘ Eq.symm
      simp [found, apart]
    | some link =>
      rw [found, Option.some.injEq] at made
      obtain ⟨above, below⟩ := link
      by_cases parents : above = parent <;> by_cases children : below = child <;>
        simp [found, ← made, parents, children]

end Hierarchy

end RibMap
