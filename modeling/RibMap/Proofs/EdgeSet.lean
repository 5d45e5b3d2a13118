import Mathlib.Data.List.Sort
import RibMap.EdgeSet

/-! # Edge sets as sets

What belongs to a set of edges after an operation on it. A set is determined by its members, because
its listing is: two strictly ascending listings of the same edges are the same, and the listing of a
part of a set is the listing of the set with some edges left out.
-/

namespace RibMap

instance : Std.Irrefl Edge.Before := ⟨Edge.not_before_self⟩

instance : Std.Antisymm Edge.Before :=
  ⟨fun first _ before after => absurd (before.trans after) first.not_before_self⟩

theorem Edge.of?_eq_some_iff {left right : String} {edge : Edge} :
    of? left right = some edge ↔ edge.left = left ∧ edge.right = right := by
  rw [of?]
  split
  · rename_i same
    simp only [reduceCtorEq, false_iff]
    rintro ⟨rfl, rfl⟩
    exact edge.proper same
  · rw [Option.some.injEq, ext_iff, eq_comm (a := left), eq_comm (a := right)]

namespace EdgeSet

instance : HasSubset EdgeSet where
  Subset part whole := ∀ edge ∈ part, edge ∈ whole

theorem notMem_empty (edge : Edge) : edge ∉ empty :=
  List.not_mem_nil

theorem mem_insertAll {set : EdgeSet} {edges : List Edge} {edge : Edge} :
    edge ∈ set.insertAll edges ↔ edge ∈ set ∨ edge ∈ edges := by
  induction edges generalizing set with
  | nil => simp only [insertAll, List.foldl_nil, List.not_mem_nil, or_false]
  | cons first rest ih =>
    rw [insertAll, List.foldl_cons, ← insertAll, ih, mem_insert, List.mem_cons]
    exact or_assoc.trans or_left_comm

theorem mem_ofList {edges : List Edge} {edge : Edge} : edge ∈ ofList edges ↔ edge ∈ edges := by
  rw [ofList, mem_insertAll, or_iff_right (notMem_empty edge)]

theorem mem_union {first second : EdgeSet} {edge : Edge} :
    edge ∈ first.union second ↔ edge ∈ first ∨ edge ∈ second :=
  mem_insertAll

theorem subset_union (first second : EdgeSet) : first ⊆ first.union second :=
  fun _ mem => mem_union.mpr (.inl mem)

/-- The order in which edges came into a set leaves no trace in it. -/
theorem ext {first second : EdgeSet} (same : ∀ edge, edge ∈ first ↔ edge ∈ second) :
    first = second := by
  obtain ⟨edges, ascending⟩ := first
  obtain ⟨others, ascending'⟩ := second
  obtain rfl : edges = others := ascending.eq_of_mem_iff ascending' same
  rfl

theorem toList_sublist {part whole : EdgeSet} (included : part ⊆ whole) :
    part.toList.Sublist whole.toList :=
  List.sublist_of_subperm_of_pairwise
    (List.subperm_of_subset part.ascending.nodup included) part.ascending whole.ascending

/-- A scan for some edges finds the same in two sets that agree about these edges. -/
theorem filterMap_toList_congr {α : Type} {f : Edge → Option α} {first second : EdgeSet}
    (same : ∀ edge, (f edge).isSome → (edge ∈ first ↔ edge ∈ second)) :
    first.toList.filterMap f = second.toList.filterMap f := by
  have kept (edges : EdgeSet) :
      edges.toList.filterMap f =
        (edges.toList.filter fun edge => (f edge).isSome).filterMap f := by
    rw [List.filterMap_filter]
    apply List.filterMap_congr
    intro edge _
    cases f edge <;> rfl
  rw [kept first, kept second]
  congr 1
  apply (first.ascending.filter _).eq_of_mem_iff (second.ascending.filter _)
  intro edge
  simp only [List.mem_filter]
  exact and_congr_left (same edge)

end EdgeSet

end RibMap
