import Mathlib.Data.List.Flatten
import Mathlib.Data.List.NodupEquivFin
import RibMap.Proofs.EdgeSet
import RibMap.Proofs.Walk.Subtree

/-! # Walks over more edges

Further edges can give a node more children and a view, and nothing else. Every node that a walk
shows is shown again once there are more edges, in the same order and at the same depth, though
others may come between; and every cycle that was reported is reported again.
-/

namespace RibMap

/-- In a larger hierarchy children are found among more children, and no view is lost. -/
structure Hierarchy.Within (part whole : Hierarchy) : Prop where
  children_sublist : ∀ name, (part.children name).Sublist (whole.children name)
  viewful : ∀ name, part.view name = .viewful → whole.view name = .viewful

theorem Hierarchy.within_ofEdges {part whole : EdgeSet} (included : part ⊆ whole) :
    (ofEdges part).Within (ofEdges whole) where
  children_sublist name := by
    rw [children_ofEdges, children_ofEdges]
    exact (((EdgeSet.toList_sublist included).filterMap _).filter _).map _
  viewful name := by
    have owners : name ∈ (ofEdges part).viewOwners → name ∈ (ofEdges whole).viewOwners :=
      fun mem => ((EdgeSet.toList_sublist included).filterMap Edge.viewOwner?).subset mem
    simp only [view, ite_eq_left_iff, reduceCtorEq, imp_false, not_not]
    exact owners

/-- What a part of a list shows is found, in the same order, in what the whole list shows. -/
theorem exists_orderEmbedding_of_sublist {α β : Type} {part whole : List α} {f g : α → β}
    {first second : List β} (included : part.Sublist whole) (shown : first = part.map f)
    (shown' : second = whole.map g) :
    ∃ place : Fin first.length ↪o Fin second.length,
      ∀ i, ∃ a, first[i] = f a ∧ second[place i] = g a := by
  subst shown shown'
  obtain ⟨place, same⟩ := List.sublist_iff_exists_fin_orderEmbedding_get_eq.mp included
  let source : Fin (part.map f).length ↪o Fin part.length :=
    (Fin.castOrderIso (List.length_map f)).toOrderEmbedding
  let target : Fin whole.length ↪o Fin (whole.map g).length :=
    (Fin.castOrderIso (List.length_map g).symm).toOrderEmbedding
  refine ⟨source.trans (place.trans target), fun i => ⟨part.get (source i), ?_, ?_⟩⟩
  · simp [source]
  · rw [same]
    simp [target]

namespace Walk

variable {part whole : Hierarchy} (limit : Option Nat)

theorem openChildren_sublist (within : part.Within whole) (frame : Frame) :
    (openChildren part limit frame).Sublist (openChildren whole limit frame) := by
  rw [openChildren_eq, openChildren_eq]
  split
  · exact within.children_sublist frame.name
  · exact List.Sublist.refl _

theorem pushed_sublist (within : part.Within whole) (frame : Frame) :
    (pushed part limit frame).Sublist (pushed whole limit frame) :=
  ((openChildren_sublist limit within frame).filter _).map _

theorem cycles_sublist (within : part.Within whole) (frame : Frame) :
    (cycles part limit frame).Sublist (cycles whole limit frame) :=
  (((openChildren_sublist limit within frame).filter _).reverse).map _

/-- The tree below a frame keeps all of its frames when the hierarchy grows. -/
theorem subtree_sublist (within : part.Within whole) (frame : Frame) :
    (subtree part limit frame).Sublist (subtree whole limit frame) := by
  induction frame using frame_induction part limit with
  | step frame ih =>
    rw [subtree_eq, subtree_eq whole]
    refine List.Sublist.cons_cons frame ?_
    calc
      ((pushed part limit frame).flatMap (subtree part limit)).Sublist
          ((pushed part limit frame).flatMap (subtree whole limit)) :=
        List.Sublist.flatMap_right _ ih
      List.Sublist _ ((pushed whole limit frame).flatMap (subtree whole limit)) :=
        (pushed_sublist limit within frame).flatMap _

theorem frames_sublist (within : part.Within whole) (root : String) :
    (start part root limit).frames.Sublist (start whole root limit).frames := by
  rw [frames_start, frames_start]
  exact subtree_sublist limit within ⟨root, 1, []⟩

theorem events_sublist (within : part.Within whole) (root : String) :
    (start part root limit).events.Sublist (start whole root limit).events := by
  rw [events_eq, events_eq]
  calc
    ((start part root limit).frames.flatMap (cycles part limit)).Sublist
        ((start part root limit).frames.flatMap (cycles whole limit)) :=
      List.Sublist.flatMap_right _ fun frame _ => cycles_sublist limit within frame
    List.Sublist _ ((start whole root limit).frames.flatMap (cycles whole limit)) :=
      (frames_sublist limit within root).flatMap _

theorem places_sublist (within : part.Within whole) (root : String) :
    ((start part root limit).ribs.map fun rib => (rib.name, rib.depth)).Sublist
      ((start whole root limit).ribs.map fun rib => (rib.name, rib.depth)) := by
  rw [ribs_eq, ribs_eq, List.map_map, List.map_map]
  exact (frames_sublist limit within root).map fun frame => (frame.name, frame.depth)

/-- With further edges a walk from the same root under the same limit shows every node again: some
embedding of the nodes into the later ones keeps their order, names and depths and takes no view
away. What was reported is reported again in the same order. -/
theorem shown_again_with_more_edges {edges more : EdgeSet} (included : edges ⊆ more) (root : String)
    (limit : Option Nat) :
    let before := (ofEdges edges root none).withLimit limit
    let after := (ofEdges more root none).withLimit limit
    (before.ribs.map fun rib => (rib.name, rib.depth)).Sublist
        (after.ribs.map fun rib => (rib.name, rib.depth)) ∧
      (∃ place : Fin before.ribs.length ↪o Fin after.ribs.length,
        ∀ i, after.ribs[place i].name = before.ribs[i].name ∧
          after.ribs[place i].depth = before.ribs[i].depth ∧
          (before.ribs[i].view = .viewful → after.ribs[place i].view = .viewful)) ∧
      (before.events.map Event.message).Sublist (after.events.map Event.message) := by
  intro before after
  have within := Hierarchy.within_ofEdges included
  refine ⟨places_sublist limit within root, ?_, (events_sublist limit within root).map _⟩
  obtain ⟨place, same⟩ := exists_orderEmbedding_of_sublist (frames_sublist limit within root)
    (ribs_eq before) (ribs_eq after)
  refine ⟨place, fun i => ?_⟩
  obtain ⟨frame, first, second⟩ := same i
  rw [first, second]
  exact ⟨rfl, rfl, within.viewful frame.name⟩

/-- A root with a child that has the root for its own child. -/
def loop : EdgeSet :=
  .ofList
    [⟨"RootInteractable", "BListener", by decide⟩, ⟨"BInteractable", "RootListener", by decide⟩]

/-- An earlier child and a view for the root of the loop. -/
def addition : EdgeSet :=
  .ofList [⟨"RootInteractable", "AListener", by decide⟩,
    ⟨"RootViewController", "UIViewController", by decide⟩]

/-- The child of the loop and the report of the cycle stay when another child comes before it. -/
theorem loop_shown_again_beside_addition :
    let before := (ofEdges loop "Root" none).withLimit (some 3)
    let after := (ofEdges (loop.union addition) "Root" none).withLimit (some 3)
    loop ⊆ loop.union addition ∧
      before.ribs = [⟨"Root", 1, .viewless⟩, ⟨"B", 2, .viewless⟩] ∧
      after.ribs = [⟨"Root", 1, .viewful⟩, ⟨"A", 2, .viewless⟩, ⟨"B", 2, .viewless⟩] ∧
      before.events.map Event.message = ["Cycle detected: Root -> B -> Root, branch truncated"] ∧
      (before.events.map Event.message).Sublist (after.events.map Event.message) := by
  intro before after
  have included := EdgeSet.subset_union loop addition
  obtain ⟨-, -, reported⟩ := shown_again_with_more_edges included "Root" (some 3)
  exact ⟨included, by decide +kernel, by decide +kernel, by decide +kernel, reported⟩

end Walk

end RibMap
