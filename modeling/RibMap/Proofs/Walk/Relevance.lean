import Mathlib.Logic.Basic
import RibMap.Mindmap
import RibMap.Proofs.EdgeSet
import RibMap.Proofs.Walk.Ancestry
import RibMap.Proofs.Walk.Rendering

/-! # Edges that a map depends on

A walk reads the children and the view of the names it visits, and visits nothing that cannot be
reached from its root. Edges that bear on no reachable name can be added and removed: the map stays
as it is and the same cycles are reported, even if the edges make new children, views and cycles
elsewhere.
-/

namespace RibMap

/-- An edge bears on a name: it gives the name a child, or a view. -/
def Edge.Concerns (edge : Edge) (name : String) : Prop :=
  Marker.interactable.base? edge.left = some name ∧ Marker.listener.OccursIn edge.right ∨
    Marker.viewController.base? edge.left = some name

instance (edge : Edge) (name : String) : Decidable (edge.Concerns name) :=
  inferInstanceAs (Decidable (_ ∧ _ ∨ _))

theorem Edge.concerns_of_childOf? {edge : Edge} {name : String}
    (found : (edge.childOf? name).isSome) : edge.Concerns name := by
  obtain ⟨child, found⟩ := Option.isSome_iff_exists.mp found
  obtain ⟨above, below⟩ := childOf?_eq_some_iff.mp found
  exact .inl ⟨above, (Marker.base?_eq_some_iff.mp below).1⟩

theorem Edge.GivesView.concerns {edge : Edge} {name : String} (gives : edge.GivesView name) :
    edge.Concerns name :=
  .inr (Marker.base?_eq_some_iff.mpr gives)

/-- Names that include the children of each of them include all that can be reached from one. -/
theorem EdgeSet.mem_of_reached {edges : EdgeSet} {root name : String} {names : List String}
    (starts : root ∈ names)
    (closed : ∀ link ∈ edges.toList.filterMap Edge.link?, link.parent ∈ names → link.child ∈ names)
    (reached : Relation.ReflTransGen edges.IsParent root name) : name ∈ names := by
  induction reached with
  | refl => exact starts
  | tail _ link ih => exact closed _ (isParent_iff_mem.mp link) ih

namespace Hierarchy

/-- Two hierarchies say the same of a name: its children, with order and repetitions, and its
view. -/
structure AgreeAt (first second : Hierarchy) (name : String) : Prop where
  children_eq : first.children name = second.children name
  view_eq : first.view name = second.view name

/-- Sets with the same edges that bear on a name say the same of it. -/
theorem agreeAt_ofEdges {first second : EdgeSet} {name : String}
    (same : ∀ edge : Edge, edge.Concerns name → (edge ∈ first ↔ edge ∈ second)) :
    (ofEdges first).AgreeAt (ofEdges second) name := by
  constructor
  · rw [children_ofEdges_eq_filterMap, children_ofEdges_eq_filterMap]
    apply EdgeSet.filterMap_toList_congr
    exact fun edge found => same edge (Edge.concerns_of_childOf? found)
  · have viewed : (∃ edge ∈ first.toList, edge.GivesView name) ↔
        ∃ edge ∈ second.toList, edge.GivesView name := by
      apply exists_congr
      intro edge
      exact and_congr_left fun gives => same edge gives.concerns
    rw [view_ofEdges, view_ofEdges, EdgeSet.viewOf, EdgeSet.viewOf]
    simp only [viewed]

end Hierarchy

namespace Walk

variable {first second : Hierarchy} {limit : Option Nat} {frame : Frame}

theorem openChildren_congr (agree : first.AgreeAt second frame.name) :
    openChildren first limit frame = openChildren second limit frame := by
  rw [openChildren_eq, openChildren_eq, agree.children_eq]

theorem pushed_congr (agree : first.AgreeAt second frame.name) :
    pushed first limit frame = pushed second limit frame := by
  rw [pushed, pushed, openChildren_congr agree]

theorem visitOf_congr (agree : first.AgreeAt second frame.name) :
    visitOf first limit frame = visitOf second limit frame := by
  rw [visitOf, visitOf, shown, shown, cycles, cycles, agree.view_eq, openChildren_congr agree]

/-- The tree below a frame depends on nothing but what can be reached from the frame. -/
theorem subtree_congr
    (agree : ∀ name, Relation.ReflTransGen first.IsParent frame.name name →
      first.AgreeAt second name) :
    subtree first limit frame = subtree second limit frame := by
  induction frame using frame_induction first limit with
  | step frame ih =>
    have below (child : Frame) (put : child ∈ pushed first limit frame) :
        subtree first limit child = subtree second limit child := by
      apply ih child put
      intro name reached
      apply agree
      exact .head (openChildren_subset (mem_pushed.mp put).1) reached
    rw [subtree_eq, subtree_eq second, ← pushed_congr (agree frame.name .refl),
      List.flatMap_congr below]

/-- The visits of a walk depend on nothing but what can be reached from its root. -/
theorem visits_congr {root : String}
    (agree : ∀ name, Relation.ReflTransGen first.IsParent root name →
      first.AgreeAt second name) :
    (start first root limit).visits = (start second root limit).visits := by
  have same : subtree first limit ⟨root, 1, []⟩ = subtree second limit ⟨root, 1, []⟩ :=
    subtree_congr agree
  rw [visits_start, visits_start, ← same]
  apply List.map_congr_left
  intro frame visited
  apply visitOf_congr
  -- The first hierarchy alone says where the walk goes, so that its own paths suffice here.
  apply agree
  have rooted := rooted_of_mem_subtree (Frame.rooted_root first root) visited
  exact (rooted.reaches (List.mem_append_right _ List.mem_cons_self)).1

/-- Edges that bear on no name which can be reached from the root have no influence: whichever of
them are added or removed, the same nodes are shown and the same cycles are reported, in the same
order, and the mindmap has the same text. -/
theorem unmoved_by_unrelated_edges (edges others : EdgeSet) (root : String) (limit : Option Nat)
    (unrelated : ∀ edge, Xor (edge ∈ edges) (edge ∈ others) →
      ∀ name, Relation.ReflTransGen edges.IsParent root name → ¬ edge.Concerns name) :
    let walk := (ofEdges edges root none).withLimit limit
    let after := (ofEdges others root none).withLimit limit
    after.ribs = walk.ribs ∧ after.events = walk.events ∧
      (Mindmap.mk others root limit).text = (Mindmap.mk edges root limit).text := by
  intro walk after
  have agree (name : String)
      (reached : Relation.ReflTransGen (Hierarchy.ofEdges edges).IsParent root name) :
      (Hierarchy.ofEdges edges).AgreeAt (.ofEdges others) name := by
    rw [Hierarchy.isParent_ofEdges_eq] at reached
    apply Hierarchy.agreeAt_ofEdges
    intro edge concerns
    by_contra differ
    exact unrelated edge ((xor_iff_not_iff _ _).mpr differ) name reached concerns
  have same : walk.visits = after.visits := visits_congr agree
  have shown : walk.ribs = after.ribs := congrArg (List.map Visit.rib) same
  have drawn : (Mindmap.mk edges root limit).walk.lines =
      (Mindmap.mk others root limit).walk.lines := congrArg (List.map Rib.line) shown
  refine ⟨shown.symm, congrArg (List.flatMap Visit.events) same.symm, ?_⟩
  rw [Mindmap.text, Mindmap.text, drawn]

/-- A shop whose cart leads back to its home, beside an office that leads elsewhere. -/
def shop : EdgeSet :=
  .ofList [⟨"HomeInteractable", "CartListener", by decide⟩,
    ⟨"HomeInteractable", "HomePresentable", by decide⟩,
    ⟨"CartInteractable", "HomeListener", by decide⟩,
    ⟨"OfficeInteractable", "AuditListener", by decide⟩]

/-- The shop with an office that has a view, leads to the home and is its own child. -/
def rebuilt : EdgeSet :=
  .ofList [⟨"HomeInteractable", "CartListener", by decide⟩,
    ⟨"CartInteractable", "HomeListener", by decide⟩,
    ⟨"OfficeInteractable", "HomeListener", by decide⟩,
    ⟨"OfficeInteractable", "OfficeListener", by decide⟩,
    ⟨"OfficeViewController", "UIViewController", by decide⟩]

/-- The cycle between home and cart is reported before and after, and the one that the office makes
is not. -/
theorem shop_unmoved_by_office :
    let walk := (ofEdges shop "Home" none).withLimit none
    let after := (ofEdges rebuilt "Home" none).withLimit none
    walk.ribs = [⟨"Home", 1, .viewless⟩, ⟨"Cart", 2, .viewless⟩] ∧ after.ribs = walk.ribs ∧
      walk.events = [.cycle ["Home", "Cart"] "Home"] ∧ after.events = walk.events ∧
      (Mindmap.mk rebuilt "Home" none).text = (Mindmap.mk shop "Home" none).text := by
  intro walk after
  have unrelated (edge : Edge) (differ : Xor (edge ∈ shop) (edge ∈ rebuilt)) (name : String)
      (reached : Relation.ReflTransGen shop.IsParent "Home" name) : ¬ edge.Concerns name := by
    have mem : edge ∈ shop.toList ++ rebuilt.toList := List.mem_append.mpr differ.or
    have near : name ∈ ["Home", "Cart"] :=
      EdgeSet.mem_of_reached (by decide) (by decide +kernel) reached
    have checked : ∀ edge ∈ shop.toList ++ rebuilt.toList, Xor (edge ∈ shop) (edge ∈ rebuilt) →
        ∀ name ∈ ["Home", "Cart"], ¬ edge.Concerns name := by
      decide +kernel
    exact checked edge mem differ name near
  obtain ⟨ribs, events, text⟩ := unmoved_by_unrelated_edges shop rebuilt "Home" none unrelated
  exact ⟨by decide +kernel, ribs, by decide +kernel, events, text⟩

end Walk

end RibMap
