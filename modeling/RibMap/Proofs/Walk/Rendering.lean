import RibMap.Proofs.Parenthood
import RibMap.Proofs.Walk.Subtree

/-! # Rendering by recursion

The naming convention, taken at its word, describes a map by recursion: at every node all edges are
scanned again for those that lead to a child, and every child that is not on the way from the root
is rendered in turn. A walk looks children up in an index that is built once and keeps a stack; it
gives the same nodes in the same order.
-/

namespace RibMap

/-- The child that an edge gives to a node, read off the two names of the edge. -/
def Edge.childOf? (edge : Edge) (node : String) : Option String :=
  if Marker.interactable.OccursIn edge.left ∧ Marker.interactable.removedFrom edge.left = node ∧
      Marker.listener.OccursIn edge.right then
    some (Marker.listener.removedFrom edge.right)
  else none

theorem Edge.childOf?_eq_some_iff {edge : Edge} {node child : String} :
    edge.childOf? node = some child ↔ edge.Links node child := by
  simp only [childOf?, Links, Marker.base?_eq_some_iff, Option.ite_none_right_eq_some,
    Option.some.injEq, and_assoc]

/-- An edge gives a node its view. -/
def Edge.GivesView (edge : Edge) (node : String) : Prop :=
  Marker.viewController.OccursIn edge.left ∧ Marker.viewController.removedFrom edge.left = node

instance (edge : Edge) (node : String) : Decidable (edge.GivesView node) :=
  inferInstanceAs (Decidable (_ ∧ _))

namespace EdgeSet

/-- The view of a node, from a scan of all edges. -/
def viewOf (edges : EdgeSet) (node : String) : View :=
  if ∃ edge ∈ edges.toList, edge.GivesView node then .viewful else .viewless

/-- The number of edges that lead, whatever their parent, to a name which is not on a path. -/
def unmet (edges : EdgeSet) (path : List String) : Nat :=
  (edges.toList.map fun edge => Marker.listener.removedFrom edge.right).countP fun name =>
    decide (name ∉ path)

theorem unmet_append_lt {edges : EdgeSet} {edge : Edge} {node child : String} {path : List String}
    (mem : edge ∈ edges.toList) (found : edge.childOf? node = some child) (new : child ∉ path) :
    edges.unmet (path ++ [child]) < edges.unmet path := by
  obtain ⟨_, below⟩ := Edge.childOf?_eq_some_iff.mp found
  obtain ⟨_, rfl⟩ := Marker.base?_eq_some_iff.mp below
  exact countP_notMem_append_lt (List.mem_map.mpr ⟨edge, mem, rfl⟩) new

/-- The map from a node on, given the nodes above it: the node, and then, for every edge in its
order that leads to a child which is not on the path, the map from this child on. -/
def render (edges : EdgeSet) (limit : Option Nat) (above : List String) (node : String)
    (depth : Nat) : List Rib :=
  ⟨node, depth, edges.viewOf node⟩ ::
    if ∀ most ∈ limit, depth < most then
      edges.toList.attach.flatMap fun edge =>
        match found : edge.val.childOf? node with
        | none => []
        | some child =>
          if new : child ∈ above ++ [node] then []
          else render edges limit (above ++ [node]) child (depth + 1)
    else []
termination_by edges.unmet (above ++ [node])
decreasing_by exact unmet_append_lt edge.property found new

/-- What the recursion does for one edge. -/
private def renderEdge (edges : EdgeSet) (limit : Option Nat) (above : List String) (node : String)
    (depth : Nat) (edge : Edge) : List Rib :=
  match edge.childOf? node with
  | none => []
  | some child =>
    if child ∈ above ++ [node] then [] else edges.render limit (above ++ [node]) child (depth + 1)

private theorem flatMap_renderEdge (edges : EdgeSet) (limit : Option Nat) (above : List String)
    (node : String) (depth : Nat) (scanned : List Edge) :
    scanned.flatMap (edges.renderEdge limit above node depth) =
      ((scanned.filterMap fun edge => edge.childOf? node).filter fun child =>
          decide (child ∉ above ++ [node])).flatMap fun child =>
        edges.render limit (above ++ [node]) child (depth + 1) := by
  induction scanned with
  | nil => rfl
  | cons edge rest ih =>
    rw [List.flatMap_cons, ih, List.filterMap_cons, renderEdge]
    cases edge.childOf? node with
    | none => rfl
    | some child =>
      by_cases met : child ∈ above ++ [node]
      · simp only [met, ↓reduceIte, List.filter_cons, not_true_eq_false, decide_false,
          Bool.false_eq_true, List.nil_append]
      · simp only [met, ↓reduceIte, List.filter_cons, not_false_eq_true, decide_true,
          List.flatMap_cons]

theorem render_eq (edges : EdgeSet) (limit : Option Nat) (above : List String) (node : String)
    (depth : Nat) :
    edges.render limit above node depth =
      ⟨node, depth, edges.viewOf node⟩ ::
        if ∀ most ∈ limit, depth < most then
          ((edges.toList.filterMap fun edge => edge.childOf? node).filter fun child =>
              decide (child ∉ above ++ [node])).flatMap fun child =>
            edges.render limit (above ++ [node]) child (depth + 1)
        else [] := by
  have scan (edge : Edge) (mem : edge ∈ edges.toList) :
      (match found : edge.childOf? node with
        | none => []
        | some child =>
          if new : child ∈ above ++ [node] then []
          else edges.render limit (above ++ [node]) child (depth + 1)) =
        edges.renderEdge limit above node depth edge := by
    rw [renderEdge]
    split <;> rename_i found <;> simp [found]
  rw [render, List.flatMap_subtype scan, List.unattach_attach, flatMap_renderEdge]

end EdgeSet

namespace Hierarchy

/-- The index answers as a scan of all edges for the node does. -/
theorem children_ofEdges_eq_filterMap (edges : EdgeSet) (node : String) :
    (ofEdges edges).children node = edges.toList.filterMap fun edge => edge.childOf? node := by
  rw [children_ofEdges, List.filter_filterMap, List.map_filterMap]
  congr 1
  funext edge
  apply Option.ext
  intro child
  simp only [Edge.childOf?_eq_some_iff, Option.map_eq_some_iff, Option.filter_eq_some_iff,
    Edge.link?_eq_some_iff, decide_eq_true_eq]
  constructor
  · rintro ⟨link, ⟨links, rfl⟩, rfl⟩
    exact links
  · intro links
    exact ⟨⟨node, child⟩, ⟨links, rfl⟩, rfl⟩

theorem view_ofEdges (edges : EdgeSet) (node : String) :
    (ofEdges edges).view node = edges.viewOf node := by
  have scanned :
      node ∈ (ofEdges edges).viewOwners ↔ ∃ edge ∈ edges.toList, edge.GivesView node := by
    simp only [ofEdges, List.mem_filterMap, Edge.viewOwner?, Marker.base?_eq_some_iff,
      Edge.GivesView]
  simp only [view, EdgeSet.viewOf, scanned]

end Hierarchy

namespace Walk

/-- A recursion that looks up children and views as a hierarchy has them shows what the walk shows
below a frame. -/
theorem map_shown_subtree_eq {hierarchy : Hierarchy} {limit : Option Nat}
    (render : List String → String → Nat → List Rib)
    (step : ∀ above node depth, render above node depth =
      ⟨node, depth, hierarchy.view node⟩ ::
        if ∀ most ∈ limit, depth < most then
          ((hierarchy.children node).filter fun child =>
              decide (child ∉ above ++ [node])).flatMap fun child =>
            render (above ++ [node]) child (depth + 1)
        else [])
    (frame : Frame) :
    (subtree hierarchy limit frame).map (shown hierarchy) =
      render frame.ancestors frame.name frame.depth := by
  induction frame using frame_induction hierarchy limit with
  | step frame ih =>
    have below (child : Frame) (put : child ∈ pushed hierarchy limit frame) :
        (subtree hierarchy limit child).map (shown hierarchy) =
          render frame.path child.name (frame.depth + 1) := by
      obtain ⟨_, _, same⟩ := mem_pushed.mp put
      rw [ih child put, same]
    rw [subtree_eq, List.map_cons, List.map_flatMap, List.flatMap_congr below, pushed,
      List.flatMap_map, openChildren_eq, step, shown]
    congr 1
    split
    · rfl
    · rfl

/-- Below any frame the walk shows what the recursion renders there. -/
theorem map_shown_subtree (edges : EdgeSet) (limit : Option Nat) (frame : Frame) :
    (subtree (.ofEdges edges) limit frame).map (shown (.ofEdges edges)) =
      edges.render limit frame.ancestors frame.name frame.depth := by
  refine map_shown_subtree_eq (edges.render limit) (fun above node depth => ?_) frame
  rw [EdgeSet.render_eq, Hierarchy.view_ofEdges, Hierarchy.children_ofEdges_eq_filterMap]

/-- A walk gives the nodes of the recursive rendering of its edges, in the same order. -/
theorem ribs_eq_render (edges : EdgeSet) (root : String) (limit : Option Nat) :
    ((ofEdges edges root none).withLimit limit).ribs = edges.render limit [] root 1 := by
  rw [ribs_eq]
  exact (congrArg _ (frames_start (.ofEdges edges) limit root)).trans
    (map_shown_subtree edges limit ⟨root, 1, []⟩)

end Walk

end RibMap
