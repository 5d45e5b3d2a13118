import Mathlib.Algebra.BigOperators.Group.List.Basic
import Mathlib.Algebra.Ring.Nat
import RibMap.Proofs.Walk.Course
import RibMap.Proofs.Walk.Exhaustion
import RibMap.Proofs.Walk.Rendering

/-! # The log of a walk

What a walk reports while it is asked for its next nodes follows from the nodes that it has given by
then: at each of them a warning for every edge that leads back to a name on its path. Every other
edge leads to a node that is given as well, so in a complete walk warnings and nodes together
account for every edge that the limit lets the walk look at.
-/

namespace RibMap

namespace EdgeSet

/-- The children that edges give to a node, one for each edge, in the order of the edges. -/
def childrenOf (edges : EdgeSet) (node : String) : List String :=
  edges.toList.filterMap fun edge => edge.childOf? node

/-- The warnings for a node with the names that lead from the root to it: one for every edge back to
one of these names, the last edge first, and none at all at the depth limit. -/
def cycleLog (edges : EdgeSet) (limit : Option Nat) (rib : Rib) (path : List String) :
    List String :=
  if ∀ most ∈ limit, rib.depth < most then
    ((edges.toList.reverse.filterMap fun edge => edge.childOf? rib.name).filter fun child =>
        decide (child ∈ path)).map fun child =>
      "WARN Cycle detected: " ++ String.intercalate " -> " path ++ " -> " ++ child ++
        ", branch truncated"
  else []

end EdgeSet

theorem Rib.namePathsAfter_take (earlier ribs : List Rib) (count : Nat) :
    namePathsAfter earlier (ribs.take count) = (namePathsAfter earlier ribs).take count := by
  induction ribs generalizing earlier count with
  | nil => simp [namePathsAfter]
  | cons rib later ih =>
    cases count with
    | zero => rfl
    | succ count =>
      rw [List.take_succ_cons, namePathsAfter, namePathsAfter, ih, List.take_succ_cons]

/-- The line that an event about a cycle makes in a log. -/
theorem Event.entry_cycle {path : List String} (nonempty : path ≠ []) (child : String) :
    (cycle path child).entry =
      "WARN Cycle detected: " ++ String.intercalate " -> " path ++ " -> " ++ child ++
        ", branch truncated" := by
  have worded : (cycle path child).entry = "WARN" ++ " " ++
      ("Cycle detected: " ++ String.intercalate " -> " (path ++ [child]) ++ ", branch truncated") :=
    rfl
  have start : "WARN Cycle detected: " = "WARN" ++ " " ++ "Cycle detected: " := by decide +kernel
  rw [worded, start, String.intercalate_append_of_ne_nil nonempty (List.cons_ne_nil _ _),
    String.intercalate_singleton]
  simp only [String.append_assoc]

namespace Walk

/-- The visits that a number of calls for the next node give. A call that finds no node leaves the
walk as it is. -/
def firstVisits (walk : Walk) : Nat → List Visit
  | 0 => []
  | calls + 1 =>
    match walk.next? with
    | none => walk.firstVisits calls
    | some (visit, after) => visit :: after.firstVisits calls

theorem firstVisits_eq_take (walk : Walk) (calls : Nat) :
    walk.firstVisits calls = walk.visits.take calls := by
  induction calls generalizing walk with
  | zero => rfl
  | succ calls ih =>
    rw [firstVisits]
    cases step : walk.next? with
    | none => simp [ih, visits_of_next?_eq_none step]
    | some answer => simp [ih, visits_of_next?_eq_some step]

section

variable (hierarchy : Hierarchy) (limit : Option Nat)

/-- Every open child of a frame is put on the stack or reported. -/
theorem length_pushed_add_length_cycles (frame : Frame) :
    (pushed hierarchy limit frame).length + (cycles hierarchy limit frame).length =
      (openChildren hierarchy limit frame).length := by
  rw [List.length_eq_length_filter_add fun child => decide (child ∉ frame.path)]
  simp only [pushed, cycles, List.length_map, List.length_reverse, decide_not, Bool.not_not]

/-- The nodes and reports below a frame are the frame itself and, for every node, its open children:
each of these is a node of its own or a report. -/
theorem length_subtree_add_length_cycles (frame : Frame) :
    (subtree hierarchy limit frame).length +
        ((subtree hierarchy limit frame).flatMap (cycles hierarchy limit)).length =
      1 + ((subtree hierarchy limit frame).map fun below =>
        (openChildren hierarchy limit below).length).sum := by
  induction frame using frame_induction hierarchy limit with
  | step frame ih =>
    have below (children : List Frame) (put : children ⊆ pushed hierarchy limit frame) :
        (children.flatMap (subtree hierarchy limit)).length +
            ((children.flatMap (subtree hierarchy limit)).flatMap
              (cycles hierarchy limit)).length =
          children.length + ((children.flatMap (subtree hierarchy limit)).map fun below =>
            (openChildren hierarchy limit below).length).sum := by
      induction children with
      | nil => rfl
      | cons child rest ihRest =>
        obtain ⟨first, others⟩ := List.cons_subset.mp put
        have := ih child first
        have := ihRest others
        simp only [List.flatMap_cons, List.flatMap_append, List.map_append, List.sum_append,
          List.length_append, List.length_cons]
        omega
    have children := below _ (List.Subset.refl _)
    have here := length_pushed_add_length_cycles hierarchy limit frame
    rw [subtree_eq]
    simp only [List.length_cons, List.flatMap_cons, List.length_append, List.map_cons,
      List.sum_cons]
    omega

end

section

variable (edges : EdgeSet) (limit : Option Nat)

/-- What is reported at a frame, read off its node and its path. -/
theorem map_entry_cycles (frame : Frame) :
    (cycles (.ofEdges edges) limit frame).map Event.entry =
      edges.cycleLog limit (shown (.ofEdges edges) frame) frame.path := by
  have nonempty : frame.path ≠ [] := by simp [Frame.path]
  rw [cycles, List.map_map, ← List.filter_reverse, openChildren_eq,
    Hierarchy.children_ofEdges_eq_filterMap, EdgeSet.cycleLog, shown]
  by_cases deeper : ∀ most ∈ limit, frame.depth < most
  · rw [if_pos deeper, if_pos deeper, ← List.filterMap_reverse]
    exact List.map_congr_left fun child _ => Event.entry_cycle nonempty child
  · rw [if_neg deeper, if_neg deeper]
    rfl

theorem length_openChildren (frame : Frame) :
    (openChildren (.ofEdges edges) limit frame).length =
      if ∀ most ∈ limit, (shown (.ofEdges edges) frame).depth < most then
        (edges.childrenOf (shown (.ofEdges edges) frame).name).length
      else 0 := by
  rw [openChildren_eq, Hierarchy.children_ofEdges_eq_filterMap, apply_ite List.length]
  rfl

end

/-- While a walk is asked for its nodes, the log grows node by node: with each it takes up the
warnings about the edges from the node back to a name on its path, as the depths of the nodes show
it. In a complete walk there are as many warnings and nodes, the root apart, as there are edges from
the nodes above the limit to their children. -/
theorem log_of_first_calls (edges : EdgeSet) (root : String) (limit : Option Nat) :
    let walk := (ofEdges edges root none).withLimit limit
    (∀ calls,
      let ribs := (walk.firstVisits calls).map Visit.rib
      ∃ paths, Rib.namePaths ribs = paths.map some ∧
        ((walk.firstVisits calls).flatMap Visit.events).map Event.entry =
          (ribs.zip paths).flatMap fun given => edges.cycleLog limit given.1 given.2) ∧
      walk.events.length + walk.ribs.length =
        1 + ((walk.ribs.filter fun rib => decide (∀ most ∈ limit, rib.depth < most)).map fun rib =>
          (edges.childrenOf rib.name).length).sum := by
  intro walk
  have visits : walk.visits = (subtree (.ofEdges edges) limit ⟨root, 1, []⟩).map
      (visitOf (.ofEdges edges) limit) :=
    visits_start (.ofEdges edges) limit root
  have ribs : walk.ribs = (subtree (.ofEdges edges) limit ⟨root, 1, []⟩).map
      (shown (.ofEdges edges)) :=
    ribs_start (.ofEdges edges) limit root
  constructor
  · intro calls
    let frames := (subtree (.ofEdges edges) limit ⟨root, 1, []⟩).take calls
    have given : walk.firstVisits calls = frames.map (visitOf (.ofEdges edges) limit) := by
      rw [firstVisits_eq_take, visits, List.map_take]
    have shows : (walk.firstVisits calls).map Visit.rib = frames.map (shown (.ofEdges edges)) := by
      rw [given, List.map_map]
      rfl
    refine ⟨frames.map Frame.path, ?_, ?_⟩
    · rw [shows, List.map_map, List.map_take, ← ribs, Rib.namePaths, Rib.namePathsAfter_take,
        List.map_take]
      exact congrArg _ (namePaths_ribs edges root limit)
    · rw [shows, given, List.zip_map', List.flatMap_map, List.flatMap_map, List.map_flatMap]
      exact List.flatMap_congr fun frame _ => map_entry_cycles edges limit frame
  · have counted := length_subtree_add_length_cycles (.ofEdges edges) limit ⟨root, 1, []⟩
    have reported : walk.events = (subtree (.ofEdges edges) limit ⟨root, 1, []⟩).flatMap
        (cycles (.ofEdges edges) limit) := by
      rw [events, visits, List.flatMap_map]
      rfl
    simp only [length_openChildren] at counted
    rw [List.sum_map_ite, List.map_const', List.sum_replicate, nsmul_zero] at counted
    rw [reported, ribs, List.length_map, List.filter_map, List.map_map]
    simp only [Function.comp_def]
    omega

end Walk

end RibMap
