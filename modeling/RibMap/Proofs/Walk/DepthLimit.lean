import Mathlib.Data.List.Basic
import RibMap.Proofs.Walk.Subtree

/-! # Walks under a depth limit

A depth limit cuts trees off and does nothing else. The nodes beyond it are left out, at the limit
nothing is reported any more, and everything above it is visited and reported as it is without a
limit, in the same order.
-/

namespace RibMap

/-- A visit as it is under a depth limit: from the limit on nothing is reported. -/
def Visit.under (most : Nat) (visit : Visit) : Visit :=
  if visit.rib.depth < most then visit else { visit with events := [] }

theorem Visit.rib_under (most : Nat) (visit : Visit) : (visit.under most).rib = visit.rib := by
  rw [under]
  split <;> rfl

theorem Visit.events_under (most : Nat) (visit : Visit) :
    (visit.under most).events = if visit.rib.depth < most then visit.events else [] := by
  rw [under]
  split <;> rfl

namespace Walk

variable {hierarchy : Hierarchy} {most : Nat} {frame : Frame}

theorem openChildren_some (hierarchy : Hierarchy) (most : Nat) (frame : Frame) :
    openChildren hierarchy (some most) frame =
      if frame.depth < most then openChildren hierarchy none frame else [] :=
  rfl

theorem pushed_of_lt (above : frame.depth < most) :
    pushed hierarchy (some most) frame = pushed hierarchy none frame := by
  rw [pushed, openChildren_some, if_pos above, ← pushed]

theorem pushed_of_le (beyond : most ≤ frame.depth) : pushed hierarchy (some most) frame = [] := by
  rw [pushed, openChildren_some, if_neg (Nat.not_lt.mpr beyond), List.filter_nil, List.map_nil]

theorem visitOf_some (hierarchy : Hierarchy) (most : Nat) (frame : Frame) :
    visitOf hierarchy (some most) frame = (visitOf hierarchy none frame).under most := by
  rw [visitOf, cycles, openChildren_some, Visit.under]
  by_cases above : frame.depth < most
  · rw [if_pos above, ← cycles]
    exact (if_pos above).symm
  · rw [if_neg above, List.filter_nil, List.reverse_nil, List.map_nil]
    exact (if_neg above).symm

/-- Whatever is visited strictly below a frame is deeper than the frame. -/
theorem depth_lt_of_mem_subtree_of_mem_pushed {limit : Option Nat} {child other : Frame}
    (put : child ∈ pushed hierarchy limit frame) (below : other ∈ subtree hierarchy limit child) :
    frame.depth < other.depth := by
  have deeper := depth_le_of_mem_subtree below
  rw [depth_of_mem_pushed put] at deeper
  exact deeper

/-- The tree below a frame under a limit is the tree without one, as far as the limit; the frame
itself is visited in any case. -/
theorem subtree_some (hierarchy : Hierarchy) (most : Nat) (frame : Frame) :
    subtree hierarchy (some most) frame =
      (subtree hierarchy none frame).filter fun other =>
        decide (other.depth ≤ max most frame.depth) := by
  induction frame using frame_induction hierarchy none with
  | step frame ih =>
    have here : frame.depth ≤ max most frame.depth := Nat.le_max_right _ _
    rw [subtree_eq, subtree_eq hierarchy none, List.filter_cons, if_pos (decide_eq_true here),
      List.filter_flatMap]
    congr 1
    by_cases above : frame.depth < most
    · -- The children are at most as deep as the limit, so it leaves to them what it leaves here.
      rw [pushed_of_lt above]
      refine List.flatMap_congr fun child put => ?_
      have level : max most child.depth = max most frame.depth := by
        rw [depth_of_mem_pushed put]
        omega
      rw [ih child put, level]
    · have beyond := Nat.not_lt.mp above
      rw [pushed_of_le beyond, List.flatMap_nil, eq_comm, List.flatMap_eq_nil_iff]
      intro child put
      rw [List.filter_eq_nil_iff]
      intro other below
      have deeper := depth_lt_of_mem_subtree_of_mem_pushed put below
      rw [decide_eq_true_eq, Nat.max_eq_right beyond]
      exact Nat.not_le.mpr deeper

/-- The visits of a walk under a limit are those of the walk without one, as far as the limit. -/
theorem visits_start_some (hierarchy : Hierarchy) (root : String) (most : Nat) :
    (start hierarchy root (some most)).visits =
      ((start hierarchy root none).visits.filter fun visit =>
        decide (visit.rib.depth ≤ max most 1)).map (Visit.under most) := by
  rw [visits_start, visits_start, subtree_some, List.filter_map, List.map_map]
  exact List.map_congr_left fun frame _ => visitOf_some hierarchy most frame

theorem ribs_start_some (hierarchy : Hierarchy) (root : String) (most : Nat) :
    (start hierarchy root (some most)).ribs =
      (start hierarchy root none).ribs.filter fun rib => decide (rib.depth ≤ max most 1) := by
  rw [ribs, visits_start_some, List.map_map, ribs, List.filter_map]
  exact List.map_congr_left fun visit _ => visit.rib_under most

theorem flatMap_events_under (most : Nat) (visits : List Visit) :
    (visits.map (Visit.under most)).flatMap Visit.events =
      (visits.filter fun visit => decide (visit.rib.depth < most)).flatMap Visit.events := by
  induction visits with
  | nil => rfl
  | cons visit rest ih =>
    rw [List.map_cons, List.flatMap_cons, ih, Visit.events_under]
    by_cases above : visit.rib.depth < most
    · rw [if_pos above, List.filter_cons, if_pos (decide_eq_true above), List.flatMap_cons]
    · rw [if_neg above, List.filter_cons, if_neg (by simpa using above), List.nil_append]

theorem events_start_some (hierarchy : Hierarchy) (root : String) (most : Nat) :
    (start hierarchy root (some most)).events =
      ((start hierarchy root none).visits.filter fun visit =>
        decide (visit.rib.depth < most)).flatMap Visit.events := by
  rw [events, visits_start_some, flatMap_events_under, List.filter_filter]
  congr 1
  refine List.filter_congr fun visit _ => ?_
  rw [Bool.and_eq_left_iff_imp, decide_eq_true_eq, decide_eq_true_eq]
  omega

/-- Under a depth limit a walk gives the nodes that it gives without one, as far as they are not
deeper than the limit, and always the root. It reports what is reported without a limit at the nodes
above the limit. So a limit beyond all nodes changes nothing. -/
theorem limit_only_cuts (edges : EdgeSet) (root : String) (most : Nat) :
    let whole := ofEdges edges root none
    let cut := whole.withLimit (some most)
    cut.ribs = whole.ribs.filter (fun rib => decide (rib.depth ≤ max most 1)) ∧
      cut.events = (whole.visits.filter fun visit =>
        decide (visit.rib.depth < most)).flatMap Visit.events ∧
      ((∀ rib ∈ whole.ribs, rib.depth < most) → cut.visits = whole.visits) := by
  intro whole cut
  refine ⟨ribs_start_some _ root most, events_start_some _ root most, fun beyond => ?_⟩
  have above (visit : Visit) (given : visit ∈ whole.visits) : visit.rib.depth < most :=
    beyond _ (List.mem_map_of_mem given)
  have kept : (whole.visits.filter fun visit => decide (visit.rib.depth ≤ max most 1)) =
      whole.visits := by
    refine List.filter_eq_self.mpr fun visit given => decide_eq_true ?_
    exact Nat.le_trans (Nat.le_of_lt (above visit given)) (Nat.le_max_left _ _)
  calc
    cut.visits = whole.visits.map (Visit.under most) := by
      rw [← kept]
      exact visits_start_some _ root most
    _ = whole.visits.map id := List.map_congr_left fun visit given => if_pos (above visit given)
    _ = whole.visits := List.map_id _

/-- Posts that their own authors lead back to. -/
def lasso : EdgeSet :=
  .ofList [⟨"FeedInteractable", "PostListener", by decide⟩,
    ⟨"PostInteractable", "AuthorListener", by decide⟩,
    ⟨"AuthorInteractable", "PostListener", by decide⟩]

/-- A limit of three keeps the author and drops the report about the post below it; a limit of four
changes nothing. -/
theorem lasso_limit_only_cuts :
    let whole := ofEdges lasso "Feed" none
    let ribs : List Rib :=
      [⟨"Feed", 1, .viewless⟩, ⟨"Post", 2, .viewless⟩, ⟨"Author", 3, .viewless⟩]
    ((whole.withLimit (some 3)).ribs = ribs ∧ (whole.withLimit (some 3)).events = []) ∧
      (∀ rib ∈ whole.ribs, rib.depth < 4) ∧
      (whole.withLimit (some 4)).visits = whole.visits ∧
      whole.events = [.cycle ["Feed", "Post", "Author"] "Post"] := by
  intro whole ribs
  obtain ⟨nodes, reports, -⟩ := limit_only_cuts lasso "Feed" 3
  have beyond : ∀ rib ∈ whole.ribs, rib.depth < 4 := by decide +kernel
  obtain ⟨-, -, same⟩ := limit_only_cuts lasso "Feed" 4
  refine ⟨⟨nodes.trans ?_, reports.trans ?_⟩, beyond, same beyond, ?_⟩
  · decide +kernel
  · decide +kernel
  · decide +kernel

end Walk

end RibMap
