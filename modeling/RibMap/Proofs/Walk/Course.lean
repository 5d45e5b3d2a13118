import RibMap.Proofs.Walk.Ancestry
import RibMap.Proofs.Walk.NamePath

/-! # Walks under a changing limit

Between two nodes a walk may be given another depth limit. What it does is recorded as the frames
that it takes off its stack, each with the limit in force at this moment: such a frame is followed
by those of its children, or the frames below it are left out. Everything that holds of a whole run
comes from one step of the record.
-/

namespace RibMap.Walk

/-- What a walk is asked for: its next node, or to go on under another limit. -/
inductive Request where
  | next
  | limit (limit : Option Nat)
  deriving DecidableEq, Repr

/-- A node that a walk gave, and the limit in force at this moment. -/
structure Given where
  rib : Rib
  limit : Option Nat
  deriving DecidableEq, Repr

/-- The nodes that a walk gives when it is asked for one thing after the other, and the walk after
that. -/
def serve (walk : Walk) : List Request → List Given × Walk
  | [] => ([], walk)
  | .limit limit :: later => (walk.withLimit limit).serve later
  | .next :: later =>
    match walk.next? with
    | none => walk.serve later
    | some (visit, after) =>
      let (given, last) := after.serve later
      (⟨visit.rib, walk.limit⟩ :: given, last)

/-- A frame that a walk took off its stack, and the limit in force at this moment. -/
structure Stop where
  frame : Frame
  limit : Option Nat

namespace Stop

/-- The limit lets the walk go on to the children of the frame. -/
def Open (stop : Stop) : Prop :=
  ∀ most ∈ stop.limit, stop.frame.depth < most

instance (stop : Stop) : Decidable stop.Open :=
  inferInstanceAs (Decidable (∀ most ∈ stop.limit, _))

/-- The node that is given at a stop. -/
def given (hierarchy : Hierarchy) (stop : Stop) : Given :=
  ⟨shown hierarchy stop.frame, stop.limit⟩

/-- What a walk without a limit visits below the frame of a stop, if the stop is not open. -/
def omitted (hierarchy : Hierarchy) (stop : Stop) : List Frame :=
  if stop.Open then []
  else (pushed hierarchy none stop.frame).flatMap (subtree hierarchy none)

/-- The frame of a stop, and what is left out below it. -/
def block (hierarchy : Hierarchy) (stop : Stop) : List Frame :=
  stop.frame :: stop.omitted hierarchy

end Stop

theorem pushed_eq (hierarchy : Hierarchy) (limit : Option Nat) (frame : Frame) :
    pushed hierarchy limit frame =
      if Stop.Open ⟨frame, limit⟩ then pushed hierarchy none frame else [] := by
  have allowed : openChildren hierarchy limit frame =
      if Stop.Open ⟨frame, limit⟩ then openChildren hierarchy none frame else [] :=
    openChildren_eq hierarchy limit frame
  rw [pushed, allowed]
  split
  · rfl
  · rfl

/-- What is left out at a stop is deeper than its frame, and the stop is not open. -/
theorem Stop.of_mem_omitted {hierarchy : Hierarchy} {stop : Stop} {frame : Frame}
    (mem : frame ∈ stop.omitted hierarchy) : ¬ stop.Open ∧ stop.frame.depth < frame.depth := by
  rw [omitted] at mem
  split at mem
  · cases mem
  · rename_i closed
    obtain ⟨child, put, below⟩ := List.mem_flatMap.mp mem
    have deep := depth_le_of_mem_subtree below
    rw [depth_of_mem_pushed put] at deep
    exact ⟨closed, deep⟩

/-- From one stack to another with stops on the way: at each of them the top frame is replaced by
the frames that are put on the stack for it under the limit of the stop. -/
inductive Course (hierarchy : Hierarchy) : List Frame → List Stop → List Frame → Prop
  | still (stack : List Frame) : Course hierarchy stack [] stack
  | visit {frame : Frame} {rest last : List Frame} {stops : List Stop} (limit : Option Nat)
      (onward : Course hierarchy (pushed hierarchy limit frame ++ rest) stops last) :
      Course hierarchy (frame :: rest) (⟨frame, limit⟩ :: stops) last

/-- Serving requests is a course, at whose stops the nodes are given. -/
theorem exists_course (walk : Walk) (requests : List Request) :
    ∃ stops, Course walk.hierarchy walk.stack stops (walk.serve requests).2.stack ∧
      (walk.serve requests).1 = stops.map (Stop.given walk.hierarchy) := by
  induction requests generalizing walk with
  | nil => exact ⟨[], .still walk.stack, rfl⟩
  | cons request later ih =>
    cases request with
    | limit limit => exact ih (walk.withLimit limit)
    | next =>
      obtain ⟨hierarchy, limit, stack⟩ := walk
      cases stack with
      | nil => exact ih ⟨hierarchy, limit, []⟩
      | cons frame rest =>
        obtain ⟨stops, course, same⟩ := ih ⟨hierarchy, limit, pushed hierarchy limit frame ++ rest⟩
        simp only [serve, next?_cons]
        exact ⟨⟨frame, limit⟩ :: stops, .visit limit course, congrArg (_ :: ·) same⟩

namespace Course

variable {hierarchy : Hierarchy} {stack last : List Frame} {stops : List Stop}

/-- What holds of all frames on the stack, and passes from every frame to those put on the stack for
it, holds at every stop. -/
theorem forall_mem {P : Frame → Prop} (course : Course hierarchy stack stops last)
    (all : ∀ frame ∈ stack, P frame)
    (step : ∀ frame limit child, P frame → child ∈ pushed hierarchy limit frame → P child) :
    ∀ stop ∈ stops, P stop.frame := by
  induction course with
  | still => exact fun _ mem => absurd mem List.not_mem_nil
  | @visit frame rest last stops limit onward ih =>
    have top := all frame List.mem_cons_self
    intro stop mem
    rcases List.mem_cons.mp mem with rfl | later
    · exact top
    · refine ih ?_ stop later
      intro other mem
      rcases List.mem_append.mp mem with put | kept
      · exact step frame limit other top put
      · exact all other (List.mem_cons_of_mem _ kept)

/-- A walk without a limit visits, between one stop and the next, what is left out there. -/
theorem frames_eq (course : Course hierarchy stack stops last) :
    stack.flatMap (subtree hierarchy none) =
      stops.flatMap (Stop.block hierarchy) ++ last.flatMap (subtree hierarchy none) := by
  induction course with
  | still => rfl
  | @visit frame rest last stops limit onward ih =>
    rw [List.flatMap_cons, List.flatMap_cons, subtree_eq, Stop.block, Stop.omitted,
      List.append_assoc, ← ih, List.flatMap_append, pushed_eq hierarchy limit]
    split
    · simp
    · simp

/-- The first stop is the frame on top of the stack. -/
theorem head_eq (course : Course hierarchy stack stops last) {stop : Stop}
    (first : stops.head? = some stop) : stack.head? = some stop.frame := by
  cases course with
  | still => contradiction
  | visit limit onward =>
    cases first
    rfl

end Course

/-- No frame on a stack is deeper than one above it. -/
def Descending (stack : List Frame) : Prop :=
  stack.Pairwise fun above below => below.depth ≤ above.depth

theorem Descending.visit {hierarchy : Hierarchy} {limit : Option Nat} {frame : Frame}
    {rest : List Frame} (descending : Descending (frame :: rest)) :
    Descending (pushed hierarchy limit frame ++ rest) := by
  obtain ⟨top, below⟩ := List.pairwise_cons.mp descending
  refine List.pairwise_append.mpr ⟨?_, below, ?_⟩
  · refine List.pairwise_of_forall_mem_list fun first put second put' => ?_
    rw [depth_of_mem_pushed put, depth_of_mem_pushed put']
  · intro child put other mem
    rw [depth_of_mem_pushed put]
    exact Nat.le_succ_of_le (top other mem)

/-- The next stop is at most one deeper, and not deeper at all if the stop before it is not open. -/
def Stop.Follows (before after : Stop) : Prop :=
  after.frame.depth ≤ before.frame.depth + 1 ∧
    (¬ before.Open → after.frame.depth ≤ before.frame.depth)

theorem Course.isChain {hierarchy : Hierarchy} {stack last : List Frame} {stops : List Stop}
    (course : Course hierarchy stack stops last) (descending : Descending stack) :
    stops.IsChain Stop.Follows := by
  induction course with
  | still => exact .nil
  | @visit frame rest last stops limit onward ih =>
    refine List.isChain_cons.mpr ⟨fun next first => ?_, ih descending.visit⟩
    have top := onward.head_eq first
    have lower (kept : next.frame ∈ rest) : next.frame.depth ≤ frame.depth :=
      List.rel_of_pairwise_cons descending kept
    rcases List.mem_append.mp (List.mem_of_mem_head? top) with put | kept
    · refine ⟨(depth_of_mem_pushed put).le, fun closed => ?_⟩
      rw [pushed_eq, if_neg closed] at put
      cases put
    · exact ⟨Nat.le_succ_of_le (lower kept), fun _ => lower kept⟩

/-- The nodes given so far show, by their depths, the ancestors of every frame on the stack. -/
structure Spined (earlier : List Rib) (stack : List Frame) : Prop where
  descending : Descending stack
  depth_eq : ∀ frame ∈ stack, frame.depth = frame.ancestors.length + 1
  spine_eq : ∀ frame ∈ stack,
    Rib.spine? earlier frame.ancestors.length = some frame.ancestors

theorem spined_root (root : String) : Spined [] [⟨root, 1, []⟩] :=
  ⟨List.pairwise_singleton _ _, by simp, by simp [Rib.spine?]⟩

theorem Spined.visit {hierarchy : Hierarchy} {limit : Option Nat} {earlier : List Rib}
    {frame : Frame} {rest : List Frame} (spined : Spined earlier (frame :: rest)) :
    Spined (earlier ++ [shown hierarchy frame]) (pushed hierarchy limit frame ++ rest) := by
  obtain ⟨descending, depths, spines⟩ := spined
  have deep : frame.depth = frame.ancestors.length + 1 := depths frame List.mem_cons_self
  have deep' : (shown hierarchy frame).depth = frame.ancestors.length + 1 := deep
  have spine := Rib.spine?_snoc (spines frame List.mem_cons_self) deep'
  refine ⟨descending.visit, ?_, ?_⟩
  · intro other mem
    rcases List.mem_append.mp mem with put | kept
    · rw [depth_of_mem_pushed put, ancestors_of_mem_pushed put, deep]
      simp [Frame.path]
    · exact depths other (List.mem_cons_of_mem _ kept)
  · intro other mem
    rcases List.mem_append.mp mem with put | kept
    · rw [ancestors_of_mem_pushed put]
      exact spine
    · have kept' := List.mem_cons_of_mem frame kept
      rw [Rib.spine?_append, spines other kept']
      intro rib mem
      -- The new node is as deep as the frame, and no frame below it on the stack is deeper.
      have lower : other.depth ≤ frame.depth := List.rel_of_pairwise_cons descending kept
      rw [depths other kept'] at lower
      rw [List.mem_singleton.mp mem]
      exact lower

/-- The depths of the nodes given on a course show the paths of their frames. -/
theorem Course.namePathsAfter_eq {hierarchy : Hierarchy} {stack last : List Frame}
    {stops : List Stop} (course : Course hierarchy stack stops last) {earlier : List Rib}
    (spined : Spined earlier stack) :
    Rib.namePathsAfter earlier (stops.map fun stop => shown hierarchy stop.frame) =
      stops.map fun stop => some stop.frame.path := by
  induction course generalizing earlier with
  | still => rfl
  | @visit frame rest last stops limit onward ih =>
    have deep := spined.depth_eq frame List.mem_cons_self
    have here : Rib.namePath? earlier (shown hierarchy frame) = some frame.path := by
      simp [Rib.namePath?, shown, deep, spined.spine_eq frame List.mem_cons_self, Frame.path]
    rw [List.map_cons, List.map_cons, Rib.namePathsAfter, here, ih spined.visit]

/-- A walk that keeps its limit to the end stops at all of its frames. -/
theorem course_frames (walk : Walk) :
    Course walk.hierarchy walk.stack (walk.frames.map fun frame => ⟨frame, walk.limit⟩) [] := by
  induction walk using visits.induct with
  | case1 walk ended =>
    obtain ⟨hierarchy, limit, stack⟩ := walk
    obtain rfl : stack = [] := next?_eq_none_iff.mp ended
    exact .still []
  | case2 walk visit after step ih =>
    obtain ⟨hierarchy, limit, stack⟩ := walk
    cases stack with
    | nil => contradiction
    | cons frame rest =>
      rw [next?_cons] at step
      cases step
      rw [frames_cons]
      exact .visit limit ih

/-- The depths of a complete walk show the paths of its frames. -/
theorem namePaths_ribs (edges : EdgeSet) (root : String) (limit : Option Nat) :
    Rib.namePaths ((ofEdges edges root none).withLimit limit).ribs =
      (subtree (.ofEdges edges) limit ⟨root, 1, []⟩).map (some ∘ Frame.path) := by
  have paths := (course_frames (start (.ofEdges edges) root limit)).namePathsAfter_eq
    (spined_root root)
  rw [frames_start, List.map_map, List.map_map] at paths
  exact (congrArg _ (ribs_start (.ofEdges edges) limit root)).trans paths

end RibMap.Walk
