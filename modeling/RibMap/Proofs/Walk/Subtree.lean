import RibMap.Walk

/-! # Walks as preorders

The frames that a walk takes off its stack form, for every frame, a tree whose children are the
frames put on the stack for it. Without a change of the limit a walk visits, one after the other,
the trees of the frames on its stack, each of them in preorder. Everything that a walk shows and
reports is a function of this list of frames.
-/

namespace RibMap.Walk

variable (hierarchy : Hierarchy) (limit : Option Nat)

/-- A frame and everything visited below it, in preorder. -/
def subtree (frame : Frame) : List Frame :=
  frame :: (pushed hierarchy limit frame).attach.flatMap fun child => subtree child.val
termination_by hierarchy.fresh frame.path
decreasing_by exact fresh_lt_of_mem_pushed child.property

theorem subtree_eq (frame : Frame) :
    subtree hierarchy limit frame =
      frame :: (pushed hierarchy limit frame).flatMap (subtree hierarchy limit) := by
  rw [subtree, List.flatMap_subtype fun _ _ => rfl, List.unattach_attach]

/-- Induction along the trees: what passes from the children of a frame to the frame holds of every
frame. -/
theorem frame_induction {P : Frame → Prop}
    (step : ∀ frame, (∀ child ∈ pushed hierarchy limit frame, P child) → P frame)
    (frame : Frame) : P frame := by
  induction size : hierarchy.fresh frame.path using Nat.strongRecOn generalizing frame with
  | ind n ih =>
    refine step frame fun child put => ?_
    exact ih _ (size ▸ fresh_lt_of_mem_pushed put) child rfl

/-- What a visit of a frame gives. -/
def visitOf (frame : Frame) : Visit :=
  ⟨shown hierarchy frame, cycles hierarchy limit frame⟩

/-- All frames that a walk will take off its stack, in order. -/
def frames (walk : Walk) : List Frame :=
  walk.stack.flatMap (subtree walk.hierarchy walk.limit)

theorem frames_cons (frame : Frame) (rest : List Frame) :
    frames ⟨hierarchy, limit, frame :: rest⟩ =
      frame :: frames ⟨hierarchy, limit, pushed hierarchy limit frame ++ rest⟩ := by
  simp only [frames, List.flatMap_append, List.flatMap_cons, subtree_eq _ _ frame,
    List.cons_append]

/-- The walk with its stack is the recursion that visits every frame before the trees below it. -/
theorem visits_eq (walk : Walk) :
    walk.visits = walk.frames.map (visitOf walk.hierarchy walk.limit) := by
  fun_induction visits walk with
  | case1 walk step =>
    obtain ⟨hierarchy, limit, stack⟩ := walk
    cases stack with
    | nil => rfl
    | cons frame rest =>
      rw [next?_cons] at step
      contradiction
  | case2 walk visit after step ih =>
    obtain ⟨hierarchy, limit, stack⟩ := walk
    cases stack with
    | nil => contradiction
    | cons frame rest =>
      rw [next?_cons] at step
      cases step
      -- The tree of the top frame is the frame and the trees of the frames now put in its place.
      rw [ih, frames_cons, List.map_cons, visitOf]

theorem ribs_eq (walk : Walk) : walk.ribs = walk.frames.map (shown walk.hierarchy) := by
  simp only [ribs, visits_eq, List.map_map]
  rfl

theorem events_eq (walk : Walk) :
    walk.events = walk.frames.flatMap (cycles walk.hierarchy walk.limit) := by
  simp only [events, visits_eq, List.flatMap_map, visitOf]

theorem frames_start (root : String) :
    (start hierarchy root limit).frames = subtree hierarchy limit ⟨root, 1, []⟩ := by
  simp only [frames, start, List.flatMap_cons, List.flatMap_nil, List.append_nil]

theorem visits_start (root : String) :
    (start hierarchy root limit).visits =
      (subtree hierarchy limit ⟨root, 1, []⟩).map (visitOf hierarchy limit) := by
  rw [visits_eq, frames_start]
  rfl

theorem ribs_start (root : String) :
    (start hierarchy root limit).ribs =
      (subtree hierarchy limit ⟨root, 1, []⟩).map (shown hierarchy) := by
  rw [ribs_eq, frames_start]
  rfl

variable {hierarchy limit}

theorem mem_subtree {frame other : Frame} :
    other ∈ subtree hierarchy limit frame ↔
      other = frame ∨ ∃ child ∈ pushed hierarchy limit frame,
        other ∈ subtree hierarchy limit child := by
  rw [subtree_eq, List.mem_cons, List.mem_flatMap]

theorem mem_subtree_self (frame : Frame) : frame ∈ subtree hierarchy limit frame :=
  mem_subtree.mpr (.inl rfl)

/-- What holds of a frame, and passes from every frame to those put on the stack for it, holds of
all frames visited below. -/
theorem forall_mem_subtree {P : Frame → Prop} {frame : Frame} (top : P frame)
    (step : ∀ parent child, P parent → child ∈ pushed hierarchy limit parent → P child) :
    ∀ other ∈ subtree hierarchy limit frame, P other := by
  induction frame using frame_induction hierarchy limit with
  | step frame ih =>
    intro other mem
    rcases mem_subtree.mp mem with rfl | ⟨child, put, below⟩
    · exact top
    · exact ih child put (step frame child top put) other below

/-- What is put on the stack for a visited frame is visited. -/
theorem mem_subtree_of_mem_pushed {frame parent child : Frame}
    (visited : parent ∈ subtree hierarchy limit frame)
    (put : child ∈ pushed hierarchy limit parent) : child ∈ subtree hierarchy limit frame := by
  induction frame using frame_induction hierarchy limit with
  | step frame ih =>
    rcases mem_subtree.mp visited with rfl | ⟨between, first, below⟩
    · exact mem_subtree.mpr (.inr ⟨child, put, mem_subtree.mpr (.inl rfl)⟩)
    · exact mem_subtree.mpr (.inr ⟨between, first, ih between first below⟩)

/-- What holds of a frame, and passes from every visited frame to those put on the stack for it,
holds of all frames visited below. -/
theorem forall_visited {P : Frame → Prop} {frame : Frame} (top : P frame)
    (step : ∀ parent ∈ subtree hierarchy limit frame, ∀ child ∈ pushed hierarchy limit parent,
      P parent → P child) : ∀ other ∈ subtree hierarchy limit frame, P other := by
  intro other mem
  have both : other ∈ subtree hierarchy limit frame ∧ P other := by
    refine forall_mem_subtree (P := fun other => other ∈ subtree hierarchy limit frame ∧ P other)
      ⟨mem_subtree_self frame, top⟩ ?_ other mem
    rintro parent child ⟨visited, holds⟩ put
    exact ⟨mem_subtree_of_mem_pushed visited put, step parent visited child put holds⟩
  exact both.2

theorem lt_of_mem_pushed {frame child : Frame} (put : child ∈ pushed hierarchy limit frame) :
    ∀ most ∈ limit, frame.depth < most := by
  obtain ⟨opened, -, -⟩ := mem_pushed.mp put
  rw [openChildren_eq] at opened
  split at opened
  · assumption
  · cases opened

theorem depth_le_of_mem_subtree {frame other : Frame}
    (mem : other ∈ subtree hierarchy limit frame) : frame.depth ≤ other.depth := by
  refine forall_mem_subtree (P := fun other => frame.depth ≤ other.depth) (Nat.le_refl _) ?_
    other mem
  intro parent child deep put
  obtain ⟨_, _, same⟩ := mem_pushed.mp put
  rw [same]
  exact Nat.le_succ_of_le deep

/-- Nothing but the first frame is visited deeper than the limit. -/
theorem depth_le_max_of_mem_subtree {frame other : Frame} {most : Nat} (bound : most ∈ limit)
    (mem : other ∈ subtree hierarchy limit frame) : other.depth ≤ max most frame.depth := by
  refine forall_mem_subtree (P := fun other => other.depth ≤ max most frame.depth)
    (Nat.le_max_right _ _) ?_ other mem
  intro parent child _ put
  have admitted := lt_of_mem_pushed put most bound
  rw [depth_of_mem_pushed put]
  exact Nat.le_trans admitted (Nat.le_max_left _ _)

/-- The path of a frame leads to everything below it. -/
theorem path_prefix_of_mem_subtree {frame other : Frame}
    (mem : other ∈ subtree hierarchy limit frame) : frame.path <+: other.path := by
  refine forall_mem_subtree (P := fun other => frame.path <+: other.path) (List.prefix_refl _) ?_
    other mem
  intro parent child leads put
  obtain ⟨_, _, same⟩ := mem_pushed.mp put
  rw [same]
  exact leads.trans (List.prefix_append _ _)

end RibMap.Walk
