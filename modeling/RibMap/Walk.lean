import RibMap.Event
import RibMap.Hierarchy

/-! # Walks over a hierarchy

A walk visits a root and then, depth first, the children of every node, the siblings in the order of
the edges. It keeps the nodes still to be visited on a stack, each with the path that leads to it,
and never follows a child that is on this path. A depth limit may change between steps; it decides
whether the children of the node of a step are put on the stack.
-/

namespace RibMap

structure Rib where
  name : String
  /-- The root has depth one. -/
  depth : Nat
  view : View
  deriving DecidableEq, Repr

/-- The line that shows a node. -/
def Rib.line (rib : Rib) : String :=
  String.ofList (List.replicate rib.depth '*') ++ " " ++ rib.name ++ rib.view.mark

/-- A node still to be visited, with its ancestors from the root on. -/
structure Frame where
  name : String
  depth : Nat
  ancestors : List String
  deriving DecidableEq, Repr

/-- The names from the root to a node. -/
def Frame.path (frame : Frame) : List String :=
  frame.ancestors ++ [frame.name]

/-- A walk on its way; the next node is the first on the stack. -/
structure Walk where
  hierarchy : Hierarchy
  limit : Option Nat
  stack : List Frame

/-- What one step of a walk gives: the node, and what is reported on the way to it. -/
structure Visit where
  rib : Rib
  events : List Event

namespace Walk

def start (hierarchy : Hierarchy) (root : String) (limit : Option Nat) : Walk :=
  ⟨hierarchy, limit, [⟨root, 1, []⟩]⟩

/-- The walk over the hierarchy of an edge set. -/
def ofEdges (edges : EdgeSet) (root : String) (limit : Option Nat) : Walk :=
  start (.ofEdges edges) root limit

/-- Change the depth limit from here on. -/
def withLimit (walk : Walk) (limit : Option Nat) : Walk :=
  { walk with limit := limit }

section

variable (hierarchy : Hierarchy) (limit : Option Nat)

/-- The children of a node that may be visited at all: none at or below the depth limit. -/
def openChildren (frame : Frame) : List String :=
  match limit with
  | none => hierarchy.children frame.name
  | some limit => if frame.depth < limit then hierarchy.children frame.name else []

/-- Put a child on the stack, or report that it is on the path already. -/
def offer (frame : Frame) (pending : List Frame × List Event) (child : String) :
    List Frame × List Event :=
  if child ∈ frame.path then (pending.1, pending.2 ++ [.cycle frame.path child])
  else (⟨child, frame.depth + 1, frame.path⟩ :: pending.1, pending.2)

/-- Offer the children of a node from the last to the first, so that the first of them ends up on
top of the stack. -/
def expand (frame : Frame) (rest : List Frame) : List Frame × List Event :=
  (openChildren hierarchy limit frame).reverse.foldl (offer frame) (rest, [])

/-- What is seen of a node. -/
def shown (frame : Frame) : Rib :=
  ⟨frame.name, frame.depth, hierarchy.view frame.name⟩

/-- The frames of the children that are not on the path, in their order. -/
def pushed (frame : Frame) : List Frame :=
  let fresh := (openChildren hierarchy limit frame).filter fun child => decide (child ∉ frame.path)
  fresh.map fun child => ⟨child, frame.depth + 1, frame.path⟩

/-- The reports about the children on the path, the last child first. -/
def cycles (frame : Frame) : List Event :=
  let repeated := (openChildren hierarchy limit frame).filter fun child =>
    decide (child ∈ frame.path)
  repeated.reverse.map fun child => .cycle frame.path child

end

/-- Visit the next node. -/
def next? (walk : Walk) : Option (Visit × Walk) :=
  match walk.stack with
  | [] => none
  | frame :: rest =>
    let (stack, events) := expand walk.hierarchy walk.limit frame rest
    some (⟨shown walk.hierarchy frame, events⟩, { walk with stack := stack })

theorem foldl_offer (frame : Frame) (children : List String) (stack : List Frame)
    (events : List Event) :
    children.foldl (offer frame) (stack, events) =
      (((children.reverse.filter fun child => decide (child ∉ frame.path)).map
          fun child => ⟨child, frame.depth + 1, frame.path⟩) ++ stack,
        events ++ (children.filter fun child => decide (child ∈ frame.path)).map
          fun child => .cycle frame.path child) := by
  induction children generalizing stack events with
  | nil => simp
  | cons child rest ih =>
    by_cases repeated : child ∈ frame.path
    · simp [offer, repeated, ih]
    · simp [offer, repeated, ih]

/-- Offering the children last to first puts them on the stack in their order. -/
theorem expand_eq (hierarchy : Hierarchy) (limit : Option Nat) (frame : Frame)
    (rest : List Frame) :
    expand hierarchy limit frame rest =
      (pushed hierarchy limit frame ++ rest, cycles hierarchy limit frame) := by
  simp only [expand, pushed, cycles, foldl_offer, List.reverse_reverse, List.nil_append,
    List.filter_reverse]

theorem next?_cons (hierarchy : Hierarchy) (limit : Option Nat) (frame : Frame)
    (rest : List Frame) :
    next? ⟨hierarchy, limit, frame :: rest⟩ =
      some (⟨shown hierarchy frame, cycles hierarchy limit frame⟩,
        ⟨hierarchy, limit, pushed hierarchy limit frame ++ rest⟩) := by
  simp [next?, expand_eq]

theorem next?_eq_none_iff {walk : Walk} : walk.next? = none ↔ walk.stack = [] := by
  obtain ⟨hierarchy, limit, stack⟩ := walk
  cases stack with
  | nil => simp [next?]
  | cons frame rest => simp [next?_cons]

/-- A bound on the number of visits below a frame, from the names not yet on its path. -/
def weight (hierarchy : Hierarchy) (frame : Frame) : Nat :=
  Nat.pow (hierarchy.offspring.length + 1) (hierarchy.fresh frame.path)

/-- A bound on the number of visits below some frames. -/
def load (hierarchy : Hierarchy) : List Frame → Nat
  | [] => 0
  | frame :: rest => weight hierarchy frame + load hierarchy rest

/-- A bound on the number of visits to come. -/
def measure (walk : Walk) : Nat :=
  load walk.hierarchy walk.stack

theorem load_append (hierarchy : Hierarchy) (first next : List Frame) :
    load hierarchy (first ++ next) = load hierarchy first + load hierarchy next := by
  induction first with
  | nil => simp [load]
  | cons frame rest ih => simp only [List.cons_append, load, ih, Nat.add_assoc]

theorem weight_pos (hierarchy : Hierarchy) (frame : Frame) : 0 < weight hierarchy frame :=
  Nat.pow_pos (Nat.succ_pos _)

theorem openChildren_eq (hierarchy : Hierarchy) (limit : Option Nat) (frame : Frame) :
    openChildren hierarchy limit frame =
      if ∀ most ∈ limit, frame.depth < most then hierarchy.children frame.name else [] := by
  cases limit <;> simp [openChildren]

theorem openChildren_subset {hierarchy : Hierarchy} {limit : Option Nat} {frame : Frame}
    {child : String} (mem : child ∈ openChildren hierarchy limit frame) :
    child ∈ hierarchy.children frame.name := by
  rw [openChildren_eq] at mem
  split at mem
  · exact mem
  · cases mem

theorem length_openChildren_le (hierarchy : Hierarchy) (limit : Option Nat) (frame : Frame) :
    (openChildren hierarchy limit frame).length ≤ hierarchy.offspring.length := by
  rw [openChildren_eq]
  split
  · exact hierarchy.length_children_le frame.name
  · exact Nat.zero_le _

/-- What is put on the stack for a node: its open children that are not on the path. -/
theorem mem_pushed {hierarchy : Hierarchy} {limit : Option Nat} {frame child : Frame} :
    child ∈ pushed hierarchy limit frame ↔
      child.name ∈ openChildren hierarchy limit frame ∧ child.name ∉ frame.path ∧
        child = ⟨child.name, frame.depth + 1, frame.path⟩ := by
  simp only [pushed, List.mem_map, List.mem_filter, decide_eq_true_eq]
  constructor
  · rintro ⟨name, ⟨found, new⟩, rfl⟩
    exact ⟨found, new, rfl⟩
  · rintro ⟨found, new, same⟩
    exact ⟨child.name, ⟨found, new⟩, same.symm⟩

theorem depth_of_mem_pushed {hierarchy : Hierarchy} {limit : Option Nat} {frame child : Frame}
    (mem : child ∈ pushed hierarchy limit frame) : child.depth = frame.depth + 1 := by
  obtain ⟨_, _, same⟩ := mem_pushed.mp mem
  exact congrArg Frame.depth same

theorem ancestors_of_mem_pushed {hierarchy : Hierarchy} {limit : Option Nat} {frame child : Frame}
    (mem : child ∈ pushed hierarchy limit frame) : child.ancestors = frame.path := by
  obtain ⟨_, _, same⟩ := mem_pushed.mp mem
  exact congrArg Frame.ancestors same

/-- A child that is put on the stack leaves fewer names to be met below it. -/
theorem fresh_lt_of_mem_pushed {hierarchy : Hierarchy} {limit : Option Nat} {frame child : Frame}
    (mem : child ∈ pushed hierarchy limit frame) :
    hierarchy.fresh child.path < hierarchy.fresh frame.path := by
  obtain ⟨found, new, same⟩ := mem_pushed.mp mem
  rw [same]
  exact Hierarchy.fresh_append_lt (openChildren_subset found) new

/-- Every frame that is put on the stack weighs at most an equal share of what is left of the
weight of its parent. -/
theorem weight_of_mem_pushed {hierarchy : Hierarchy} {limit : Option Nat} {frame child : Frame}
    (mem : child ∈ pushed hierarchy limit frame) :
    weight hierarchy child * (hierarchy.offspring.length + 1) ≤ weight hierarchy frame := by
  have less := fresh_lt_of_mem_pushed mem
  simp only [weight, Nat.pow_eq]
  rw [← Nat.pow_succ]
  exact Nat.pow_le_pow_right (Nat.succ_pos _) less

theorem load_mul_le {hierarchy : Hierarchy} {frames : List Frame} {share bound : Nat}
    (each : ∀ frame ∈ frames, weight hierarchy frame * share ≤ bound) :
    load hierarchy frames * share ≤ frames.length * bound := by
  induction frames with
  | nil => simp [load]
  | cons first rest ih =>
    have head := each first List.mem_cons_self
    have tail := ih fun frame mem => each frame (List.mem_cons_of_mem _ mem)
    simp only [load, List.length_cons, Nat.add_mul, Nat.one_mul]
    omega

theorem length_pushed_le (hierarchy : Hierarchy) (limit : Option Nat) (frame : Frame) :
    (pushed hierarchy limit frame).length ≤ hierarchy.offspring.length := by
  rw [pushed, List.length_map]
  exact Nat.le_trans (List.length_filter_le ..) (length_openChildren_le hierarchy limit frame)

/-- All that is put on the stack for a frame weighs less than the frame. -/
theorem load_pushed_lt (hierarchy : Hierarchy) (limit : Option Nat) (frame : Frame) :
    load hierarchy (pushed hierarchy limit frame) < weight hierarchy frame := by
  have positive := weight_pos hierarchy frame
  have total : load hierarchy (pushed hierarchy limit frame) * (hierarchy.offspring.length + 1) <
      weight hierarchy frame * (hierarchy.offspring.length + 1) :=
    calc
      _ ≤ (pushed hierarchy limit frame).length * weight hierarchy frame :=
        load_mul_le fun _ mem => weight_of_mem_pushed mem
      _ ≤ hierarchy.offspring.length * weight hierarchy frame :=
        Nat.mul_le_mul_right _ (length_pushed_le hierarchy limit frame)
      _ < weight hierarchy frame * (hierarchy.offspring.length + 1) := by
        rw [Nat.mul_add, Nat.mul_one, Nat.mul_comm]
        exact Nat.lt_add_of_pos_right positive
  exact Nat.lt_of_mul_lt_mul_right total

theorem measure_next?_lt {walk after : Walk} {visit : Visit}
    (step : walk.next? = some (visit, after)) : after.measure < walk.measure := by
  obtain ⟨hierarchy, limit, stack⟩ := walk
  cases stack with
  | nil => cases step
  | cons frame rest =>
    rw [next?_cons] at step
    cases step
    have := load_pushed_lt hierarchy limit frame
    simp only [measure, load_append, load]
    omega

def visits (walk : Walk) : List Visit :=
  match _step : walk.next? with
  | none => []
  | some (visit, after) => visit :: after.visits
termination_by walk.measure
decreasing_by exact measure_next?_lt _step

/-- A walk after all its visits. -/
def exhausted (walk : Walk) : Walk :=
  { walk with stack := [] }

def ribs (walk : Walk) : List Rib :=
  walk.visits.map Visit.rib

/-- Everything that is reported during a walk. -/
def events (walk : Walk) : List Event :=
  walk.visits.flatMap Visit.events

def lines (walk : Walk) : List String :=
  walk.ribs.map Rib.line

end Walk

end RibMap
