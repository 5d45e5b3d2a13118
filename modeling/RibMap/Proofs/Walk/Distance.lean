import Mathlib.Data.Nat.Find
import Mathlib.Logic.Relation
import Mathlib.Order.Bounds.Basic
import RibMap.Proofs.Parenthood
import RibMap.Proofs.Walk.Subtree

/-! # Distances from the root

A walk goes deep first and never meets a name twice on its way down, so it often comes to a name by
a detour, and at a detour the limit may cut it off. No name is lost this way. Along a shortest way
every name is shown at most as deep as the way is long: where a child cannot follow because it is on
the path already, it was shown higher up.
-/

namespace RibMap

/-- A relation leads from one name to another in a number of steps. -/
inductive LeadsIn (r : String → String → Prop) (root : String) : Nat → String → Prop
  | start : LeadsIn r root 0 root
  | step {steps : Nat} {parent child : String} (before : LeadsIn r root steps parent)
      (link : r parent child) : LeadsIn r root (steps + 1) child

theorem exists_leadsIn_iff {r : String → String → Prop} {root name : String} :
    (∃ steps, LeadsIn r root steps name) ↔ Relation.ReflTransGen r root name := by
  constructor
  · rintro ⟨steps, leads⟩
    induction leads with
    | start => exact .refl
    | step _ link ih => exact .tail ih link
  · intro reached
    induction reached with
    | refl => exact ⟨0, .start⟩
    | tail _ link ih =>
      obtain ⟨steps, leads⟩ := ih
      exact ⟨steps + 1, leads.step link⟩

/-- Some number of steps is less than a bound exactly if the least one is. -/
theorem exists_lt_iff_isLeast {steps : Set Nat} {bound : Nat} :
    (∃ count ∈ steps, count < bound) ↔ ∃ least, IsLeast steps least ∧ least < bound := by
  constructor
  · rintro ⟨count, mem, less⟩
    classical
    have found : ∃ count, count ∈ steps := ⟨count, mem⟩
    refine ⟨Nat.find found, ⟨Nat.find_spec found, ?_⟩, ?_⟩
    · intro other mem
      exact Nat.find_min' found mem
    · exact Nat.lt_of_le_of_lt (Nat.find_min' found mem) less
  · rintro ⟨least, ⟨mem, -⟩, less⟩
    exact ⟨least, mem, less⟩

namespace Walk

variable {hierarchy : Hierarchy} {limit : Option Nat} {root : String}

/-- Every name on the path of a visited frame is the name of a visited frame, not deeper. -/
theorem exists_visited_of_mem_path {frame : Frame} {name : String}
    (visited : frame ∈ subtree hierarchy limit ⟨root, 1, []⟩) (met : name ∈ frame.path) :
    ∃ other ∈ subtree hierarchy limit ⟨root, 1, []⟩,
      other.name = name ∧ other.depth ≤ frame.depth := by
  revert name
  refine forall_visited (P := fun frame => ∀ {name}, name ∈ frame.path →
    ∃ other ∈ subtree hierarchy limit ⟨root, 1, []⟩,
      other.name = name ∧ other.depth ≤ frame.depth) ?_ ?_ frame visited
  · intro name mem
    exact ⟨_, mem_subtree_self _, (List.mem_singleton.mp mem).symm, Nat.le_refl _⟩
  · intro parent visited child put above name mem
    have deeper : child.depth = parent.depth + 1 := depth_of_mem_pushed put
    rw [Frame.path, ancestors_of_mem_pushed put, List.mem_append, List.mem_singleton] at mem
    rcases mem with mem | rfl
    · obtain ⟨other, seen, same, high⟩ := above mem
      exact ⟨other, seen, same, by omega⟩
    · exact ⟨child, mem_subtree_of_mem_pushed visited put, rfl, Nat.le_refl _⟩

/-- A child of a visited frame above the limit is visited, and at most one deeper: where it cannot
follow the frame, it was shown on the way down to it. -/
theorem exists_visited_child {frame : Frame} {child : String}
    (visited : frame ∈ subtree hierarchy limit ⟨root, 1, []⟩)
    (admitted : ∀ most ∈ limit, frame.depth < most) (link : hierarchy.IsParent frame.name child) :
    ∃ other ∈ subtree hierarchy limit ⟨root, 1, []⟩,
      other.name = child ∧ other.depth ≤ frame.depth + 1 := by
  by_cases met : child ∈ frame.path
  · obtain ⟨other, visited, same, high⟩ := exists_visited_of_mem_path visited met
    exact ⟨other, visited, same, Nat.le_succ_of_le high⟩
  · have opened : child ∈ openChildren hierarchy limit frame := by
      rw [openChildren_eq, if_pos admitted]
      exact link
    have put : ⟨child, frame.depth + 1, frame.path⟩ ∈ pushed hierarchy limit frame :=
      mem_pushed.mpr ⟨opened, met, rfl⟩
    exact ⟨_, mem_subtree_of_mem_pushed visited put, rfl, Nat.le_refl _⟩

/-- The depth of a visited frame is one more than the number of steps of some way to its name. -/
theorem leadsIn_of_mem_subtree {frame : Frame}
    (visited : frame ∈ subtree hierarchy limit ⟨root, 1, []⟩) :
    ∃ steps, LeadsIn hierarchy.IsParent root steps frame.name ∧ frame.depth = steps + 1 := by
  refine forall_mem_subtree (P := fun frame =>
    ∃ steps, LeadsIn hierarchy.IsParent root steps frame.name ∧ frame.depth = steps + 1) ?_ ?_
    frame visited
  · exact ⟨0, .start, rfl⟩
  · rintro parent child ⟨steps, leads, depth⟩ put
    have link : hierarchy.IsParent parent.name child.name :=
      openChildren_subset (mem_pushed.mp put).1
    refine ⟨steps + 1, leads.step link, ?_⟩
    rw [depth_of_mem_pushed put, depth]

/-- A name to which some way is short enough for the limit is visited, and not deeper than the way
is long. -/
theorem exists_visited_of_leadsIn {steps : Nat} {name : String}
    (leads : LeadsIn hierarchy.IsParent root steps name)
    (short : ∀ most ∈ limit, steps < max most 1) :
    ∃ frame ∈ subtree hierarchy limit ⟨root, 1, []⟩,
      frame.name = name ∧ frame.depth ≤ steps + 1 := by
  induction leads with
  | start => exact ⟨_, mem_subtree_self _, rfl, Nat.le_refl _⟩
  | @step steps parent child before link ih =>
    obtain ⟨frame, visited, rfl, high⟩ :=
      ih fun most bound => Nat.lt_of_succ_lt (short most bound)
    have admitted : ∀ most ∈ limit, frame.depth < most := by
      intro most bound
      have := short most bound
      omega
    obtain ⟨other, visited, same, high'⟩ := exists_visited_child visited admitted link
    exact ⟨other, visited, same, by omega⟩

theorem mem_names_iff (hierarchy : Hierarchy) (root : String) (limit : Option Nat) (name : String) :
    name ∈ (start hierarchy root limit).ribs.map Rib.name ↔
      ∃ steps, LeadsIn hierarchy.IsParent root steps name ∧ ∀ most ∈ limit, steps < max most 1 := by
  rw [ribs_start, List.map_map, List.mem_map]
  constructor
  · rintro ⟨frame, visited, rfl⟩
    obtain ⟨steps, leads, depth⟩ := leadsIn_of_mem_subtree visited
    refine ⟨steps, leads, fun most bound => ?_⟩
    have deep := depth_le_max_of_mem_subtree bound visited
    have top : (⟨root, 1, []⟩ : Frame).depth = 1 := rfl
    omega
  · rintro ⟨steps, leads, short⟩
    obtain ⟨frame, visited, same, -⟩ := exists_visited_of_leadsIn leads short
    exact ⟨frame, visited, same⟩

/-- The names that a walk shows under a limit are those whose shortest distance from the root is
less than the limit, or the root alone; without a limit they are all names that can be reached. -/
theorem mem_names_iff_distance (edges : EdgeSet) (root name : String) :
    (∀ most, name ∈ ((ofEdges edges root none).withLimit (some most)).ribs.map Rib.name ↔
      ∃ distance, IsLeast {steps | LeadsIn edges.IsParent root steps name} distance ∧
        distance < max most 1) ∧
      (name ∈ ((ofEdges edges root none).withLimit none).ribs.map Rib.name ↔
        Relation.ReflTransGen edges.IsParent root name) := by
  rw [← Hierarchy.isParent_ofEdges_eq]
  constructor
  · intro most
    apply (mem_names_iff (.ofEdges edges) root (some most) name).trans
    rw [← exists_lt_iff_isLeast]
    simp only [Option.mem_some_iff, forall_eq', Set.mem_ofPred_eq]
  · apply (mem_names_iff (.ofEdges edges) root none name).trans
    refine Iff.trans ?_ exists_leadsIn_iff
    simp only [Option.not_mem_none, false_imp_iff, implies_true, and_true]

end Walk

end RibMap
