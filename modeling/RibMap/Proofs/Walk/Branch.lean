import RibMap.Proofs.Walk.Ancestry
import RibMap.Proofs.Walk.Course

/-! # Branches of a map

A branch is a node of a map with everything that is shown below it; in the listing it is the node
and the deeper nodes that follow it directly. Where no cycle can be reached, no child is ever on the
path of its parent, so a branch depends on nothing but the name of its first node and on the depth
that the limit leaves to it: it is the map of this name, moved down.
-/

namespace RibMap

/-- The branch at a place of a map: the node there, and the deeper nodes that follow it directly. -/
def Rib.branchAt (ribs : List Rib) (place : Nat) : List Rib :=
  match ribs.drop place with
  | [] => []
  | top :: later => top :: later.takeWhile fun rib => top.depth < rib.depth

/-- A node moved down by some levels. -/
def Rib.lowered (levels : Nat) (rib : Rib) : Rib :=
  { rib with depth := rib.depth + levels }

theorem Rib.map_lowered_lowered (first second : Nat) (ribs : List Rib) :
    (ribs.map (lowered first)).map (lowered second) = ribs.map (lowered (first + second)) := by
  simp only [List.map_map, Function.comp_def, lowered, Nat.add_assoc]
  rfl

/-- Edges make no cycle if every child comes after its parent in the alphabet. -/
theorem EdgeSet.not_transGen_self {edges : EdgeSet}
    (upwards : ∀ link ∈ edges.toList.filterMap Edge.link?, link.parent < link.child)
    (name : String) : ¬ Relation.TransGen edges.IsParent name name := by
  have less {above below : String} (leads : Relation.TransGen edges.IsParent above below) :
      above < below := by
    induction leads with
    | single link => exact upwards _ (isParent_iff_mem.mp link)
    | tail _ link ih => exact String.lt_trans ih (upwards _ (isParent_iff_mem.mp link))
  exact fun cycle => String.lt_irrefl name (less cycle)

/-- Nothing that can be reached from the node of a frame is below itself, and nothing strictly below
the node is on the path that leads to it. -/
structure Frame.Clear (hierarchy : Hierarchy) (frame : Frame) : Prop where
  acyclic : ∀ name, Relation.ReflTransGen hierarchy.IsParent frame.name name →
    ¬ Relation.TransGen hierarchy.IsParent name name
  apart : ∀ name ∈ frame.path, ¬ Relation.TransGen hierarchy.IsParent frame.name name

namespace Frame

variable {hierarchy : Hierarchy} {root : String} {frame : Frame}

/-- Where no cycle can be reached from the root, all frames are clear. -/
theorem Rooted.clear (rooted : frame.Rooted hierarchy root)
    (acyclic : ∀ name, Relation.ReflTransGen hierarchy.IsParent root name →
      ¬ Relation.TransGen hierarchy.IsParent name name) : frame.Clear hierarchy := by
  have here : frame.name ∈ frame.path := List.mem_append_right _ List.mem_cons_self
  refine ⟨fun name reached => ?_, fun name mem below => ?_⟩
  · exact acyclic name ((rooted.reaches here).1.trans reached)
  · obtain ⟨reached, leads⟩ := rooted.reaches mem
    exact acyclic name reached (.trans_right leads below)

namespace Clear

/-- A frame that is clear stays so below another path, as long as it is the only one on it. -/
theorem alone (clear : frame.Clear hierarchy) (depth : Nat) :
    Clear hierarchy ⟨frame.name, depth, []⟩ := by
  refine ⟨clear.acyclic, fun name mem => ?_⟩
  rw [List.mem_singleton.mp mem]
  exact clear.acyclic frame.name .refl

theorem notMem_path (clear : frame.Clear hierarchy) {limit : Option Nat} {child : String}
    (opened : child ∈ Walk.openChildren hierarchy limit frame) : child ∉ frame.path := by
  intro met
  exact clear.apart child met (.single (Walk.openChildren_subset opened))

/-- Nothing is kept off the stack for a clear frame but by the limit. -/
theorem pushed_eq (clear : frame.Clear hierarchy) (limit : Option Nat) :
    Walk.pushed hierarchy limit frame =
      (Walk.openChildren hierarchy limit frame).map fun child =>
        ⟨child, frame.depth + 1, frame.path⟩ := by
  have all : (Walk.openChildren hierarchy limit frame).filter (fun child =>
      decide (child ∉ frame.path)) = Walk.openChildren hierarchy limit frame := by
    refine List.filter_eq_self.mpr fun child opened => ?_
    exact decide_eq_true (clear.notMem_path opened)
  rw [Walk.pushed, all]

/-- What is put on the stack for a clear frame is clear. -/
theorem of_mem_pushed (clear : frame.Clear hierarchy) {limit : Option Nat} {child : Frame}
    (put : child ∈ Walk.pushed hierarchy limit frame) : child.Clear hierarchy := by
  obtain ⟨opened, -, same⟩ := Walk.mem_pushed.mp put
  have link : hierarchy.IsParent frame.name child.name := Walk.openChildren_subset opened
  have path : child.path = frame.path ++ [child.name] := congrArg Frame.path same
  refine ⟨fun name reached => clear.acyclic name (.head link reached), fun name mem below => ?_⟩
  rw [path, List.mem_append, List.mem_singleton] at mem
  rcases mem with above | rfl
  · exact clear.apart name above (.head link below)
  · exact clear.acyclic child.name (.single link) below

end Clear

end Frame

namespace Walk

variable {hierarchy : Hierarchy}

/-- The tree below a frame is cut out of what a walk visits by the depths alone. -/
theorem subtree_eq_takeWhile {walk : Walk} (descending : Descending walk.stack)
    {earlier later : List Frame} {frame : Frame} (split : walk.frames = earlier ++ frame :: later) :
    subtree walk.hierarchy walk.limit frame =
      frame :: later.takeWhile fun other => frame.depth < other.depth := by
  induction earlier generalizing walk with
  | nil =>
    obtain ⟨hierarchy, limit, stack⟩ := walk
    cases stack with
    | nil => contradiction
    | cons top rest =>
      rw [frames_cons] at split
      obtain ⟨rfl, rfl⟩ := List.cons.inj split
      have deeper : ∀ other ∈ (pushed hierarchy limit top).flatMap (subtree hierarchy limit),
          decide (top.depth < other.depth) = true := by
        intro other mem
        obtain ⟨child, put, below⟩ := List.mem_flatMap.mp mem
        have deep := depth_le_of_mem_subtree below
        rw [depth_of_mem_pushed put] at deep
        exact decide_eq_true deep
      -- The next tree begins with a frame that was on the stack already.
      have stops : (rest.flatMap (subtree hierarchy limit)).takeWhile (fun other =>
          decide (top.depth < other.depth)) = [] := by
        cases rest with
        | nil => rfl
        | cons next rest =>
          have level : next.depth ≤ top.depth :=
            List.rel_of_pairwise_cons descending List.mem_cons_self
          rw [List.flatMap_cons, subtree_eq, List.cons_append, List.takeWhile_cons_of_neg]
          simpa using level
      rw [subtree_eq, frames, List.flatMap_append, List.takeWhile_append_of_pos deeper, stops,
        List.append_nil]
  | cons first earlier ih =>
    obtain ⟨hierarchy, limit, stack⟩ := walk
    cases stack with
    | nil => contradiction
    | cons top rest =>
      rw [frames_cons] at split
      have onward : Descending (pushed hierarchy limit top ++ rest) := Descending.visit descending
      exact @ih ⟨hierarchy, limit, pushed hierarchy limit top ++ rest⟩ onward
        (List.cons.inj split).2

/-- Two clear frames of one name to which their limits leave the same depth have the same tree below
them, up to the difference in depth. -/
theorem map_shown_subtree_eq_lowered {levels : Nat} {limit limit' : Option Nat}
    (moved : limit = limit'.map (· + levels)) {frame other : Frame} (clear : frame.Clear hierarchy)
    (clear' : other.Clear hierarchy) (name : frame.name = other.name)
    (depth : frame.depth = other.depth + levels) :
    (subtree hierarchy limit frame).map (shown hierarchy) =
      ((subtree hierarchy limit' other).map (shown hierarchy)).map (Rib.lowered levels) := by
  induction frame using frame_induction hierarchy limit generalizing other with
  | step frame ih =>
    have admits : (∀ most ∈ limit, frame.depth < most) ↔ ∀ most ∈ limit', other.depth < most := by
      subst moved
      cases limit' with
      | none => simp
      | some most => simp [depth]
    have opened : openChildren hierarchy limit frame = openChildren hierarchy limit' other := by
      rw [openChildren_eq, openChildren_eq, name]
      exact if_congr admits rfl rfl
    have top : shown hierarchy frame = (shown hierarchy other).lowered levels := by
      rw [shown, shown, Rib.lowered, name, depth]
    have below (child : String) (mem : child ∈ openChildren hierarchy limit' other) :
        (subtree hierarchy limit ⟨child, frame.depth + 1, frame.path⟩).map (shown hierarchy) =
          ((subtree hierarchy limit' ⟨child, other.depth + 1, other.path⟩).map
            (shown hierarchy)).map (Rib.lowered levels) := by
      have put : ⟨child, frame.depth + 1, frame.path⟩ ∈ pushed hierarchy limit frame := by
        rw [clear.pushed_eq, opened]
        exact List.mem_map_of_mem mem
      have put' : ⟨child, other.depth + 1, other.path⟩ ∈ pushed hierarchy limit' other := by
        rw [clear'.pushed_eq]
        exact List.mem_map_of_mem mem
      refine ih _ put (clear.of_mem_pushed put) (clear'.of_mem_pushed put') rfl ?_
      rw [depth]
      exact Nat.add_right_comm ..
    rw [subtree_eq, subtree_eq hierarchy limit' other, clear.pushed_eq, clear'.pushed_eq, opened]
    simp only [List.map_cons, List.map_flatMap, List.flatMap_map, top]
    exact congrArg _ (List.flatMap_congr below)

/-- The branch at a place of a map shows the tree of the frame there. -/
theorem branchAt_ribs {root : String} {limit : Option Nat} {place : Nat} {frame : Frame}
    (found : (start hierarchy root limit).frames[place]? = some frame) :
    Rib.branchAt (start hierarchy root limit).ribs place =
      (subtree hierarchy limit frame).map (shown hierarchy) := by
  obtain ⟨bound, here⟩ := List.getElem?_eq_some_iff.mp found
  have rest : (start hierarchy root limit).frames.drop place =
      frame :: (start hierarchy root limit).frames.drop (place + 1) := by
    rw [← here]
    exact List.drop_eq_getElem_cons bound
  have whole := (start hierarchy root limit).frames.take_append_drop place
  rw [rest] at whole
  have tree := subtree_eq_takeWhile (spined_root root).descending whole.symm
  rw [ribs_eq, Rib.branchAt, ← List.map_drop, rest]
  calc
    shown hierarchy frame :: List.takeWhile (fun rib => decide (frame.depth < rib.depth))
          (((start hierarchy root limit).frames.drop (place + 1)).map (shown hierarchy)) =
        (frame :: ((start hierarchy root limit).frames.drop (place + 1)).takeWhile
          fun other => decide (frame.depth < other.depth)).map (shown hierarchy) := by
      rw [List.takeWhile_map, List.map_cons]
      rfl
    _ = (subtree hierarchy limit frame).map (shown hierarchy) := congrArg _ tree.symm

section

variable {root : String} {limit : Option Nat} {place place' : Nat} {rib rib' : Rib}

/-- A node of a map is at least as deep as the root, and not deeper than a limit that admits the
root. -/
theorem depth_bounds (positive : ∀ most ∈ limit, 1 ≤ most)
    (mem : rib ∈ (start hierarchy root limit).ribs) :
    1 ≤ rib.depth ∧ ∀ most ∈ limit, rib.depth ≤ most := by
  rw [ribs_start, List.mem_map] at mem
  obtain ⟨frame, visited, rfl⟩ := mem
  refine ⟨depth_le_of_mem_subtree visited, fun most bound => ?_⟩
  have deep := depth_le_max_of_mem_subtree bound visited
  rwa [Nat.max_eq_left (positive most bound)] at deep

/-- Where no cycle can be reached, a branch is the map of its first node, moved down. -/
theorem branchAt_eq_map_lowered
    (acyclic : ∀ name, Relation.ReflTransGen hierarchy.IsParent root name →
      ¬ Relation.TransGen hierarchy.IsParent name name)
    (positive : ∀ most ∈ limit, 1 ≤ most)
    (found : (start hierarchy root limit).ribs[place]? = some rib) :
    Rib.branchAt (start hierarchy root limit).ribs place =
      (start hierarchy rib.name (limit.map fun most => most - rib.depth + 1)).ribs.map
        (Rib.lowered (rib.depth - 1)) := by
  obtain ⟨low, admitted⟩ := depth_bounds positive (List.mem_of_getElem? found)
  rw [ribs_eq, List.getElem?_map, Option.map_eq_some_iff] at found
  obtain ⟨frame, here, rfl⟩ := found
  have visited : frame ∈ subtree hierarchy limit ⟨root, 1, []⟩ :=
    frames_start hierarchy limit root ▸ List.mem_of_getElem? here
  have clear := (rooted_of_mem_subtree (Frame.rooted_root hierarchy root) visited).clear acyclic
  have moved : limit = (limit.map fun most => most - frame.depth + 1).map
      (· + (frame.depth - 1)) := by
    cases limit with
    | none => rfl
    | some most =>
      have : frame.depth ≤ most := admitted most rfl
      have : 1 ≤ frame.depth := low
      simp only [Option.map_some, Option.some.injEq]
      omega
  rw [branchAt_ribs here, ribs_start]
  refine map_shown_subtree_eq_lowered moved clear (clear.alone 1) rfl ?_
  exact (Nat.add_sub_of_le low).symm

/-- Two branches of one name to which the limit leaves the same are the same up to their depths. -/
theorem map_lowered_branchAt_eq
    (acyclic : ∀ name, Relation.ReflTransGen hierarchy.IsParent root name →
      ¬ Relation.TransGen hierarchy.IsParent name name)
    (positive : ∀ most ∈ limit, 1 ≤ most)
    (found : (start hierarchy root limit).ribs[place]? = some rib)
    (found' : (start hierarchy root limit).ribs[place']? = some rib') (name : rib.name = rib'.name)
    (left : limit.map (· - rib.depth) = limit.map (· - rib'.depth)) :
    (Rib.branchAt (start hierarchy root limit).ribs place).map (Rib.lowered rib'.depth) =
      (Rib.branchAt (start hierarchy root limit).ribs place').map (Rib.lowered rib.depth) := by
  obtain ⟨low, -⟩ := depth_bounds positive (List.mem_of_getElem? found)
  obtain ⟨low', -⟩ := depth_bounds positive (List.mem_of_getElem? found')
  have remaining : (limit.map fun most => most - rib.depth + 1) =
      limit.map fun most => most - rib'.depth + 1 := by
    have more := congrArg (Option.map (· + 1)) left
    rwa [Option.map_map, Option.map_map] at more
  have levels : rib.depth - 1 + rib'.depth = rib'.depth - 1 + rib.depth := by omega
  rw [branchAt_eq_map_lowered acyclic positive found,
    branchAt_eq_map_lowered acyclic positive found', Rib.map_lowered_lowered,
    Rib.map_lowered_lowered, name, remaining, levels]

end

/-- In a map without a cycle and with a limit that admits the root, every branch is the whole map of
its first node under what the limit leaves to it, moved down to the depth of the node. Two branches
of one name to which the limit leaves the same are the same up to their depths. -/
theorem branches_are_maps (edges : EdgeSet) (root : String) (limit : Option Nat)
    (acyclic : ∀ name, Relation.ReflTransGen edges.IsParent root name →
      ¬ Relation.TransGen edges.IsParent name name)
    (positive : ∀ most ∈ limit, 1 ≤ most) :
    let ribs := ((ofEdges edges root none).withLimit limit).ribs
    (∀ place rib, ribs[place]? = some rib →
      (1 ≤ rib.depth ∧ ∀ most ∈ limit, rib.depth ≤ most) ∧
        Rib.branchAt ribs place =
          ((ofEdges edges rib.name none).withLimit
              (limit.map fun most => most - rib.depth + 1)).ribs.map
            (Rib.lowered (rib.depth - 1))) ∧
      ∀ place rib place' rib', ribs[place]? = some rib → ribs[place']? = some rib' →
        rib.name = rib'.name → limit.map (· - rib.depth) = limit.map (· - rib'.depth) →
          (Rib.branchAt ribs place).map (Rib.lowered rib'.depth) =
            (Rib.branchAt ribs place').map (Rib.lowered rib.depth) := by
  intro ribs
  rw [← Hierarchy.isParent_ofEdges_eq] at acyclic
  constructor
  · intro place rib found
    exact ⟨depth_bounds positive (List.mem_of_getElem? found),
      branchAt_eq_map_lowered acyclic positive found⟩
  · intro place rib place' rib' found found' name left
    exact map_lowered_branchAt_eq acyclic positive found found' name left

/-- Two children of the root that share a child, which has a view and a child of its own. -/
def diamond : EdgeSet :=
  .ofList [⟨"HomeInteractable", "ListListener", by decide⟩,
    ⟨"HomeInteractable", "MapListener", by decide⟩,
    ⟨"ListInteractable", "PlaceListener", by decide⟩,
    ⟨"MapInteractable", "PlaceListener", by decide⟩,
    ⟨"PlaceInteractable", "ReviewListener", by decide⟩,
    ⟨"ReviewInteractable", "ShareListener", by decide⟩,
    ⟨"PlaceViewController", "UIViewController", by decide⟩]

/-- Under a limit of four, both branches of the shared child are its own map under a limit of
two. -/
theorem diamond_branches_are_maps :
    let ribs := ((ofEdges diamond "Home" none).withLimit (some 4)).ribs
    let shared := ((ofEdges diamond "Place" none).withLimit (some 2)).ribs
    shared = [⟨"Place", 1, .viewful⟩, ⟨"Review", 2, .viewless⟩] ∧
      Rib.branchAt ribs 2 = shared.map (Rib.lowered 2) ∧
      (Rib.branchAt ribs 2).map (Rib.lowered 3) = (Rib.branchAt ribs 5).map (Rib.lowered 3) := by
  intro ribs shared
  have acyclic (name : String) (_ : Relation.ReflTransGen diamond.IsParent "Home" name) :
      ¬ Relation.TransGen diamond.IsParent name name :=
    EdgeSet.not_transGen_self (by decide +kernel) name
  obtain ⟨branch, same⟩ := branches_are_maps diamond "Home" (some 4) acyclic (by simp)
  have first : ribs[2]? = some ⟨"Place", 3, .viewful⟩ := by decide +kernel
  have second : ribs[5]? = some ⟨"Place", 3, .viewful⟩ := by decide +kernel
  exact ⟨by decide +kernel, (branch 2 _ first).2, same 2 _ 5 _ first second rfl rfl⟩

end Walk

end RibMap
