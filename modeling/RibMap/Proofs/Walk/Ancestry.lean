import Mathlib.Data.List.Chain
import Mathlib.Data.List.Nodup
import Mathlib.Logic.Relation
import RibMap.Proofs.Parenthood
import RibMap.Proofs.Walk.Subtree

/-! # Frames and their ancestors

The invariant of every frame that a walk ever has on its stack: the ancestors of the frame lead from
the root to it through children, no name is met twice on the way, and the depth counts the names.
The first frame satisfies it, and a frame passes it on to those that are put on the stack for it,
whatever the limit is at this moment.
-/

namespace RibMap

/-- A chain leads from its first element to its last one. -/
private theorem reflTransGen_of_isChain {α : Type} {r : α → α → Prop} {steps : List α} {a b : α}
    (chain : steps.IsChain r) (first : steps.head? = some a) (last : steps.getLast? = some b) :
    Relation.ReflTransGen r a b := by
  have nonempty : steps ≠ [] := by
    rintro rfl
    contradiction
  have leads := List.relationReflTransGen_of_exists_isChain steps chain nonempty
  rw [List.head?_eq_some_head nonempty, Option.some.injEq] at first
  rw [List.getLast?_eq_some_getLast nonempty, Option.some.injEq] at last
  rwa [first, last] at leads

/-- Along a chain every element but the first is related to the one before it. -/
private theorem exists_rel_of_mem_tail {α : Type} {r : α → α → Prop} {steps : List α} {b : α}
    (chain : steps.IsChain r) (mem : b ∈ steps.tail) : ∃ a, r a b := by
  induction steps with
  | nil => cases mem
  | cons first rest ih =>
    cases rest with
    | nil => cases mem
    | cons second rest =>
      obtain ⟨related, chain⟩ := List.isChain_cons_cons.mp chain
      rcases List.mem_cons.mp mem with rfl | later
      · exact ⟨first, related⟩
      · exact ih chain later

namespace Frame

/-- The path of a frame leads from the root through children and meets no name twice. -/
structure Rooted (hierarchy : Hierarchy) (root : String) (frame : Frame) : Prop where
  depth_eq : frame.depth = frame.path.length
  starts : frame.path.head? = some root
  distinct : frame.path.Nodup
  linked : frame.path.IsChain hierarchy.IsParent

variable {hierarchy : Hierarchy} {root : String} {frame : Frame}

theorem rooted_root (hierarchy : Hierarchy) (root : String) :
    Rooted hierarchy root ⟨root, 1, []⟩ :=
  ⟨rfl, rfl, List.nodup_singleton _, .singleton _⟩

namespace Rooted

theorem path_ne_nil (rooted : frame.Rooted hierarchy root) : frame.path ≠ [] := by
  intro empty
  have starts := rooted.starts
  rw [empty] at starts
  contradiction

/-- What is put on the stack for a frame continues its path by a child that is not on it. -/
theorem of_mem_pushed {limit : Option Nat} {child : Frame}
    (rooted : frame.Rooted hierarchy root) (put : child ∈ Walk.pushed hierarchy limit frame) :
    child.Rooted hierarchy root := by
  obtain ⟨opened, new, same⟩ := Walk.mem_pushed.mp put
  have path : child.path = frame.path ++ [child.name] := congrArg Frame.path same
  refine ⟨?_, ?_, ?_, ?_⟩
  · rw [path, List.length_append, ← rooted.depth_eq]
    exact congrArg Frame.depth same
  · rw [path, List.head?_append_of_ne_nil _ rooted.path_ne_nil, rooted.starts]
  · rw [path, List.nodup_append]
    refine ⟨rooted.distinct, List.nodup_singleton _, ?_⟩
    intro name mem other single
    rw [List.mem_singleton.mp single]
    exact fun same => new (same ▸ mem)
  · rw [path]
    refine rooted.linked.append (.singleton _) ?_
    intro last isLast first isFirst
    have parent : last = frame.name := by simpa [Frame.path, eq_comm] using isLast
    have name : first = child.name := by simpa [eq_comm] using isFirst
    rw [parent, name]
    exact Walk.openChildren_subset opened

/-- A name on the path is reached from the root, and reaches the node itself. -/
theorem reaches (rooted : frame.Rooted hierarchy root) {name : String} (mem : name ∈ frame.path) :
    Relation.ReflTransGen hierarchy.IsParent root name ∧
      Relation.ReflTransGen hierarchy.IsParent name frame.name := by
  obtain ⟨before, after, split⟩ := List.append_of_mem mem
  have starts := rooted.starts
  have linked := rooted.linked
  have ends : frame.path.getLast? = some frame.name := by simp [path]
  rw [split, List.append_cons] at starts linked
  rw [split] at ends
  constructor
  · refine reflTransGen_of_isChain linked.left_of_append ?_ List.getLast?_concat
    rw [← starts]
    exact (List.head?_append_of_ne_nil _ (by simp)).symm
  · rw [← List.append_cons] at linked
    refine reflTransGen_of_isChain linked.right_of_append rfl ?_
    rw [← ends, List.getLast?_append_of_ne_nil _ (List.cons_ne_nil _ _)]

/-- Every name on the path but the root is a child of something. -/
theorem exists_parent (rooted : frame.Rooted hierarchy root) {name : String}
    (mem : name ∈ frame.path.tail) : ∃ parent, hierarchy.IsParent parent name :=
  exists_rel_of_mem_tail rooted.linked mem

end Rooted

end Frame

namespace Walk

/-- Every frame on the stack of a walk is rooted. -/
def Rooted (root : String) (walk : Walk) : Prop :=
  ∀ frame ∈ walk.stack, frame.Rooted walk.hierarchy root

theorem rooted_start (hierarchy : Hierarchy) (root : String) (limit : Option Nat) :
    (start hierarchy root limit).Rooted root := by
  intro frame mem
  rw [List.mem_singleton.mp mem]
  exact Frame.rooted_root hierarchy root

/-- A step keeps all frames rooted, under whatever limit it is made. -/
theorem Rooted.of_next? {root : String} {walk after : Walk} {visit : Visit}
    (rooted : walk.Rooted root) (step : walk.next? = some (visit, after)) : after.Rooted root := by
  obtain ⟨hierarchy, limit, stack⟩ := walk
  cases stack with
  | nil => contradiction
  | cons top rest =>
    rw [next?_cons] at step
    cases step
    intro frame mem
    rcases List.mem_append.mp mem with put | kept
    · exact (rooted top List.mem_cons_self).of_mem_pushed put
    · exact rooted frame (List.mem_cons_of_mem _ kept)

theorem rooted_of_mem_subtree {hierarchy : Hierarchy} {limit : Option Nat} {root : String}
    {frame other : Frame} (rooted : frame.Rooted hierarchy root)
    (mem : other ∈ subtree hierarchy limit frame) : other.Rooted hierarchy root :=
  forall_mem_subtree rooted (fun _ _ above put => above.of_mem_pushed put) other mem

end Walk

end RibMap
