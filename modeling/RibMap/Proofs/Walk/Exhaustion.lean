import Mathlib.Data.Finset.Card
import RibMap.Proofs.Walk.Ancestry

/-! # Walks come to an end

Asked again and again for its next node, a walk answers with the nodes of a finite list and from
then on with none. No frame is ever deeper than there are names that can be children, because no
name comes twice on a path.
-/

namespace RibMap

/-- The names that edges have to offer as children. -/
def EdgeSet.listenerBases (edges : EdgeSet) : Finset String :=
  (edges.toList.filterMap fun edge => Marker.listener.base? edge.right).toFinset

theorem EdgeSet.card_listenerBases_le (edges : EdgeSet) :
    edges.listenerBases.card ≤ edges.size :=
  (List.toFinset_card_le _).trans (List.length_filterMap_le _ _)

theorem Hierarchy.mem_listenerBases_of_isParent {edges : EdgeSet} {parent child : String}
    (link : (ofEdges edges).IsParent parent child) : child ∈ edges.listenerBases := by
  obtain ⟨edge, mem, -, below⟩ := isParent_ofEdges.mp link
  exact List.mem_toFinset.mpr (List.mem_filterMap.mpr ⟨edge, mem, below⟩)

/-- Below the root every name of a path is one of those that edges have to offer. -/
theorem Frame.Rooted.depth_le {edges : EdgeSet} {root : String} {frame : Frame}
    (rooted : frame.Rooted (.ofEdges edges) root) :
    frame.depth ≤ 1 + edges.listenerBases.card := by
  have offered : frame.path.tail.toFinset ⊆ edges.listenerBases := by
    intro name mem
    obtain ⟨parent, link⟩ := rooted.exists_parent (List.mem_toFinset.mp mem)
    exact Hierarchy.mem_listenerBases_of_isParent link
  have count := Finset.card_le_card offered
  rw [List.toFinset_card_of_nodup rooted.distinct.tail, List.length_tail,
    ← rooted.depth_eq] at count
  omega

namespace Walk

/-- The walk once it has been asked for its next node; an exhausted walk stays as it is. -/
def advance (walk : Walk) : Walk :=
  match walk.next? with
  | none => walk
  | some (_, after) => after

/-- The walk once it has been asked a number of times. -/
def after (walk : Walk) : Nat → Walk
  | 0 => walk
  | calls + 1 => walk.advance.after calls

theorem visits_of_next?_eq_none {walk : Walk} (ended : walk.next? = none) : walk.visits = [] := by
  rw [visits]
  split
  · rfl
  · rename_i step
    rw [ended] at step
    contradiction

theorem visits_of_next?_eq_some {walk next : Walk} {visit : Visit}
    (step : walk.next? = some (visit, next)) : walk.visits = visit :: next.visits := by
  rw [visits]
  split
  · rename_i ended
    rw [ended] at step
    contradiction
  · rename_i same
    rw [same] at step
    cases step
    rfl

theorem advance_of_next?_eq_none {walk : Walk} (ended : walk.next? = none) :
    walk.advance = walk := by
  rw [advance, ended]

theorem advance_of_next?_eq_some {walk next : Walk} {visit : Visit}
    (step : walk.next? = some (visit, next)) : walk.advance = next := by
  rw [advance, step]

/-- The answers of a walk, one call after the other, are its visits and then nothing. -/
theorem next?_after (walk : Walk) (calls : Nat) :
    (walk.after calls).next?.map Prod.fst = walk.visits[calls]? := by
  induction calls generalizing walk with
  | zero =>
    cases step : walk.next? with
    | none => simp [after, step, visits_of_next?_eq_none step]
    | some answer => simp [after, step, visits_of_next?_eq_some step]
  | succ calls ih =>
    rw [after, ih]
    cases step : walk.next? with
    | none => rw [advance_of_next?_eq_none step, visits_of_next?_eq_none step]; rfl
    | some answer =>
      rw [advance_of_next?_eq_some step, visits_of_next?_eq_some step, List.getElem?_cons_succ]

theorem hierarchy_advance (walk : Walk) : walk.advance.hierarchy = walk.hierarchy := by
  obtain ⟨hierarchy, limit, stack⟩ := walk
  cases stack with
  | nil => rfl
  | cons frame rest => rw [advance_of_next?_eq_some (next?_cons hierarchy limit frame rest)]

theorem hierarchy_after (walk : Walk) (calls : Nat) :
    (walk.after calls).hierarchy = walk.hierarchy := by
  induction calls generalizing walk with
  | zero => rfl
  | succ calls ih => rw [after, ih, hierarchy_advance]

theorem Rooted.advance {root : String} {walk : Walk} (rooted : walk.Rooted root) :
    walk.advance.Rooted root := by
  cases step : walk.next? with
  | none => rwa [advance_of_next?_eq_none step]
  | some answer =>
    rw [advance_of_next?_eq_some step]
    exact rooted.of_next? step

theorem Rooted.after {root : String} {walk : Walk} (rooted : walk.Rooted root) (calls : Nat) :
    (walk.after calls).Rooted root := by
  induction calls generalizing walk with
  | zero => exact rooted
  | succ calls ih => exact ih rooted.advance

/-- No frame is ever deeper than the names that edges have to offer, below the root. -/
theorem depth_le_of_mem_stack_after {edges : EdgeSet} {root : String} {limit : Option Nat}
    {calls : Nat} {frame : Frame} (mem : frame ∈ ((ofEdges edges root limit).after calls).stack) :
    frame.depth ≤ 1 + edges.listenerBases.card := by
  have rooted := (rooted_start (.ofEdges edges) root limit).after calls frame mem
  rw [hierarchy_after] at rooted
  exact rooted.depth_le

/-- What a step shows is the frame on top of the stack. -/
theorem exists_shown_of_next? {walk next : Walk} {visit : Visit}
    (step : walk.next? = some (visit, next)) :
    ∃ frame ∈ walk.stack, visit.rib = shown walk.hierarchy frame := by
  obtain ⟨hierarchy, limit, stack⟩ := walk
  cases stack with
  | nil => contradiction
  | cons frame rest =>
    rw [next?_cons] at step
    cases step
    exact ⟨frame, List.mem_cons_self, rfl⟩

/-- A walk answers as often as it has visits, and never again after that. -/
theorem next?_after_eq_none_iff {walk : Walk} {calls : Nat} :
    (walk.after calls).next? = none ↔ walk.visits.length ≤ calls := by
  rw [← List.getElem?_eq_none_iff, ← next?_after, Option.map_eq_none_iff]

/-- A walk over any edge set is exhausted after finitely many calls, and from then on stays so. No
node that it gives is deeper than the root and the distinct names that edges have to offer, hence
not deeper than the number of edges and one. The depth that a step computes for the children of a
frame is the true one on every machine whose words count two beyond the number of edges. -/
theorem exhausted_within_depth (edges : EdgeSet) (root : String) (limit : Option Nat) :
    (∃ count, ∀ calls, ((ofEdges edges root limit).after calls).next? = none ↔ count ≤ calls) ∧
      (∀ calls visit next,
        ((ofEdges edges root limit).after calls).next? = some (visit, next) →
          visit.rib.depth ≤ 1 + edges.listenerBases.card ∧
            visit.rib.depth ≤ edges.size + 1) ∧
        ∀ calls, ∀ frame ∈ ((ofEdges edges root limit).after calls).stack,
          frame.depth + 1 ≤ edges.size + 2 ∧
            ∀ word, edges.size + 2 < word → (frame.depth + 1) % word = frame.depth + 1 := by
  have offered := edges.card_listenerBases_le
  refine ⟨⟨_, fun calls => next?_after_eq_none_iff⟩, ?_, ?_⟩
  · intro calls visit next step
    obtain ⟨frame, mem, shows⟩ := exists_shown_of_next? step
    have deep : visit.rib.depth ≤ 1 + edges.listenerBases.card := by
      rw [shows]
      exact depth_le_of_mem_stack_after mem
    exact ⟨deep, by omega⟩
  · intro calls frame mem
    have deep := depth_le_of_mem_stack_after mem
    refine ⟨by omega, fun word wide => Nat.mod_eq_of_lt ?_⟩
    omega

/-- Two names that are children of each other. -/
def twoWay : EdgeSet :=
  .ofList [⟨"AInteractable", "BListener", by decide⟩, ⟨"BInteractable", "AListener", by decide⟩]

/-- The walk around the two names shows the second of them at depth two and comes to an end. -/
theorem twoWay_exhausted_within_depth :
    (∃ count, ∀ calls, ((ofEdges twoWay "A" none).after calls).next? = none ↔ count ≤ calls) ∧
      (∃ visit next, ((ofEdges twoWay "A" none).after 1).next? = some (visit, next) ∧
        visit.rib = ⟨"B", 2, .viewless⟩ ∧ visit.rib.depth ≤ 1 + twoWay.listenerBases.card) ∧
      ⟨"B", 2, ["A"]⟩ ∈ ((ofEdges twoWay "A" none).after 1).stack ∧
      twoWay.size + 2 < UInt64.size ∧ (2 + 1) % UInt64.size = 2 + 1 := by
  obtain ⟨ends, shallow, counted⟩ := exhausted_within_depth twoWay "A" none
  have second : ((ofEdges twoWay "A" none).after 1).next?.map (fun answer => answer.1.rib) =
      some ⟨"B", 2, .viewless⟩ := by
    decide +kernel
  obtain ⟨⟨visit, next⟩, step, shows⟩ := Option.map_eq_some_iff.mp second
  have mem : ⟨"B", 2, ["A"]⟩ ∈ ((ofEdges twoWay "A" none).after 1).stack := by decide +kernel
  have wide : twoWay.size + 2 < UInt64.size := by decide +kernel
  exact ⟨ends, ⟨visit, next, step, shows, (shallow 1 visit next step).1⟩, mem, wide,
    (counted 1 _ mem).2 _ wide⟩

end Walk

end RibMap
