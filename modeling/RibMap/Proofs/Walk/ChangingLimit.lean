import Mathlib.Data.List.Flatten
import Mathlib.Order.Fin.Basic
import RibMap.Proofs.Walk.Course
import RibMap.Proofs.Walk.SimplePath

/-! # Limits that change on the way

Whatever limits a walk is given between its nodes, it shows a part of what it would show without
any. The walk without a limit is cut into blocks, one for every node given: the node, and what its
limit left out below it. The beginnings of the blocks are closed under parents, and once the walk is
exhausted the limit of a node decides about all of its children.
-/

namespace RibMap

section Blocks

variable {σ α : Type} (block : σ → List α)

/-- Where the block of an entry begins if the blocks of all entries follow each other. -/
def blockStart (entries : List σ) (i : Nat) : Nat :=
  ((entries.take i).flatMap block).length

variable {block} {entries : List σ} {i j : Nat}

theorem blockStart_succ (bound : i < entries.length) :
    blockStart block entries (i + 1) = blockStart block entries i + (block entries[i]).length := by
  rw [blockStart, List.take_succ_eq_append_getElem bound, List.flatMap_append, List.length_append,
    List.flatMap_singleton, blockStart]

theorem blockStart_length :
    blockStart block entries entries.length = (entries.flatMap block).length := by
  rw [blockStart, List.take_length]

theorem blockStart_mono (order : i ≤ j) : blockStart block entries i ≤ blockStart block entries j :=
  ((List.take_sublist_take_left order).flatMap block).length_le

theorem lt_of_blockStart_lt (order : blockStart block entries i < blockStart block entries j) :
    i < j := by
  by_contra back
  exact Nat.not_le_of_lt order (blockStart_mono (not_lt.mp back))

theorem blockStart_lt (nonempty : ∀ entry, block entry ≠ []) (bound : i < entries.length)
    (order : i < j) : blockStart block entries i < blockStart block entries j := by
  have next : blockStart block entries (i + 1) ≤ blockStart block entries j := blockStart_mono order
  rw [blockStart_succ bound] at next
  have := List.length_pos_iff.mpr (nonempty entries[i])
  omega

theorem getElem?_blockStart_add (bound : i < entries.length) {offset : Nat}
    (inside : offset < (block entries[i]).length) (rest : List α) :
    (entries.flatMap block ++ rest)[blockStart block entries i + offset]? =
      (block entries[i])[offset]? := by
  have cut : entries = entries.take i ++ entries[i] :: entries.drop (i + 1) := by
    rw [← List.drop_eq_getElem_cons bound, List.take_append_drop]
  have split : entries.flatMap block ++ rest =
      (entries.take i).flatMap block ++
        (block entries[i] ++ ((entries.drop (i + 1)).flatMap block ++ rest)) := by
    conv_lhs => rw [cut]
    simp only [List.flatMap_append, List.flatMap_cons, List.append_assoc]
  have skip : ((entries.take i).flatMap block).length ≤ blockStart block entries i + offset :=
    Nat.le_add_right _ _
  rw [split, List.getElem?_append_right skip, blockStart, Nat.add_sub_cancel_left,
    List.getElem?_append_left inside]

theorem exists_eq_blockStart_add {position : Nat}
    (bound : position < (entries.flatMap block).length) :
    ∃ i offset, ∃ inside : i < entries.length,
      offset < (block entries[i]).length ∧ position = blockStart block entries i + offset := by
  induction entries generalizing position with
  | nil => simp at bound
  | cons entry rest ih =>
    by_cases here : position < (block entry).length
    · exact ⟨0, position, Nat.succ_pos _, here, by simp [blockStart]⟩
    · rw [List.flatMap_cons, List.length_append] at bound
      have later : position - (block entry).length < (rest.flatMap block).length := by omega
      obtain ⟨i, offset, inside, short, same⟩ := ih later
      refine ⟨i + 1, offset, Nat.succ_lt_succ inside, short, ?_⟩
      have begins : blockStart block (entry :: rest) (i + 1) =
          (block entry).length + blockStart block rest i := by
        simp [blockStart]
      omega

end Blocks

/-- In a listing of nodes in preorder, the node at one position is the parent of the node at another
one: it is one less deep, and everything between them is deeper. -/
def Rib.IsParentAt (ribs : List Rib) (above below : Nat) : Prop :=
  above < below ∧ ∃ parent child, ribs[above]? = some parent ∧ ribs[below]? = some child ∧
    child.depth = parent.depth + 1 ∧
    ∀ between rib, above < between → between < below → ribs[between]? = some rib →
      parent.depth < rib.depth

theorem Rib.IsParentAt.lt_length {ribs : List Rib} {above below : Nat}
    (link : IsParentAt ribs above below) : below < ribs.length := by
  obtain ⟨-, _, _, -, found, -⟩ := link
  exact (List.getElem?_eq_some_iff.mp found).1

namespace Walk

/-- Positions of nodes are positions of the frames that show them. -/
theorem isParentAt_shown {hierarchy : Hierarchy} {frames : List Frame} {above below : Nat}
    (link : Rib.IsParentAt (frames.map (shown hierarchy)) above below) {parent : Frame}
    (top : frames[above]? = some parent) :
    ∃ child, frames[below]? = some child ∧ child.depth = parent.depth + 1 ∧
      ∀ between frame, above < between → between ≤ below → frames[between]? = some frame →
        parent.depth < frame.depth := by
  obtain ⟨-, parent', child', found, found', next, deeper⟩ := link
  simp only [List.getElem?_map, top, Option.map_some, Option.some.injEq] at found
  obtain ⟨child, last, rfl⟩ := Option.map_eq_some_iff.mp (List.getElem?_map ▸ found')
  subst found
  refine ⟨child, last, next, fun between frame after before here => ?_⟩
  rcases Nat.lt_or_eq_of_le before with earlier | rfl
  · exact deeper between (shown hierarchy frame) after earlier (by simp [here])
  · rw [last, Option.some.injEq] at here
    rw [← here]
    exact Nat.lt_of_succ_le next.ge

section

variable {hierarchy : Hierarchy} {stops : List Stop} {below : List Frame} {i j : Nat}

theorem block_ne_nil (hierarchy : Hierarchy) (stop : Stop) : stop.block hierarchy ≠ [] :=
  List.cons_ne_nil _ _

/-- The block of a stop begins with its frame. -/
theorem getElem?_blockStart (bound : i < stops.length) :
    (stops.flatMap (Stop.block hierarchy) ++ below)[blockStart (Stop.block hierarchy) stops i]? =
      some stops[i].frame := by
  have inside : 0 < (stops[i].block hierarchy).length := Nat.succ_pos _
  rw [← Nat.add_zero (blockStart _ _ _), getElem?_blockStart_add bound inside]
  rfl

/-- What is not at the beginning of a block was left out at the stop of this block. -/
theorem eq_blockStart_or_omitted (below : List Frame) {position : Nat}
    (bound : position < (stops.flatMap (Stop.block hierarchy)).length) :
    ∃ j, ∃ inside : j < stops.length, blockStart (Stop.block hierarchy) stops j = position ∨
      blockStart (Stop.block hierarchy) stops j < position ∧
        position < blockStart (Stop.block hierarchy) stops (j + 1) ∧
        ∃ frame ∈ stops[j].omitted hierarchy,
          (stops.flatMap (Stop.block hierarchy) ++ below)[position]? = some frame := by
  obtain ⟨j, offset, inside, short, rfl⟩ := exists_eq_blockStart_add bound
  refine ⟨j, inside, ?_⟩
  cases offset with
  | zero => exact .inl rfl
  | succ offset =>
    have left : offset < (stops[j].omitted hierarchy).length := Nat.lt_of_succ_lt_succ short
    refine .inr ⟨Nat.lt_add_of_pos_right (Nat.succ_pos _), ?_, (stops[j].omitted hierarchy)[offset],
      List.getElem_mem left, ?_⟩
    · rw [blockStart_succ inside]
      omega
    · rw [getElem?_blockStart_add inside short, Stop.block, List.getElem?_cons_succ,
        List.getElem?_eq_getElem left]

theorem blockStart_lt_length (bound : i < stops.length) :
    blockStart (Stop.block hierarchy) stops i < (stops.flatMap (Stop.block hierarchy)).length := by
  rw [← blockStart_length]
  exact blockStart_lt (block_ne_nil hierarchy) bound bound

/-- The parent of a node that was given was given. -/
theorem exists_blockStart_eq_parent (chain : stops.IsChain Stop.Follows) (bound : i < stops.length)
    {above : Nat}
    (link : Rib.IsParentAt
      ((stops.flatMap (Stop.block hierarchy) ++ below).map (shown hierarchy)) above
      (blockStart (Stop.block hierarchy) stops i)) :
    ∃ j < stops.length, blockStart (Stop.block hierarchy) stops j = above := by
  obtain ⟨j, inside, same | ⟨later, earlier, frame, left, found⟩⟩ :=
    eq_blockStart_or_omitted below (link.1.trans (blockStart_lt_length bound))
  · exact ⟨j, inside, same⟩
  · -- The next stop is on the way to the child, and not deeper than the stop at which the parent
    -- was left out.
    have order := lt_of_blockStart_lt (later.trans link.1)
    have next : j + 1 < stops.length := Nat.lt_of_le_of_lt order bound
    obtain ⟨closed, deep⟩ := Stop.of_mem_omitted left
    have level := (List.isChain_iff_getElem.mp chain j next).2 closed
    obtain ⟨-, -, -, deeper⟩ := isParentAt_shown link found
    have := deeper _ _ earlier (blockStart_mono order) (getElem?_blockStart next)
    omega

/-- A child of a node that was given at an open stop was given, unless it is still to come. -/
theorem exists_blockStart_eq_child (bound : i < stops.length) (opened : stops[i].Open)
    {child : Nat}
    (link : Rib.IsParentAt
      ((stops.flatMap (Stop.block hierarchy) ++ below).map (shown hierarchy))
      (blockStart (Stop.block hierarchy) stops i) child)
    (past : child < (stops.flatMap (Stop.block hierarchy)).length) :
    ∃ j < stops.length, blockStart (Stop.block hierarchy) stops j = child := by
  obtain ⟨j, inside, same | ⟨later, earlier, frame, left, found⟩⟩ :=
    eq_blockStart_or_omitted below past
  · exact ⟨j, inside, same⟩
  · -- The stop at which the child was left out is between the parent and the child, so it is as
    -- deep as the child.
    obtain ⟨closed, deep⟩ := Stop.of_mem_omitted left
    have order : i < j := by
      have := lt_of_blockStart_lt (link.1.trans earlier)
      rcases Nat.lt_or_eq_of_le (Nat.le_of_lt_succ this) with less | rfl
      · exact less
      · exact absurd opened closed
    obtain ⟨_, last, next, deeper⟩ := isParentAt_shown link (getElem?_blockStart bound)
    have := deeper _ _ (blockStart_lt (block_ne_nil hierarchy) bound order) later.le
      (getElem?_blockStart inside)
    rw [found, Option.some.injEq] at last
    rw [← last] at next
    omega

/-- No child of a node that was given at a stop that is not open was given. -/
theorem blockStart_ne_child (chain : stops.IsChain Stop.Follows) (bound : i < stops.length)
    (closed : ¬ stops[i].Open) {child : Nat}
    (link : Rib.IsParentAt
      ((stops.flatMap (Stop.block hierarchy) ++ below).map (shown hierarchy))
      (blockStart (Stop.block hierarchy) stops i) child) (inside : j < stops.length) :
    blockStart (Stop.block hierarchy) stops j ≠ child := by
  rintro rfl
  have order := lt_of_blockStart_lt link.1
  have next : i + 1 < stops.length := Nat.lt_of_le_of_lt order inside
  have level := (List.isChain_iff_getElem.mp chain i next).2 closed
  have after := blockStart_lt (block_ne_nil hierarchy) bound (Nat.lt_succ_self i)
  obtain ⟨-, -, -, deeper⟩ := isParentAt_shown link (getElem?_blockStart bound)
  have := deeper _ _ after (blockStart_mono order) (getElem?_blockStart next)
  omega

/-- Once nothing is still to come, a child of a node that was given was given exactly if the stop of
the node is open. -/
theorem exists_blockStart_eq_child_iff (chain : stops.IsChain Stop.Follows)
    (bound : i < stops.length) {child : Nat}
    (link : Rib.IsParentAt ((stops.flatMap (Stop.block hierarchy)).map (shown hierarchy))
      (blockStart (Stop.block hierarchy) stops i) child) :
    (∃ j < stops.length, blockStart (Stop.block hierarchy) stops j = child) ↔ stops[i].Open := by
  have past : child < (stops.flatMap (Stop.block hierarchy)).length := by
    have inside := link.lt_length
    rwa [List.length_map] at inside
  rw [← List.append_nil (stops.flatMap _)] at link
  constructor
  · rintro ⟨j, inside, same⟩
    by_contra closed
    exact blockStart_ne_child chain bound closed link inside same
  · exact fun opened => exists_blockStart_eq_child bound opened link past

/-- Every stop has a position of its own in a walk that is cut into blocks. -/
theorem exists_place {given : List Given} {whole : List Rib}
    (served : given = stops.map (Stop.given hierarchy))
    (cover : whole = (stops.flatMap (Stop.block hierarchy) ++ below).map (shown hierarchy)) :
    ∃ place : Fin given.length ↪o Fin whole.length,
      (∀ i, (place i).val = blockStart (Stop.block hierarchy) stops i) ∧
        ∀ spot, (∃ i, (place i).val = spot) ↔
          ∃ i < stops.length, blockStart (Stop.block hierarchy) stops i = spot := by
  have count : given.length = stops.length := by rw [served, List.length_map]
  have bound (i : Fin given.length) : blockStart (Stop.block hierarchy) stops i < whole.length := by
    rw [cover, List.length_map, List.length_append]
    exact Nat.lt_add_right _ (blockStart_lt_length (count ▸ i.isLt))
  let position (i : Fin given.length) : Fin whole.length :=
    ⟨blockStart (Stop.block hierarchy) stops i, bound i⟩
  have increasing : StrictMono position := fun i _ order =>
    blockStart_lt (block_ne_nil hierarchy) (count ▸ i.isLt) order
  refine ⟨OrderEmbedding.ofStrictMono position increasing, fun _ => rfl, fun spot => ⟨?_, ?_⟩⟩
  · rintro ⟨i, same⟩
    exact ⟨i, count ▸ i.isLt, same⟩
  · rintro ⟨i, inside, same⟩
    exact ⟨⟨i, count ▸ inside⟩, same⟩

/-- After the first stop of a course from a root every frame is deeper than the root. -/
theorem Course.two_le_depth {root : Frame} {last : List Frame} (deep : root.depth = 1)
    (course : Course hierarchy [root] stops last) : ∀ stop ∈ stops.tail, 2 ≤ stop.frame.depth := by
  cases course with
  | still => exact fun _ mem => absurd mem List.not_mem_nil
  | visit limit onward =>
    refine onward.forall_mem (P := fun frame => 2 ≤ frame.depth) ?_ ?_
    · intro frame mem
      rw [List.append_nil] at mem
      rw [depth_of_mem_pushed mem, deep]
    · intro frame limit child deeper put
      rw [depth_of_mem_pushed put]
      exact Nat.le_succ_of_le deeper

end

section

variable {edges : EdgeSet} {root : String} {stops : List Stop} {last : List Frame}

/-- From stop to stop of a course from the root, the depth grows by one at most and never falls to
that of the root. -/
theorem Course.isChain_depth (course : Course (.ofEdges edges) [⟨root, 1, []⟩] stops last) :
    stops.IsChain fun before after =>
      2 ≤ after.frame.depth ∧ after.frame.depth ≤ before.frame.depth + 1 := by
  have chain := course.isChain (spined_root root).descending
  refine List.isChain_iff_getElem.mpr fun i inside => ⟨?_, ?_⟩
  · have later : i < stops.tail.length := by
      rw [List.length_tail]
      exact Nat.lt_sub_of_add_lt inside
    refine course.two_le_depth rfl _ ?_
    rw [← List.getElem_tail]
    exact List.getElem_mem later
  · exact (List.isChain_iff_getElem.mp chain i inside).1

theorem Course.frames_start_eq (course : Course (.ofEdges edges) [⟨root, 1, []⟩] stops last) :
    (ofEdges edges root none).frames = stops.flatMap (Stop.block (.ofEdges edges)) ++
      last.flatMap (subtree (.ofEdges edges) none) :=
  course.frames_eq

/-- The path of a stop is shown by the depths of the nodes given and by those of the walk without a
limit; it leads from parents to children and meets no name twice. -/
theorem Course.path_at (course : Course (.ofEdges edges) [⟨root, 1, []⟩] stops last) {i : Nat}
    (bound : i < stops.length) :
    (Rib.namePaths (stops.map fun stop => shown (.ofEdges edges) stop.frame))[i]? =
        some (some stops[i].frame.path) ∧
      (Rib.namePaths (ofEdges edges root none).ribs)[
          blockStart (Stop.block (.ofEdges edges)) stops i]? = some (some stops[i].frame.path) ∧
      stops[i].frame.path.Nodup ∧ stops[i].frame.path.IsChain edges.IsParent := by
  have rooted := course.forall_mem (rooted_start (.ofEdges edges) root none)
    (fun frame limit child rooted put => rooted.of_mem_pushed put) _ (List.getElem_mem bound)
  have whole : Rib.namePaths (ofEdges edges root none).ribs =
      (ofEdges edges root none).frames.map (some ∘ Frame.path) :=
    (namePaths_ribs edges root none).trans (congrArg _ (frames_start _ none root).symm)
  refine ⟨?_, ?_, rooted.distinct, rooted.linked.imp fun _ _ => Hierarchy.isParent_ofEdges.mp⟩
  · rw [Rib.namePaths, course.namePathsAfter_eq (spined_root root), List.getElem?_map,
      List.getElem?_eq_getElem bound, Option.map_some]
  · rw [whole, course.frames_start_eq, List.getElem?_map, getElem?_blockStart bound]
    rfl

end

/-- Whatever limits a walk is given between its nodes, it first gives the root, and then goes at
most one deeper from node to node and never back to the depth of the root. Its nodes sit in order in
the walk without a limit, with the same names, depths and views and the same paths, which lead from
parents to children and meet no name twice. With a node its parent is given; and once the walk is
exhausted, a child of a node has been given exactly if the limit in force at the node was none or
beyond its depth. -/
theorem served_part_of_whole (edges : EdgeSet) (root : String) (requests : List Request) :
    let walk := ofEdges edges root none
    let given := (walk.serve requests).1
    (∀ first ∈ given.head?, first.rib.name = root ∧ first.rib.depth = 1) ∧
      (given.IsChain fun before after =>
        2 ≤ after.rib.depth ∧ after.rib.depth ≤ before.rib.depth + 1) ∧
      ∃ place : Fin given.length ↪o Fin walk.ribs.length,
        (∀ i, walk.ribs[place i] = given[i].rib) ∧
          (∀ i, ∃ path,
            (Rib.namePaths (given.map Given.rib))[i.val]? = some (some path) ∧
              (Rib.namePaths walk.ribs)[(place i).val]? = some (some path) ∧
              path.Nodup ∧ path.IsChain edges.IsParent) ∧
          (∀ i above, Rib.IsParentAt walk.ribs above (place i) → ∃ j, (place j).val = above) ∧
          ((walk.serve requests).2.next? = none →
            ∀ i below, Rib.IsParentAt walk.ribs (place i) below →
              ((∃ j, (place j).val = below) ↔
                ∀ most ∈ given[i].limit, given[i].rib.depth < most)) := by
  intro walk given
  obtain ⟨stops, course, served⟩ : ∃ stops,
      Course (.ofEdges edges) [⟨root, 1, []⟩] stops (walk.serve requests).2.stack ∧
        given = stops.map (Stop.given (.ofEdges edges)) := exists_course walk requests
  have count : given.length = stops.length := by rw [served, List.length_map]
  have bound (i : Fin given.length) : i.val < stops.length := count ▸ i.isLt
  have gives (i : Fin given.length) : given[i] = stops[i.val].given (.ofEdges edges) := by
    simp only [Fin.getElem_fin, served, List.getElem_map]
  have chain := course.isChain (spined_root root).descending
  have seen : walk.ribs = (stops.flatMap (Stop.block (.ofEdges edges)) ++
      (walk.serve requests).2.stack.flatMap (subtree (.ofEdges edges) none)).map
        (shown (.ofEdges edges)) :=
    course.frames_start_eq ▸ ribs_eq walk
  obtain ⟨place, position, placed⟩ := exists_place served seen
  refine ⟨?_, ?_, place, ?_, ?_, ?_, ?_⟩
  · intro first head
    rw [Option.mem_def, served, List.head?_map] at head
    obtain ⟨stop, earliest, rfl⟩ := Option.map_eq_some_iff.mp head
    have top : (⟨root, 1, []⟩ : Frame) = stop.frame := Option.some.inj (course.head_eq earliest)
    rw [Stop.given, ← top]
    exact ⟨rfl, rfl⟩
  · rw [served, List.isChain_map]
    exact course.isChain_depth
  · intro i
    refine (List.getElem_eq_iff _).mpr ?_
    rw [position, seen, gives, List.getElem?_map, getElem?_blockStart (bound i)]
    rfl
  · intro i
    obtain ⟨path, wholePath, simple⟩ := course.path_at (bound i)
    have nodes : given.map Given.rib = stops.map fun stop => shown (.ofEdges edges) stop.frame := by
      rw [served, List.map_map]
      rfl
    exact ⟨_, nodes ▸ path, position i ▸ wholePath, simple⟩
  · intro i above link
    rw [position, seen] at link
    exact (placed above).mpr (exists_blockStart_eq_parent chain (bound i) link)
  · intro ended i below link
    rw [position, seen, next?_eq_none_iff.mp ended, List.flatMap_nil, List.append_nil] at link
    rw [placed, gives]
    exact exists_blockStart_eq_child_iff chain (bound i) link

/-- A root with two children, of which the first has a child of its own. -/
def branching : EdgeSet :=
  .ofList [⟨"TopInteractable", "AListener", by decide⟩, ⟨"TopInteractable", "BListener", by decide⟩,
    ⟨"AInteractable", "CListener", by decide⟩]

/-- A limit that is in force at the first child only leaves out the child of this child. -/
theorem branching_served_without_grandchild :
    let walk := ofEdges branching "Top" none
    let requests := [.next, .limit (some 2), .next, .limit none, .next]
    let given := (walk.serve requests).1
    given = [⟨⟨"Top", 1, .viewless⟩, none⟩, ⟨⟨"A", 2, .viewless⟩, some 2⟩,
        ⟨⟨"B", 2, .viewless⟩, none⟩] ∧
      (walk.serve requests).2.next?.isNone ∧
      ∃ place : Fin given.length ↪o Fin walk.ribs.length, ∀ i below,
        Rib.IsParentAt walk.ribs (place i) below →
          ((∃ j, (place j).val = below) ↔
            ∀ most ∈ given[i].limit, given[i].rib.depth < most) := by
  intro walk requests given
  have ended : (walk.serve requests).2.next?.isNone := by decide +kernel
  obtain ⟨-, -, place, -, -, -, followed⟩ := served_part_of_whole branching "Top" requests
  exact ⟨by decide +kernel, ended, place, followed (Option.isNone_iff_eq_none.mp ended)⟩

end Walk

end RibMap
