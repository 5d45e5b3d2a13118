import Mathlib.Algebra.BigOperators.Group.List.Basic
import Mathlib.Algebra.Group.Action.Defs
import Mathlib.Algebra.Ring.Defs
import Mathlib.Algebra.Ring.Nat
import Mathlib.Data.List.Count
import RibMap.Proofs.Parenthood
import RibMap.Proofs.Walk.Course

/-! # The paths that a walk follows

A walk follows exactly the simple paths from its root that the limit admits, and each of them as
often as edges can be chosen along it. The count goes down one path name by name: of the frames put
on the stack for a node only those with the next name can lead on along the path.
-/

namespace RibMap.Walk

/-- The number of ways to choose a link for every step of a path. -/
def linkProduct (hierarchy : Hierarchy) (names : List String) : Nat :=
  (List.zipWith (fun parent child => (hierarchy.children parent).count child) names names.tail).prod

/-- Some names can continue a path: no name is met twice, and the limit admits them. -/
def Continues (limit : Option Nat) (path : List String) (depth : Nat) (rest : List String) : Prop :=
  rest.Nodup ∧ (∀ name ∈ rest, name ∉ path) ∧
    (rest = [] ∨ ∀ most ∈ limit, depth + rest.length ≤ most)

instance (limit : Option Nat) (path : List String) (depth : Nat) (rest : List String) :
    Decidable (Continues limit path depth rest) :=
  inferInstanceAs (Decidable (_ ∧ _ ∧ _))

theorem continues_cons {limit : Option Nat} {path : List String} {depth : Nat} {name : String}
    {rest : List String} :
    Continues limit path depth (name :: rest) ↔
      (name ∉ path ∧ ∀ most ∈ limit, depth < most) ∧
        Continues limit (path ++ [name]) (depth + 1) rest := by
  constructor
  · rintro ⟨distinct, new, short⟩
    obtain ⟨once, distinct⟩ := List.nodup_cons.mp distinct
    have short := short.resolve_left (List.cons_ne_nil _ _)
    rw [List.length_cons] at short
    refine ⟨⟨new name List.mem_cons_self, fun most bound => ?_⟩, distinct, ?_, .inr ?_⟩
    · have := short most bound
      omega
    · intro other mem
      rw [List.mem_append, List.mem_singleton]
      rintro (met | rfl)
      · exact new other (List.mem_cons_of_mem _ mem) met
      · exact once mem
    · intro most bound
      have := short most bound
      omega
  · rintro ⟨⟨new, deeper⟩, distinct, apart, short⟩
    refine ⟨List.nodup_cons.mpr ⟨fun mem => apart name mem (by simp), distinct⟩, ?_, .inr ?_⟩
    · intro other mem met
      rcases List.mem_cons.mp mem with rfl | mem
      · exact new met
      · exact apart other mem (List.mem_append_left _ met)
    · intro most bound
      have := deeper most bound
      rw [List.length_cons]
      rcases short with rfl | short
      · rw [List.length_nil]
        omega
      · have := short most bound
        omega

/-- From the root on, the continuations are the simple paths that the limit admits. -/
theorem continues_root {limit : Option Nat} {root : String} {rest : List String} :
    Continues limit [root] 1 rest ↔
      (root :: rest).Nodup ∧ ∀ most ∈ limit, (root :: rest).length ≤ max most 1 := by
  simp only [Continues, List.mem_singleton, List.nodup_cons, List.length_cons]
  constructor
  · rintro ⟨distinct, apart, short⟩
    refine ⟨⟨fun mem => apart root mem rfl, distinct⟩, fun most bound => ?_⟩
    rcases short with rfl | short
    · rw [List.length_nil]
      omega
    · have := short most bound
      omega
  · rintro ⟨⟨once, distinct⟩, short⟩
    refine ⟨distinct, fun name mem same => once (same ▸ mem), ?_⟩
    rcases rest with - | ⟨name, rest⟩
    · exact .inl rfl
    · refine .inr fun most bound => ?_
      have := short most bound
      rw [List.length_cons] at this ⊢
      omega

variable {hierarchy : Hierarchy} {limit : Option Nat}

private theorem count_subtree_of_not_prefix {frame : Frame} {names : List String}
    (apart : ¬ frame.path <+: names) :
    ((subtree hierarchy limit frame).map Frame.path).count names = 0 := by
  rw [List.count_eq_zero]
  rintro mem
  obtain ⟨other, below, rfl⟩ := List.mem_map.mp mem
  exact apart (path_prefix_of_mem_subtree below)

/-- Of the trees below a node only those of the next name count towards a path. -/
private theorem count_pushed (frame : Frame) (name : String) (rest : List String) :
    (((pushed hierarchy limit frame).flatMap (subtree hierarchy limit)).map Frame.path).count
        (frame.path ++ name :: rest) =
      ((openChildren hierarchy limit frame).filter fun child =>
          decide (child ∉ frame.path)).count name *
        ((subtree hierarchy limit ⟨name, frame.depth + 1, frame.path⟩).map Frame.path).count
          (frame.path ++ name :: rest) := by
  rw [List.map_flatMap, List.count_flatMap, pushed, List.map_map,
    List.sum_map_eq_nsmul_single name, smul_eq_mul]
  · rfl
  · intro other differs _
    -- Below another child every path has the name of this child right after the path of the frame.
    refine count_subtree_of_not_prefix fun leads => differs ?_
    have step := (List.prefix_append_right_inj _).mp leads
    exact (List.cons_prefix_cons.mp step).1

/-- A name can be put on the stack as often as it is an open child, unless it is on the path. -/
private theorem count_open (frame : Frame) (name : String) :
    ((openChildren hierarchy limit frame).filter fun child =>
        decide (child ∉ frame.path)).count name =
      if name ∉ frame.path ∧ ∀ most ∈ limit, frame.depth < most then
        (hierarchy.children frame.name).count name
      else 0 := by
  by_cases met : name ∈ frame.path
  · have gone : name ∉ (openChildren hierarchy limit frame).filter fun child =>
        decide (child ∉ frame.path) := by
      simp [List.mem_filter, met]
    rw [List.count_eq_zero.mpr gone, if_neg fun both => both.1 met]
  · have kept : decide (name ∉ frame.path) = true := decide_eq_true met
    rw [List.count_filter (p := fun child => decide (child ∉ frame.path)) kept, openChildren_eq]
    by_cases deeper : ∀ most ∈ limit, frame.depth < most
    · rw [if_pos deeper, if_pos ⟨met, deeper⟩]
    · rw [if_neg deeper, if_neg fun both => deeper both.2, List.count_nil]

/-- Below a frame a continuation of its path is followed once for every choice of links along it. -/
theorem count_path_subtree (hierarchy : Hierarchy) (limit : Option Nat) (rest : List String)
    (frame : Frame) :
    ((subtree hierarchy limit frame).map Frame.path).count (frame.path ++ rest) =
      if Continues limit frame.path frame.depth rest then
        linkProduct hierarchy (frame.name :: rest)
      else 0 := by
  induction rest generalizing frame with
  | nil =>
    have below : frame.path ∉
        ((pushed hierarchy limit frame).flatMap (subtree hierarchy limit)).map Frame.path := by
      intro mem
      obtain ⟨other, mem, same⟩ := List.mem_map.mp mem
      obtain ⟨child, put, mem⟩ := List.mem_flatMap.mp mem
      obtain ⟨_, _, made⟩ := mem_pushed.mp put
      have longer := (path_prefix_of_mem_subtree mem).length_le
      rw [same, made] at longer
      simp [Frame.path] at longer
    rw [List.append_nil, subtree_eq, List.map_cons, List.count_cons_self,
      List.count_eq_zero.mpr below]
    simp [Continues, linkProduct]
  | cons name rest ih =>
    have here : frame.path ≠ frame.path ++ name :: rest := by simp
    have next : ((subtree hierarchy limit ⟨name, frame.depth + 1, frame.path⟩).map
          Frame.path).count (frame.path ++ name :: rest) =
        if Continues limit (frame.path ++ [name]) (frame.depth + 1) rest then
          linkProduct hierarchy (name :: rest)
        else 0 := by
      rw [List.append_cons]
      exact ih ⟨name, frame.depth + 1, frame.path⟩
    rw [subtree_eq, List.map_cons, List.count_cons_of_ne here, count_pushed, count_open, next,
      ite_zero_mul_ite_zero]
    exact if_congr continues_cons.symm rfl rfl

theorem linkProduct_ofEdges (edges : EdgeSet) (names : List String) :
    linkProduct (.ofEdges edges) names = (List.zipWith edges.linkCount names names.tail).prod := by
  simp only [linkProduct, Hierarchy.count_children_ofEdges]

/-- The map of an edge set shows a path of names exactly if it starts at the root, meets no name
twice and stays within the limit, and then once for every choice of an edge for each of its steps.
-/
theorem count_namePaths (edges : EdgeSet) (root : String) (limit : Option Nat) :
    none ∉ Rib.namePaths ((ofEdges edges root none).withLimit limit).ribs ∧
      ∀ names : List String,
        (Rib.namePaths ((ofEdges edges root none).withLimit limit).ribs).count (some names) =
          if names.head? = some root ∧ names.Nodup ∧ ∀ most ∈ limit, names.length ≤ max most 1 then
            (List.zipWith edges.linkCount names names.tail).prod
          else 0 := by
  rw [namePaths_ribs]
  refine ⟨by simp, fun names => ?_⟩
  rw [← List.map_map, List.count_map_of_injective _ _ fun _ _ => Option.some.inj]
  by_cases start : names.head? = some root
  · obtain ⟨rest, rfl⟩ : ∃ rest, names = root :: rest := by
      cases names with
      | nil => contradiction
      | cons first rest => exact ⟨rest, congrArg (· :: rest) (Option.some.inj start)⟩
    have followed := count_path_subtree (.ofEdges edges) limit rest ⟨root, 1, []⟩
    rw [linkProduct_ofEdges] at followed
    refine followed.trans (if_congr ?_ rfl rfl)
    exact continues_root.trans (and_iff_right start).symm
  · rw [if_neg fun all => start all.1]
    refine count_subtree_of_not_prefix ?_
    rintro ⟨rest, rfl⟩
    exact start rfl

end RibMap.Walk
