import Mathlib.Data.List.Lex
import Mathlib.Data.List.Sort
import Mathlib.Data.Prod.Lex
import Mathlib.Data.String.Basic
import RibMap.Path

/-! # The order of paths

Paths are ordered by their parts, which are ordered by kind and then by name. Sorting paths and
dropping repeats leaves, strictly in this order, the first path of every spelling of the same parts.
What is left is therefore settled by which path comes first for each list of parts.
-/

namespace RibMap

namespace Part

/-- What the order of parts depends on. -/
def key (part : Part) : Nat ×ₗ String :=
  toLex (part.rank, part.text)

theorem key_injective : Function.Injective key := by
  intro a b same
  obtain ⟨rank, text⟩ := Prod.mk.inj (toLex_inj.mp same)
  cases a <;> cases b <;> first | rfl | exact congrArg name text | cases rank

instance : LinearOrder Part :=
  LinearOrder.lift' key key_injective

theorem lt_iff_before {a b : Part} : a < b ↔ a.Before b :=
  Prod.Lex.toLex_lt_toLex

/-- The order of lists that comes with the order of parts compares them part by part. -/
theorem lt_iff_lex {as bs : List Part} : as < bs ↔ List.Lex Before as bs := by
  have same : (fun a b : Part => a < b) = Before := funext₂ fun _ _ => propext lt_iff_before
  rw [← same]
  exact List.lt_iff_lex_lt as bs

theorem listLe_iff {as bs : List Part} : listLe as bs = true ↔ as ≤ bs := by
  rw [le_iff_eq_or_lt, lt_iff_lex]
  induction as generalizing bs with
  | nil => cases bs <;> simp [listLe]
  | cons a as ih =>
    cases bs with
    | nil => simp [listLe]
    | cons b bs =>
      rw [listLe, List.cons_lex_cons_iff, List.cons.injEq]
      by_cases same : a = b
      · have apart : ¬ b.Before b := fun before => lt_irrefl b (lt_iff_before.mpr before)
        rw [if_pos same, ih]
        simp only [same, apart, true_and, false_or]
      · simp [same]

end Part

namespace Path

/-- A path comes before another one: at the first part in which they differ, or because the other
goes on. -/
def Before (a b : Path) : Prop :=
  List.Lex Part.Before a.parts b.parts

theorem before_iff {a b : Path} : a.Before b ↔ a.parts < b.parts :=
  Part.lt_iff_lex.symm

theorem le_iff {a b : Path} : a.le b = true ↔ a.parts ≤ b.parts :=
  Part.listLe_iff

theorem le_trans (a b c : Path) (first : a.le b = true) (second : b.le c = true) :
    a.le c = true :=
  le_iff.mpr ((le_iff.mp first).trans (le_iff.mp second))

theorem le_or_le (a b : Path) : (a.le b || b.le a) = true := by
  rw [Bool.or_eq_true, le_iff, le_iff]
  exact le_total a.parts b.parts

instance : Std.Antisymm Before where
  antisymm _ _ first second :=
    absurd (before_iff.mp second) (lt_asymm (before_iff.mp first))

instance : Std.Irrefl Before where
  irrefl _ before := lt_irrefl _ (before_iff.mp before)

/-- The first of some paths with given parts. -/
def firstWith? (paths : List Path) (parts : List Part) : Option Path :=
  paths.find? fun path => path.parts = parts

/-- Sorting leaves the paths with the same parts in their order. -/
theorem firstWith?_mergeSort (paths : List Path) (parts : List Part) :
    firstWith? (paths.mergeSort le) parts = firstWith? paths parts := by
  have alike : (paths.filter fun path => path.parts = parts).Pairwise fun a b => a.le b = true := by
    refine List.pairwise_of_forall_mem_list fun a mem b mem' => ?_
    have first := of_decide_eq_true (List.mem_filter.mp mem).2
    have second := of_decide_eq_true (List.mem_filter.mp mem').2
    rw [le_iff, first, second]
  have kept := (List.sublist_mergeSort le_trans le_or_le alike List.filter_sublist).filter
    fun path => decide (path.parts = parts)
  have count :=
    ((List.mergeSort_perm paths le).filter fun path => decide (path.parts = parts)).length_eq
  rw [List.filter_filter] at kept
  simp only [Bool.and_self] at kept
  rw [firstWith?, firstWith?, ← List.head?_filter, ← List.head?_filter,
    kept.eq_of_length count.symm]

theorem firstWith?_cons (path : Path) (rest : List Path) (parts : List Part) :
    firstWith? (path :: rest) parts =
      if path.parts = parts then some path else firstWith? rest parts := by
  rw [firstWith?, List.find?_cons]
  by_cases same : path.parts = parts <;> simp [same, firstWith?]

theorem dropRepeats_sublist (paths : List Path) : (dropRepeats paths).Sublist paths := by
  induction paths with
  | nil => exact List.Sublist.refl _
  | cons path rest ih =>
    rw [dropRepeats]
    split
    · exact List.Sublist.cons_cons path (List.nil_sublist rest)
    · rename_i next left found
      rw [found] at ih
      split
      · exact List.Sublist.cons_cons path ((List.sublist_cons_self next left).trans ih)
      · exact List.Sublist.cons_cons path ih

/-- In front of paths that are strictly in order, only the first can repeat a path. -/
theorem dropRepeats_cons {path : Path} {rest : List Path}
    (least : ∀ other ∈ rest, path.le other = true)
    (ascending : (dropRepeats rest).Pairwise Before) :
    dropRepeats (path :: rest) =
      path :: (dropRepeats rest).filter fun other => decide (other.parts ≠ path.parts) := by
  have included := (dropRepeats_sublist rest).subset
  rw [dropRepeats]
  cases found : dropRepeats rest with
  | nil => rfl
  | cons next left =>
    rw [found] at ascending included
    have later (other : Path) (mem : other ∈ left) : next.parts < other.parts :=
      before_iff.mp (List.rel_of_pairwise_cons ascending mem)
    have first := le_iff.mp (least next (included List.mem_cons_self))
    have others : left.filter (fun other => decide (other.parts ≠ path.parts)) = left :=
      List.filter_eq_self.mpr fun other mem =>
        decide_eq_true (lt_of_le_of_lt first (later other mem)).ne'
    by_cases same : path.parts = next.parts
    · have gone : ¬ decide (next.parts ≠ path.parts) = true := by simp [same]
      rw [List.filter_cons, if_neg gone, others]
      exact if_pos same
    · have kept : decide (next.parts ≠ path.parts) = true := decide_eq_true (Ne.symm same)
      rw [List.filter_cons, if_pos kept, others]
      exact if_neg same

/-- Dropping repeats from paths in order leaves them strictly in order, and of each list of parts
the first path that has it. -/
theorem dropRepeats_spec {paths : List Path} (sorted : paths.Pairwise fun a b => a.le b = true) :
    (dropRepeats paths).Pairwise Before ∧
      ∀ path, path ∈ dropRepeats paths ↔ firstWith? paths path.parts = some path := by
  induction paths with
  | nil => exact ⟨List.Pairwise.nil, fun path => by simp [dropRepeats, firstWith?]⟩
  | cons path rest ih =>
    obtain ⟨least, sorted⟩ := List.pairwise_cons.mp sorted
    obtain ⟨ascending, firsts⟩ := ih sorted
    rw [dropRepeats_cons least ascending]
    constructor
    · refine List.pairwise_cons.mpr ⟨fun other mem => ?_, ascending.filter _⟩
      obtain ⟨mem, differs⟩ := List.mem_filter.mp mem
      have order := le_iff.mp (least other ((dropRepeats_sublist rest).subset mem))
      exact before_iff.mpr (lt_of_le_of_ne order (Ne.symm (of_decide_eq_true differs)))
    · intro other
      rw [List.mem_cons, List.mem_filter, decide_eq_true_eq, firsts, firstWith?_cons]
      split
      · rename_i same
        simp [same, eq_comm]
      · rename_i differs
        have apart : other ≠ path := fun same => differs (same ▸ rfl)
        simp [apart, Ne.symm differs]

theorem pairwise_sortUnique (paths : List Path) : (sortUnique paths).Pairwise Before :=
  (dropRepeats_spec (List.pairwise_mergeSort le_trans le_or_le paths)).1

/-- Of all paths with the same parts the first one stays. -/
theorem mem_sortUnique_iff {path : Path} {paths : List Path} :
    path ∈ sortUnique paths ↔ firstWith? paths path.parts = some path := by
  rw [sortUnique, (dropRepeats_spec (List.pairwise_mergeSort le_trans le_or_le paths)).2,
    firstWith?_mergeSort]

theorem firstWith?_eq_some {path : Path} {paths : List Path} {parts : List Part}
    (first : firstWith? paths parts = some path) : path ∈ paths ∧ path.parts = parts :=
  ⟨List.mem_of_find?_eq_some first, by simpa using List.find?_some first⟩

theorem mem_of_mem_sortUnique {path : Path} {paths : List Path} (mem : path ∈ sortUnique paths) :
    path ∈ paths :=
  (firstWith?_eq_some (mem_sortUnique_iff.mp mem)).1

/-- Every path is there under some spelling. -/
theorem exists_mem_sortUnique {path : Path} {paths : List Path} (mem : path ∈ paths) :
    ∃ other ∈ sortUnique paths, other.parts = path.parts := by
  have present : (firstWith? paths path.parts).isSome :=
    List.find?_isSome.mpr ⟨path, mem, decide_eq_true rfl⟩
  obtain ⟨other, first⟩ := Option.isSome_iff_exists.mp present
  obtain ⟨-, same⟩ := firstWith?_eq_some first
  exact ⟨other, mem_sortUnique_iff.mpr (same ▸ first), same⟩

/-- Paths are sorted alike if for all parts they have the same first path. -/
theorem sortUnique_congr {paths paths' : List Path}
    (same : ∀ parts, firstWith? paths parts = firstWith? paths' parts) :
    sortUnique paths = sortUnique paths' := by
  refine (pairwise_sortUnique paths).eq_of_mem_iff (pairwise_sortUnique paths') fun path => ?_
  rw [mem_sortUnique_iff, mem_sortUnique_iff, same]

/-- Paths in another order are sorted alike up to their spellings. -/
theorem map_parts_sortUnique_of_perm {paths paths' : List Path} (reordered : paths.Perm paths') :
    (sortUnique paths).map parts = (sortUnique paths').map parts := by
  have ascending (paths : List Path) : ((sortUnique paths).map parts).Pairwise (· < ·) :=
    List.pairwise_map.mpr ((pairwise_sortUnique paths).imp before_iff.mp)
  have included {paths paths' : List Path} (subset : paths ⊆ paths') {list : List Part}
      (mem : list ∈ (sortUnique paths).map parts) : list ∈ (sortUnique paths').map parts := by
    obtain ⟨path, left, rfl⟩ := List.mem_map.mp mem
    obtain ⟨other, there, same⟩ := exists_mem_sortUnique (subset (mem_of_mem_sortUnique left))
    exact List.mem_map.mpr ⟨other, there, same⟩
  refine (ascending paths).eq_of_mem_iff (ascending paths') fun list => ⟨?_, ?_⟩
  · exact included reordered.subset
  · exact included reordered.symm.subset

end Path

end RibMap
