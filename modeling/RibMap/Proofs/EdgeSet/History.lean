import Mathlib.Data.List.Induction
import RibMap.Proofs.Extraction

/-! # Edge sets with a history

A set of edges is made and changed in several ways, and each of them keeps its listing strictly
ascending. So what the set has gone through shows in nothing but the pairs that were put in since it
was collected for the last time.
-/

namespace RibMap

/-- The code points of a name. -/
def codePoints (name : String) : List Nat :=
  name.toList.map Char.toNat

theorem lt_iff_codePoints_lt {first second : String} :
    first < second ↔ codePoints first < codePoints second := by
  rw [String.lt_iff, codePoints, codePoints]
  generalize first.toList = left
  generalize second.toList = right
  induction left generalizing right with
  | nil => cases right <;> simp
  | cons a left ih =>
    cases right with
    | nil => simp
    | cons b right =>
      rw [List.map_cons, List.map_cons, List.cons_lt_cons_iff, List.cons_lt_cons_iff, ih right,
        Char.lt_def, UInt32.lt_iff_toNat_lt, ← Char.toNat_inj]
      rfl

/-- The order of pairs of names: by the code points of the first names, then of the second ones. -/
def NamesBefore (a b : String × String) : Prop :=
  codePoints a.1 < codePoints b.1 ∨ a.1 = b.1 ∧ codePoints a.2 < codePoints b.2

namespace Edge

/-- The two names of an edge. -/
def names (edge : Edge) : String × String :=
  (edge.left, edge.right)

theorem before_iff_namesBefore {a b : Edge} : a.Before b ↔ NamesBefore a.names b.names := by
  simp only [Before, NamesBefore, names, lt_iff_codePoints_lt]

/-- The edges between the names of pairs; a name with itself makes none. -/
def ofPairs (pairs : List (String × String)) : List Edge :=
  pairs.filterMap fun pair => of? pair.1 pair.2

theorem mem_ofPairs {pairs : List (String × String)} {edge : Edge} :
    edge ∈ ofPairs pairs ↔ (edge.left, edge.right) ∈ pairs := by
  simp only [ofPairs, List.mem_filterMap, of?_eq_some_iff]
  constructor
  · rintro ⟨⟨left, right⟩, mem, rfl, rfl⟩
    exact mem
  · exact fun mem => ⟨_, mem, rfl, rfl⟩

theorem of?_eq_none_iff {left right : String} : of? left right = none ↔ left = right := by
  rw [of?]
  split <;> simp [*]

end Edge

namespace EdgeSet

/-- The pairs of names that a set lists. -/
def pairs (set : EdgeSet) : List (String × String) :=
  set.toList.map Edge.names

theorem mem_pairs {set : EdgeSet} {left right : String} :
    (left, right) ∈ set.pairs ↔ ∃ edge ∈ set, edge.left = left ∧ edge.right = right := by
  simp only [pairs, List.mem_map, Edge.names, Prod.mk.injEq, mem_def]

theorem names_mem_pairs {set : EdgeSet} {edge : Edge} : edge.names ∈ set.pairs ↔ edge ∈ set := by
  refine mem_pairs.trans ⟨?_, fun mem => ⟨edge, mem, rfl, rfl⟩⟩
  rintro ⟨other, mem, same⟩
  exact Edge.ext_iff.mpr same ▸ mem

theorem pairs_injective {first second : EdgeSet} (same : first.pairs = second.pairs) :
    first = second :=
  ext fun edge => by rw [← names_mem_pairs, same, names_mem_pairs]

/-- What is done to a set: it takes up the edge between two names, edges between the names of pairs,
another set or what declarations say, or it is collected anew from pairs. -/
inductive Operation where
  | insert (left right : String)
  | extend (pairs : List (String × String))
  | absorb (other : EdgeSet)
  | collect (pairs : List (String × String))
  | extract (declarations : List Declaration)

namespace Operation

/-- An operation puts in a pair of names. -/
def Puts (left right : String) : Operation → Prop
  | .insert left' right' => left' = left ∧ right' = right
  | .extend pairs | .collect pairs => (left, right) ∈ pairs
  | .absorb other => (left, right) ∈ other.pairs
  | .extract declarations => Declares declarations left right

/-- Whether an operation starts a set anew. -/
def isCollect : Operation → Bool
  | .collect _ => true
  | .insert .. | .extend _ | .absorb _ | .extract _ => false

end Operation

/-- A set after an operation. -/
def perform (set : EdgeSet) : Operation → EdgeSet
  | .insert left right =>
    match Edge.of? left right with
    | none => set
    | some edge => (set.insertNew edge).1
  | .extend pairs => set.insertAll (Edge.ofPairs pairs)
  | .absorb other => set.union other
  | .collect pairs => .ofList (Edge.ofPairs pairs)
  | .extract declarations => set.union (.ofDeclarations declarations)

/-- The set after some operations, the first of them on the set without edges. -/
def after (history : List Operation) : EdgeSet :=
  history.foldl perform .empty

/-- Two different names were put in as a pair, and the set has not been collected anew since. -/
def Holds (history : List Operation) (left right : String) : Prop :=
  left ≠ right ∧ ∃ earlier operation later, history = earlier ++ operation :: later ∧
    operation.Puts left right ∧ later.all (!·.isCollect) = true

theorem mem_perform {set : EdgeSet} {operation : Operation} {edge : Edge} :
    edge ∈ set.perform operation ↔
      operation.Puts edge.left edge.right ∨ operation.isCollect = false ∧ edge ∈ set := by
  cases operation with
  | insert left right =>
    rw [perform, Operation.Puts, Operation.isCollect]
    split
    · rename_i refused
      have same := Edge.of?_eq_none_iff.mp refused
      have apart : ¬ (left = edge.left ∧ right = edge.right) := by
        rintro ⟨rfl, rfl⟩
        exact edge.proper same
      simp [apart]
    · rename_i new made
      obtain ⟨rfl, rfl⟩ := Edge.of?_eq_some_iff.mp made
      rw [insertNew, mem_insert, Edge.ext_iff, eq_comm, eq_comm (a := edge.right)]
      simp
  | extend pairs => simp [perform, Operation.Puts, Operation.isCollect, mem_insertAll,
      Edge.mem_ofPairs, or_comm]
  | absorb other =>
    have put : (edge.left, edge.right) ∈ other.pairs ↔ edge ∈ other := names_mem_pairs
    simp [perform, Operation.Puts, Operation.isCollect, mem_union, put, or_comm]
  | collect pairs =>
    simp [perform, Operation.Puts, Operation.isCollect, mem_ofList, Edge.mem_ofPairs]
  | extract declarations =>
    simp [perform, Operation.Puts, Operation.isCollect, mem_union, mem_ofDeclarations, or_comm]

theorem holds_concat {history : List Operation} {operation : Operation} {left right : String} :
    Holds (history ++ [operation]) left right ↔
      left ≠ right ∧ operation.Puts left right ∨
        operation.isCollect = false ∧ Holds history left right := by
  constructor
  · rintro ⟨differ, earlier, putting, later, split, put, kept⟩
    rcases List.eq_nil_or_concat later with rfl | ⟨later, last, rfl⟩
    · obtain ⟨rfl, same⟩ := List.append_inj' split rfl
      obtain rfl : operation = putting := List.head_eq_of_cons_eq same
      exact .inl ⟨differ, put⟩
    · rw [List.concat_eq_append, ← List.cons_append, ← List.append_assoc] at split
      obtain ⟨rfl, same⟩ := List.append_inj' split rfl
      obtain rfl : operation = last := List.head_eq_of_cons_eq same
      simp only [List.concat_eq_append, List.all_append, List.all_cons, List.all_nil, Bool.and_true,
        Bool.and_eq_true, Bool.not_eq_true'] at kept
      exact .inr ⟨kept.2, differ, earlier, putting, later, rfl, put, kept.1⟩
  · rintro (⟨differ, put⟩ | ⟨going, differ, earlier, putting, later, rfl, put, kept⟩)
    · exact ⟨differ, history, operation, [], rfl, put, rfl⟩
    · refine ⟨differ, earlier, putting, later ++ [operation], by simp, put, ?_⟩
      rw [List.all_append, kept, List.all_cons, going]
      rfl

/-- A set has the edges between the pairs that its history holds. -/
theorem mem_after {history : List Operation} {edge : Edge} :
    edge ∈ after history ↔ Holds history edge.left edge.right := by
  induction history using List.reverseRecOn with
  | nil =>
    refine iff_of_false (notMem_empty edge) ?_
    rintro ⟨-, earlier, operation, later, split, -⟩
    simp at split
  | append_singleton history operation ih =>
    rw [after, List.foldl_concat, ← after, mem_perform, holds_concat, ih, and_iff_right edge.proper]

theorem mem_pairs_after {history : List Operation} {left right : String} :
    (left, right) ∈ (after history).pairs ↔ Holds history left right := by
  constructor
  · rw [mem_pairs]
    rintro ⟨edge, mem, rfl, rfl⟩
    exact mem_after.mp mem
  · intro held
    have mem : (⟨left, right, held.1⟩ : Edge) ∈ after history := mem_after.mpr held
    exact names_mem_pairs.mpr mem

theorem pairwise_pairs (set : EdgeSet) : set.pairs.Pairwise NamesBefore :=
  List.pairwise_map.mpr (set.ascending.imp Edge.before_iff_namesBefore.mp)

theorem contains_iff {set : EdgeSet} {left right : String} :
    set.contains left right = true ↔ (left, right) ∈ set.pairs := by
  rw [contains, mem_pairs]
  split
  · rename_i refused
    obtain rfl := Edge.of?_eq_none_iff.mp refused
    refine iff_of_false Bool.false_ne_true ?_
    rintro ⟨edge, -, rfl, same⟩
    exact edge.proper same.symm
  · rename_i edge made
    obtain ⟨rfl, rfl⟩ := Edge.of?_eq_some_iff.mp made
    rw [decide_eq_true_iff, ← mem_pairs]
    exact names_mem_pairs.symm

/-- Whatever a set has gone through, it lists the pairs of different names that were put in since it
was collected for the last time, each of them once, strictly ascending by the code points of their
names. An edge is new to it exactly if its pair is not listed, and it contains the pairs that it
lists, never a name with itself. Its size is the length of the listing. Two sets are equal exactly
if their listings are, and exactly if the same pairs were put in. -/
theorem pairs_of_history (history : List Operation) :
    let set := after history
    set.pairs.Pairwise NamesBefore ∧
      (∀ left right, (left, right) ∈ set.pairs ↔ Holds history left right) ∧
      (∀ name, (name, name) ∉ set.pairs ∧ Edge.of? name name = none) ∧
      (∀ edge, (set.insertNew edge).2 = true ↔ edge.names ∉ set.pairs) ∧
      (∀ left right, set.contains left right = true ↔ (left, right) ∈ set.pairs) ∧
      (∀ name, set.contains name name = false) ∧
      set.size = set.pairs.length ∧
      ∀ history', (set = after history' ↔ set.pairs = (after history').pairs) ∧
        (set = after history' ↔ ∀ left right, Holds history left right ↔ Holds history' left right)
    := by
  intro set
  have improper (name : String) : (name, name) ∉ set.pairs :=
    fun mem => (mem_pairs_after.mp mem).1 rfl
  refine ⟨set.pairwise_pairs, fun left right => mem_pairs_after, fun name => ⟨improper name, ?_⟩,
    fun edge => ?_, fun left right => contains_iff, fun name => ?_, ?_, fun history' => ⟨?_, ?_⟩⟩
  · exact Edge.of?_eq_none_iff.mpr rfl
  · rw [insertNew, decide_eq_true_iff, names_mem_pairs]
  · rw [← Bool.not_eq_true, contains_iff]
    exact improper name
  · rw [pairs, List.length_map, size]
  · exact ⟨congrArg pairs, pairs_injective⟩
  · constructor
    · intro same left right
      rw [← mem_pairs_after, ← mem_pairs_after, ← same]
    · intro same
      exact ext fun edge => mem_after.trans ((same _ _).trans mem_after.symm)

end EdgeSet

end RibMap
