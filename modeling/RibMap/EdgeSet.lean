import RibMap.Edge

/-! # Edge sets

A set of edges is kept as its strictly ascending listing, so sets with the same members are equal
and every walk over a set is a function of its members alone.
-/

namespace RibMap

/-- A set of edges. -/
structure EdgeSet where
  toList : List Edge
  ascending : toList.Pairwise Edge.Before
  deriving DecidableEq

namespace EdgeSet

/-- The set without edges. -/
def empty : EdgeSet := ⟨[], .nil⟩

instance : EmptyCollection EdgeSet := ⟨empty⟩

instance : Inhabited EdgeSet := ⟨empty⟩

instance : Membership Edge EdgeSet where
  mem set edge := edge ∈ set.toList

theorem mem_def {set : EdgeSet} {edge : Edge} : edge ∈ set ↔ edge ∈ set.toList := .rfl

instance (edge : Edge) (set : EdgeSet) : Decidable (edge ∈ set) :=
  inferInstanceAs (Decidable (edge ∈ set.toList))

def size (set : EdgeSet) : Nat := set.toList.length

/-- Put an edge into an ascending list, once. -/
def place (edge : Edge) : List Edge → List Edge
  | [] => [edge]
  | first :: rest =>
    if edge = first then first :: rest
    else if edge.Before first then edge :: first :: rest
    else first :: place edge rest

theorem mem_place {edge other : Edge} {edges : List Edge} :
    other ∈ place edge edges ↔ other = edge ∨ other ∈ edges := by
  induction edges with
  | nil => simp [place]
  | cons first rest ih =>
    unfold place
    split
    · rename_i same
      simp [same]
    · split
      · simp
      · simp only [List.mem_cons, ih]
        grind

theorem pairwise_place {edge : Edge} {edges : List Edge} (ascending : edges.Pairwise Edge.Before) :
    (place edge edges).Pairwise Edge.Before := by
  induction edges with
  | nil => simp [place]
  | cons first rest ih =>
    obtain ⟨least, tail⟩ := List.pairwise_cons.mp ascending
    unfold place
    split
    · exact ascending
    · rename_i differ
      split
      · rename_i before
        refine List.pairwise_cons.mpr ⟨?_, ascending⟩
        intro other mem
        rcases List.mem_cons.mp mem with rfl | mem
        · exact before
        · exact before.trans (least other mem)
      · rename_i notBefore
        refine List.pairwise_cons.mpr ⟨?_, ih tail⟩
        intro other mem
        rcases mem_place.mp mem with rfl | mem
        · exact (Edge.before_or_before differ).resolve_left notBefore
        · exact least other mem

/-- Add an edge. -/
def insert (set : EdgeSet) (edge : Edge) : EdgeSet :=
  ⟨place edge set.toList, pairwise_place set.ascending⟩

theorem mem_insert {set : EdgeSet} {edge other : Edge} :
    other ∈ set.insert edge ↔ other = edge ∨ other ∈ set :=
  mem_place

/-- Add an edge, and say whether it is new. -/
def insertNew (set : EdgeSet) (edge : Edge) : EdgeSet × Bool :=
  (set.insert edge, decide (edge ∉ set))

def insertAll (set : EdgeSet) (edges : List Edge) : EdgeSet :=
  edges.foldl insert set

def ofList (edges : List Edge) : EdgeSet :=
  empty.insertAll edges

def union (set other : EdgeSet) : EdgeSet :=
  set.insertAll other.toList

/-- Whether the edge between two names is in the set. -/
def contains (set : EdgeSet) (left right : String) : Bool :=
  match Edge.of? left right with
  | none => false
  | some edge => decide (edge ∈ set)

end EdgeSet

end RibMap
