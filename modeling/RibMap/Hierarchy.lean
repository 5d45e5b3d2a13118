import RibMap.EdgeSet
import RibMap.Naming

/-! # The hierarchy of an edge set

Read by the naming convention, an edge set says which names are children of which, once for every
edge that says so, and which names have a view. The children are entered edge by edge into an index
by parent, and looked up there from then on.
-/

namespace RibMap

/-- Whether a RIB has a view of its own. -/
inductive View where
  | viewful
  | viewless
  deriving DecidableEq, Repr

def View.label : View → String
  | viewful => "Viewful"
  | viewless => "Viewless"

/-- The mark of a view at the end of a line. -/
def View.mark (view : View) : String :=
  "<<" ++ view.label ++ ">>"

/-- A parent and a child that one edge names. -/
structure Link where
  parent : String
  child : String
  deriving DecidableEq, Repr

def Edge.link? (edge : Edge) : Option Link := do
  let parent ← Marker.interactable.base? edge.left
  let child ← Marker.listener.base? edge.right
  return ⟨parent, child⟩

/-- The name to which an edge gives a view. -/
def Edge.viewOwner? (edge : Edge) : Option String :=
  Marker.viewController.base? edge.left

/-- The children of every name that has any. -/
abbrev Index := List (String × List String)

/-- Who is whose child, and who has a view. -/
structure Hierarchy where
  index : Index
  viewOwners : List String
  deriving DecidableEq, Repr

/-- A name that a path meets for the first time is one less for it to meet. -/
theorem countP_notMem_append_lt {names path : List String} {name : String}
    (mem : name ∈ names) (new : name ∉ path) :
    names.countP (fun other => decide (other ∉ path ++ [name])) <
      names.countP (fun other => decide (other ∉ path)) := by
  have fewer (others : List String) :
      others.countP (fun other => decide (other ∉ path ++ [name])) ≤
        others.countP (fun other => decide (other ∉ path)) := by
    refine List.countP_mono_left fun other _ => ?_
    simp only [List.mem_append, decide_eq_true_eq]
    exact fun out inside => out (.inl inside)
  obtain ⟨before, after, rfl⟩ := List.append_of_mem mem
  have := fewer before
  have := fewer after
  have here : name ∈ path ++ [name] := by simp
  simp only [List.countP_append, List.countP_cons, here, new, not_true_eq_false,
    not_false_eq_true, decide_false, decide_true, Bool.false_eq_true, ↓reduceIte]
  omega

namespace Hierarchy

/-- Enter a link: its child comes after the children that its parent has already. -/
def enter : Index → Link → Index
  | [], link => [(link.parent, [link.child])]
  | (parent, children) :: rest, link =>
    if parent = link.parent then (parent, children ++ [link.child]) :: rest
    else (parent, children) :: enter rest link

def ofEdges (edges : EdgeSet) : Hierarchy :=
  ⟨(edges.toList.filterMap Edge.link?).foldl enter [], edges.toList.filterMap Edge.viewOwner?⟩

/-- The children of a name, with repetitions, in the order in which they were entered. -/
def children (hierarchy : Hierarchy) (name : String) : List String :=
  (hierarchy.index.lookup name).getD []

def view (hierarchy : Hierarchy) (name : String) : View :=
  if name ∈ hierarchy.viewOwners then .viewful else .viewless

/-- Everything that is a child of something. -/
def offspring (hierarchy : Hierarchy) : List String :=
  hierarchy.index.flatMap Prod.snd

/-- The number of children, of whatever parent, that are not on a path. -/
def fresh (hierarchy : Hierarchy) (path : List String) : Nat :=
  hierarchy.offspring.countP fun child => decide (child ∉ path)

theorem children_infix_offspring (hierarchy : Hierarchy) (name : String) :
    hierarchy.children name <:+: hierarchy.offspring := by
  unfold children offspring
  cases found : hierarchy.index.lookup name with
  | none => exact List.nil_infix
  | some children =>
    obtain ⟨before, after, split, _⟩ := List.lookup_eq_some_iff.mp found
    rw [split, List.flatMap_append, List.flatMap_cons]
    exact ⟨before.flatMap Prod.snd, after.flatMap Prod.snd, by simp⟩

theorem length_children_le (hierarchy : Hierarchy) (name : String) :
    (hierarchy.children name).length ≤ hierarchy.offspring.length :=
  (hierarchy.children_infix_offspring name).length_le

theorem fresh_append_lt {hierarchy : Hierarchy} {path : List String} {name child : String}
    (mem : child ∈ hierarchy.children name) (new : child ∉ path) :
    hierarchy.fresh (path ++ [child]) < hierarchy.fresh path :=
  countP_notMem_append_lt ((hierarchy.children_infix_offspring name).subset mem) new

/-- Entering a link changes the children of its parent only. -/
theorem lookup_enter (index : Index) (link : Link) (name : String) :
    ((enter index link).lookup name).getD [] =
      (index.lookup name).getD [] ++ if link.parent = name then [link.child] else [] := by
  induction index with
  | nil =>
    by_cases same : link.parent = name
    · simp [enter, same]
    · have other : (name == link.parent) = false := beq_eq_false_iff_ne.mpr (Ne.symm same)
      simp [enter, List.lookup_cons, other, same]
  | cons entry rest ih =>
    obtain ⟨parent, children⟩ := entry
    by_cases here : parent = name
    · subst here
      by_cases same : parent = link.parent
      · simp [enter, same]
      · simp [enter, same, Ne.symm same]
    · have other : (name == parent) = false := beq_eq_false_iff_ne.mpr (Ne.symm here)
      by_cases same : parent = link.parent
      · simp [enter, List.lookup_cons, ← same, other, here]
      · simp [enter, List.lookup_cons, same, other, ih]

theorem lookup_foldl_enter (links : List Link) (index : Index) (name : String) :
    ((links.foldl enter index).lookup name).getD [] =
      (index.lookup name).getD [] ++
        (links.filter fun link => link.parent = name).map Link.child := by
  induction links generalizing index with
  | nil => simp
  | cons link rest ih =>
    rw [List.foldl_cons, ih, lookup_enter]
    by_cases same : link.parent = name <;> simp [same]

/-- The index holds, for every name, what a scan of all edges for this name finds. -/
theorem children_ofEdges (edges : EdgeSet) (name : String) :
    (ofEdges edges).children name =
      ((edges.toList.filterMap Edge.link?).filter fun link => link.parent = name).map
        Link.child := by
  simp [children, ofEdges, lookup_foldl_enter]

end Hierarchy

end RibMap
