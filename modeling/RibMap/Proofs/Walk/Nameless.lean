import RibMap.Proofs.Extraction
import RibMap.Proofs.Naming.Removal
import RibMap.Proofs.Walk.Distance

/-! # Nodes without a name

Edges join names that are not empty, but what a marker leaves of a name is empty where the marker is
all there is of it. So a protocol that inherits the bare marker of listeners has a child without a
name, and the map shows it on a line of its own. A map of declarations comes by such a node in no
other way.
-/

namespace RibMap

/-- A class or protocol inherits a bare marker of listeners under a name that makes a certain name
the parent. -/
def Declaration.BearsNameless (declaration : Declaration) (parent : String) : Prop :=
  (declaration.kind = .class ∨ declaration.kind = .protocol) ∧
    (∃ name, declaration.name = some name ∧ Marker.interactable.base? name = some parent) ∧
      ∃ name ∈ declaration.inherited, Marker.listener.Fills name

/-- A name that has a parent in it is not a bare marker of listeners. -/
theorem ne_of_base?_of_fills {name parent other : String}
    (parents : Marker.interactable.base? name = some parent)
    (fills : Marker.listener.Fills other) : name ≠ other := by
  rintro rfl
  have occurs : Marker.interactable.OccursIn name := (Marker.base?_eq_some_iff.mp parents).1
  have capital : 'I' ∈ name.toList := occurs.subset (by decide)
  obtain ⟨further, rfl⟩ := fills
  rw [String.toList_join, List.mem_flatMap] at capital
  obtain ⟨copy, mem, capital⟩ := capital
  rw [List.eq_of_mem_replicate mem] at capital
  exact absurd capital (by decide)

theorem EdgeSet.isParent_empty_iff {declarations : List Declaration} {parent : String} :
    (ofDeclarations declarations).IsParent parent "" ↔
      ∃ declaration ∈ declarations, declaration.BearsNameless parent := by
  constructor
  · rintro ⟨edge, mem, above, below⟩
    obtain ⟨-, -, -, declaration, here, kind, named, inherits⟩ := mem_ofDeclarations.mp mem
    exact ⟨declaration, here, kind, ⟨edge.left, named, above⟩, edge.right, inherits,
      Marker.base?_eq_some_empty_iff.mp below⟩
  · rintro ⟨declaration, here, kind, ⟨left, named, above⟩, right, inherits, fills⟩
    have below := Marker.base?_eq_some_empty_iff.mpr fills
    have proper {marker : Marker} {name base : String} (read : marker.base? name = some base) :
        name ≠ "" := by
      rintro rfl
      exact marker.not_occursIn_empty (Marker.base?_eq_some_iff.mp read).1
    have said : Declares declarations left right :=
      ⟨proper above, proper below, ne_of_base?_of_fills above fills, declaration, here, kind,
        named, inherits⟩
    obtain ⟨edge, mem, rfl, rfl⟩ := exists_mem_ofDeclarations_iff.mpr said
    exact ⟨edge, mem, above, below⟩

namespace Walk

/-- A name other than the root is shown exactly if it is a child of a node that is shown above the
limit. -/
theorem mem_names_iff_exists_parent {hierarchy : Hierarchy} {root name : String}
    {limit : Option Nat} (other : name ≠ root) :
    name ∈ (start hierarchy root limit).ribs.map Rib.name ↔
      ∃ rib ∈ (start hierarchy root limit).ribs,
        (∀ most ∈ limit, rib.depth < most) ∧ hierarchy.IsParent rib.name name := by
  rw [ribs_start, List.map_map, List.mem_map]
  constructor
  · rintro ⟨frame, visited, rfl⟩
    have put : frame.name = root ∨ ∃ parent ∈ subtree hierarchy limit ⟨root, 1, []⟩,
        frame ∈ pushed hierarchy limit parent :=
      forall_visited (P := fun frame => frame.name = root ∨
          ∃ parent ∈ subtree hierarchy limit ⟨root, 1, []⟩, frame ∈ pushed hierarchy limit parent)
        (.inl rfl) (fun parent visited child put _ => .inr ⟨parent, visited, put⟩) frame visited
    obtain ⟨parent, visited, put⟩ := put.resolve_left other
    exact ⟨_, List.mem_map_of_mem visited, lt_of_mem_pushed put,
      openChildren_subset (mem_pushed.mp put).1⟩
  · rintro ⟨rib, mem, admitted, link⟩
    obtain ⟨frame, visited, rfl⟩ := List.mem_map.mp mem
    obtain ⟨child, visited, same, -⟩ := exists_visited_child visited admitted link
    exact ⟨child, visited, same⟩

/-- A map of declarations under a root with a name shows a node without one exactly if it shows,
above the limit, a node for which some class or protocol inherits a bare marker of listeners. So
every node has a name unless such a marker is inherited. -/
theorem exists_nameless_iff (declarations : List Declaration) {root : String} (named : root ≠ "")
    (limit : Option Nat) :
    let ribs := ((ofEdges (.ofDeclarations declarations) root none).withLimit limit).ribs
    ((∃ rib ∈ ribs, rib.name = "") ↔
        ∃ rib ∈ ribs, (∀ most ∈ limit, rib.depth < most) ∧
          ∃ declaration ∈ declarations, declaration.BearsNameless rib.name) ∧
      ((∀ declaration ∈ declarations, declaration.kind = .class ∨ declaration.kind = .protocol →
          ∀ name ∈ declaration.inherited, ¬ Marker.listener.Fills name) →
        ∀ rib ∈ ribs, rib.name ≠ "") := by
  intro ribs
  have nameless : (∃ rib ∈ ribs, rib.name = "") ↔
      ∃ rib ∈ ribs, (∀ most ∈ limit, rib.depth < most) ∧
        ∃ declaration ∈ declarations, declaration.BearsNameless rib.name := by
    have shown :=
      @mem_names_iff_exists_parent (.ofEdges (.ofDeclarations declarations)) root "" limit
        named.symm
    simp only [Hierarchy.isParent_ofEdges, EdgeSet.isParent_empty_iff, List.mem_map] at shown
    exact shown
  refine ⟨nameless, fun bare rib mem empty => ?_⟩
  obtain ⟨parent, -, -, declaration, here, kind, -, name, inherits, fills⟩ :=
    nameless.mp ⟨rib, mem, empty⟩
  exact bare declaration here kind name inherits fills

/-- Under a limit of two the bare marker brings a node without a name, and a listener with a name
does not. -/
theorem exists_nameless_iff_listener :
    let bare : Declaration := ⟨.protocol, some "FooInteractable", ["Listener"]⟩
    let proper : Declaration := ⟨.protocol, some "FooInteractable", ["BarListener"]⟩
    let ribs (declaration : Declaration) :=
      ((ofEdges (.ofDeclarations [declaration]) "Foo" none).withLimit (some 2)).ribs
    "Foo" ≠ "" ∧ (∃ rib ∈ ribs bare, rib.name = "") ∧ ¬ Marker.listener.Fills "BarListener" ∧
      ∀ rib ∈ ribs proper, rib.name ≠ "" := by
  intro bare proper ribs
  have named : "Foo" ≠ "" := by decide
  have root : ⟨"Foo", 1, .viewless⟩ ∈ ribs bare := by decide +kernel
  have bears : bare.BearsNameless "Foo" :=
    ⟨.inr rfl, ⟨_, rfl, by decide +kernel⟩, "Listener", List.mem_cons_self, 0, by decide⟩
  have left : ¬ Marker.listener.Fills "BarListener" := by
    rw [← Marker.base?_eq_some_empty_iff]
    decide +kernel
  refine ⟨named, ?_, left, ?_⟩
  · exact (exists_nameless_iff [bare] named (some 2)).1.mpr
      ⟨_, root, by decide, bare, List.mem_cons_self, bears⟩
  · refine (exists_nameless_iff [proper] named (some 2)).2 fun declaration mem _ name inherits => ?_
    rw [List.mem_singleton.mp mem] at inherits
    rw [List.mem_singleton.mp inherits]
    exact left

/-- The bare marker gives a named root a child without a name, on a line with nothing but its depth
and its view. -/
theorem nameless_child_shown :
    let declarations : List Declaration := [⟨.protocol, some "FooInteractable", ["Listener"]⟩]
    let walk := (ofEdges (.ofDeclarations declarations) "Foo" none).withLimit none
    "Foo" ≠ "" ∧ (∃ rib ∈ walk.ribs, rib.name = "") ∧
      walk.lines = ["* Foo<<Viewless>>", "** <<Viewless>>"] := by
  decide +kernel

end Walk

end RibMap
