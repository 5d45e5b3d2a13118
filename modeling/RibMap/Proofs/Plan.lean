import Mathlib.Data.Finset.Card
import Mathlib.Data.Finset.Sort
import RibMap.Proofs.Extraction
import RibMap.Proofs.Walk.Rendering

/-! # Plans of hierarchies

A plan says who is to be whose child and who is to have a view, in names that the markers of the
naming convention can be added to. It can be declared in many ways: in any order, with the children
of a parent together or apart, several times over, and among declarations that have nothing to do
with it. Whatever the way, the map of the declarations is the tree of the plan.
-/

namespace RibMap

/-- A marked listener comes before another one, or is the same. -/
def ListenerOrder (first second : String) : Prop :=
  first ++ "Listener" ≤ second ++ "Listener"

namespace ListenerOrder

instance : DecidableRel ListenerOrder :=
  fun first second => inferInstanceAs (Decidable (first ++ "Listener" ≤ second ++ "Listener"))

instance : IsTrans String ListenerOrder :=
  ⟨fun _ _ _ first second => String.le_trans first second⟩

instance : Std.Antisymm ListenerOrder :=
  ⟨fun _ _ first second => (String.append_left_inj _).mp (String.le_antisymm first second)⟩

instance : Std.Total ListenerOrder :=
  ⟨fun _ _ => String.le_total _ _⟩

end ListenerOrder

/-- Who is to be whose child, and who is to have a view. -/
structure Plan where
  links : Finset (String × String)
  views : Finset String
  parent_plain : ∀ link ∈ links,
    ¬ Marker.interactable.OccursIn link.1 ∧ ¬ Marker.viewController.OccursIn link.1
  child_plain : ∀ link ∈ links, ¬ Marker.listener.OccursIn link.2
  view_plain : ∀ owner ∈ views, owner ≠ "UI" ∧ ¬ Marker.viewController.OccursIn owner

namespace Plan

/-- The children of a node in a plan, ordered by the names of their listeners. -/
def children (plan : Plan) (node : String) : List String :=
  ((plan.links.filter fun link => link.1 = node).image Prod.snd).sort ListenerOrder

/-- The view of a node in a plan. -/
def view (plan : Plan) (node : String) : View :=
  if node ∈ plan.views then .viewful else .viewless

/-- The number of links of a plan to names that are not on a path. -/
def unmet (plan : Plan) (path : List String) : Nat :=
  (plan.links.filter fun link => link.2 ∉ path).card

theorem mem_children {plan : Plan} {node child : String} :
    child ∈ plan.children node ↔ (node, child) ∈ plan.links := by
  simp only [children, Finset.mem_sort, Finset.mem_image, Finset.mem_filter]
  constructor
  · rintro ⟨⟨parent, _⟩, ⟨mem, rfl⟩, rfl⟩
    exact mem
  · intro mem
    exact ⟨(node, child), ⟨mem, rfl⟩, rfl⟩

theorem pairwise_children (plan : Plan) (node : String) :
    (plan.children node).Pairwise ListenerOrder :=
  Finset.pairwise_sort _ _

theorem nodup_children (plan : Plan) (node : String) : (plan.children node).Nodup :=
  Finset.sort_nodup _ _

/-- The children of a node are determined by their order and the links of the plan. -/
theorem eq_children {plan : Plan} {node : String} {names : List String}
    (ordered : names.Pairwise fun first second => first ++ "Listener" < second ++ "Listener")
    (planned : ∀ child, child ∈ names ↔ (node, child) ∈ plan.links) :
    names = plan.children node := by
  have sorted : names.Pairwise ListenerOrder := ordered.imp fun less => Std.le_of_lt less
  have distinct : names.Nodup := by
    refine ordered.imp fun {first second} less => ?_
    rintro rfl
    exact String.lt_irrefl _ less
  have same : names.Perm (plan.children node) :=
    (List.perm_ext_iff_of_nodup distinct (plan.nodup_children node)).mpr fun child =>
      (planned child).trans mem_children.symm
  exact same.eq_of_pairwise' sorted (plan.pairwise_children node)

theorem unmet_append_lt {plan : Plan} {node child : String} {path : List String}
    (mem : child ∈ plan.children node) (new : child ∉ path) :
    plan.unmet (path ++ [child]) < plan.unmet path := by
  refine Finset.card_lt_card (Finset.ssubset_iff_of_subset ?_ |>.mpr ⟨(node, child), ?_, ?_⟩)
  · intro link
    simp only [Finset.mem_filter, List.mem_append]
    exact fun ⟨mem, out⟩ => ⟨mem, fun inside => out (.inl inside)⟩
  · exact Finset.mem_filter.mpr ⟨mem_children.mp mem, new⟩
  · simp

/-- The tree of a plan from a node on, given the nodes above it: the node, and then the trees of its
children that are not on the way from the root, unless the limit is reached. -/
def tree (plan : Plan) (limit : Option Nat) (above : List String) (node : String) (depth : Nat) :
    List Rib :=
  ⟨node, depth, plan.view node⟩ ::
    if ∀ most ∈ limit, depth < most then
      ((plan.children node).filter fun child => decide (child ∉ above ++ [node])).attach.flatMap
        fun child => tree plan limit (above ++ [node]) child.val (depth + 1)
    else []
termination_by plan.unmet (above ++ [node])
decreasing_by
  obtain ⟨mem, new⟩ := List.mem_filter.mp child.property
  exact unmet_append_lt mem (of_decide_eq_true new)

theorem tree_eq (plan : Plan) (limit : Option Nat) (above : List String) (node : String)
    (depth : Nat) :
    plan.tree limit above node depth =
      ⟨node, depth, plan.view node⟩ ::
        if ∀ most ∈ limit, depth < most then
          ((plan.children node).filter fun child => decide (child ∉ above ++ [node])).flatMap
            fun child => plan.tree limit (above ++ [node]) child (depth + 1)
        else [] := by
  rw [tree, List.flatMap_subtype (g := fun child =>
    plan.tree limit (above ++ [node]) child (depth + 1)) fun _ _ => rfl, List.unattach_attach]

/-- A declaration that a plan has room for. -/
inductive Allows (plan : Plan) (declaration : Declaration) : Prop
  /-- A protocol of a parent inherits listeners of its children, and anything that is no
  listener. -/
  | interactable (parent : String)
      (plain : ¬ Marker.interactable.OccursIn parent ∧ ¬ Marker.viewController.OccursIn parent)
      (kind : declaration.kind = .protocol)
      (name : declaration.name = some (parent ++ "Interactable"))
      (inherited : ∀ name ∈ declaration.inherited, Marker.listener.OccursIn name →
        ∃ child, (parent, child) ∈ plan.links ∧ name = child ++ "Listener")
  /-- A class of a node with a view inherits nothing that is a listener. -/
  | viewController (owner : String) (mem : owner ∈ plan.views)
      (kind : declaration.kind = .class)
      (name : declaration.name = some (owner ++ "ViewController"))
      (inherited : ∀ name ∈ declaration.inherited, ¬ Marker.listener.OccursIn name)
  /-- Declarations that are neither classes nor protocols are free. -/
  | other (kind : ¬ (declaration.kind = .class ∨ declaration.kind = .protocol))

/-- Declarations say what is in a plan, and nothing about links and views that is not. -/
structure DeclaredBy (plan : Plan) (declarations : List Declaration) : Prop where
  allowed : ∀ declaration ∈ declarations, plan.Allows declaration
  links : ∀ parent child, (parent, child) ∈ plan.links →
    ∃ declaration ∈ declarations, declaration.kind = .protocol ∧
      declaration.name = some (parent ++ "Interactable") ∧
      child ++ "Listener" ∈ declaration.inherited
  views : ∀ owner ∈ plan.views,
    ∃ declaration ∈ declarations, declaration.kind = .class ∧
      declaration.name = some (owner ++ "ViewController") ∧
      "UIViewController" ∈ declaration.inherited

variable {plan : Plan} {declarations : List Declaration}

/-- What the edges of declarations look like if a plan has room for the declarations. -/
theorem DeclaredBy.edge_cases (declared : plan.DeclaredBy declarations) {edge : Edge}
    (mem : edge ∈ EdgeSet.ofDeclarations declarations) :
    (∃ parent, (¬ Marker.interactable.OccursIn parent ∧ ¬ Marker.viewController.OccursIn parent) ∧
        edge.left = parent ++ "Interactable" ∧ (Marker.listener.OccursIn edge.right →
          ∃ child, (parent, child) ∈ plan.links ∧ edge.right = child ++ "Listener")) ∨
      ∃ owner ∈ plan.views,
        edge.left = owner ++ "ViewController" ∧ ¬ Marker.listener.OccursIn edge.right := by
  obtain ⟨-, -, -, declaration, here, inheritable, named, inherits⟩ :=
    EdgeSet.mem_ofDeclarations.mp mem
  cases declared.allowed declaration here with
  | interactable parent plain kind name inherited =>
    exact .inl ⟨parent, plain, Option.some.inj (named.symm.trans name), inherited _ inherits⟩
  | viewController owner viewed kind name inherited =>
    exact .inr ⟨owner, viewed, Option.some.inj (named.symm.trans name), inherited _ inherits⟩
  | other kind => exact absurd inheritable kind

/-- An edge makes a link exactly if the link is planned and its two names, marked, are those of the
edge. -/
theorem DeclaredBy.links_iff (declared : plan.DeclaredBy declarations) {edge : Edge}
    (mem : edge ∈ EdgeSet.ofDeclarations declarations) {parent child : String} :
    edge.Links parent child ↔ (parent, child) ∈ plan.links ∧
      edge.left = parent ++ "Interactable" ∧ edge.right = child ++ "Listener" := by
  constructor
  · rintro ⟨above, below⟩
    obtain ⟨listens, -⟩ := Marker.base?_eq_some_iff.mp below
    rcases declared.edge_cases mem with ⟨parent', ⟨plain, -⟩, left, planned⟩ | ⟨_, -, -, silent⟩
    · obtain ⟨child', link, right⟩ := planned listens
      rw [left] at above
      rw [right] at below
      obtain rfl : parent' = parent :=
        Option.some.inj ((Marker.base?_append plain).symm.trans above)
      obtain rfl : child' = child :=
        Option.some.inj ((Marker.base?_append (plan.child_plain _ link)).symm.trans below)
      exact ⟨link, left, right⟩
    · exact absurd listens silent
  · rintro ⟨link, left, right⟩
    rw [Edge.Links, left, right]
    exact ⟨Marker.base?_append (plan.parent_plain _ link).1,
      Marker.base?_append (plan.child_plain _ link)⟩

theorem DeclaredBy.isParent_iff (declared : plan.DeclaredBy declarations) {parent child : String} :
    (EdgeSet.ofDeclarations declarations).IsParent parent child ↔
      (parent, child) ∈ plan.links := by
  constructor
  · rintro ⟨edge, mem, links⟩
    exact ((declared.links_iff mem).mp links).1
  · intro link
    obtain ⟨declaration, here, kind, named, inherits⟩ := declared.links parent child link
    have differ : parent ++ "Interactable" ≠ child ++ "Listener" := by
      intro same
      have last := congrArg (fun name => name.toList.getLast?) same
      simp at last
    have said : Declares declarations (parent ++ "Interactable") (child ++ "Listener") :=
      ⟨by simp, by simp, differ, declaration, here, .inr kind, named, inherits⟩
    obtain ⟨edge, mem, left, right⟩ := EdgeSet.exists_mem_ofDeclarations_iff.mpr said
    exact ⟨edge, mem, (declared.links_iff mem).mpr ⟨link, left, right⟩⟩

/-- The hierarchy of the declarations has the children of the plan, in their order. -/
theorem DeclaredBy.children_eq (declared : plan.DeclaredBy declarations) (node : String) :
    (Hierarchy.ofEdges (.ofDeclarations declarations)).children node = plan.children node := by
  refine eq_children ?_ fun child => Hierarchy.isParent_ofEdges.trans declared.isParent_iff
  -- Edges that make links from one node differ in their right names only.
  rw [Hierarchy.children_ofEdges_eq_filterMap, List.pairwise_filterMap]
  refine (EdgeSet.ofDeclarations declarations).ascending.imp_of_mem ?_
  intro edge other mem mem' before first leads second leads'
  obtain ⟨-, left, right⟩ := (declared.links_iff mem).mp (Edge.childOf?_eq_some_iff.mp leads)
  obtain ⟨-, left', right'⟩ := (declared.links_iff mem').mp (Edge.childOf?_eq_some_iff.mp leads')
  rcases before with less | ⟨-, less⟩
  · rw [left, left'] at less
    exact absurd less (String.lt_irrefl _)
  · rwa [right, right'] at less

/-- The hierarchy of the declarations has the views of the plan. -/
theorem DeclaredBy.view_eq (declared : plan.DeclaredBy declarations) (node : String) :
    (Hierarchy.ofEdges (.ofDeclarations declarations)).view node = plan.view node := by
  have owns : node ∈ (Hierarchy.ofEdges (.ofDeclarations declarations)).viewOwners ↔
      node ∈ plan.views := by
    simp only [Hierarchy.ofEdges, List.mem_filterMap, Edge.viewOwner?]
    constructor
    · rintro ⟨edge, mem, owns⟩
      rcases declared.edge_cases mem with ⟨parent, ⟨-, plain⟩, left, -⟩ | ⟨owner, viewed, left, -⟩
      · obtain ⟨occurs, -⟩ := Marker.base?_eq_some_iff.mp owns
        rw [left] at occurs
        exact absurd occurs (Marker.not_viewController_occursIn_append plain)
      · rw [left] at owns
        obtain rfl : owner = node := Option.some.inj
          ((Marker.base?_append (plan.view_plain _ viewed).2).symm.trans owns)
        exact viewed
    · intro viewed
      obtain ⟨declaration, here, kind, named, inherits⟩ := declared.views node viewed
      obtain ⟨proper, plain⟩ := plan.view_plain node viewed
      have differ : node ++ "ViewController" ≠ "UI" ++ "ViewController" := fun same =>
        proper ((String.append_left_inj "ViewController").mp same)
      have said : Declares declarations (node ++ "ViewController") "UIViewController" :=
        ⟨by simp, by simp, differ, declaration, here, .inl kind, named, inherits⟩
      obtain ⟨edge, mem, left, -⟩ := EdgeSet.exists_mem_ofDeclarations_iff.mpr said
      exact ⟨edge, mem, left ▸ Marker.base?_append plain⟩
  simp only [Hierarchy.view, view, owns]

theorem DeclaredBy.map_shown_subtree (declared : plan.DeclaredBy declarations)
    (limit : Option Nat) (frame : Frame) :
    (Walk.subtree (.ofEdges (.ofDeclarations declarations)) limit frame).map
        (Walk.shown (.ofEdges (.ofDeclarations declarations))) =
      plan.tree limit frame.ancestors frame.name frame.depth := by
  refine Walk.map_shown_subtree_eq (plan.tree limit) (fun above node depth => ?_) frame
  rw [tree_eq, declared.view_eq, declared.children_eq]

/-- However a plan is declared, the map of the declarations is the tree of the plan. -/
theorem ribs_eq_tree (plan : Plan) (declarations : List Declaration)
    (declared : plan.DeclaredBy declarations) (root : String) (limit : Option Nat) :
    ((Walk.ofEdges (.ofDeclarations declarations) root none).withLimit limit).ribs =
      plan.tree limit [] root 1 := by
  rw [Walk.ribs_eq]
  exact (congrArg _ (Walk.frames_start _ limit root)).trans
    (declared.map_shown_subtree limit ⟨root, 1, []⟩)

/-- A root with a view and a child that has the root for its own child. -/
def loop : Plan where
  links := {("Root", "B"), ("B", "Root")}
  views := {"Root"}
  parent_plain := by decide +kernel
  child_plain := by decide +kernel
  view_plain := by decide +kernel

/-- The loop among a declaration that would make another child if it were a protocol, and a name
inherited that is no listener. -/
theorem loop_ribs_eq_tree :
    let declarations : List Declaration :=
      [⟨.protocol, some "RootInteractable", ["Presentable", "BListener"]⟩,
        ⟨.struct, some "RootInteractable", ["CListener"]⟩,
        ⟨.class, some "RootViewController", ["UIViewController"]⟩,
        ⟨.protocol, some "BInteractable", ["RootListener", "RootListener"]⟩]
    loop.DeclaredBy declarations ∧
      ((Walk.ofEdges (.ofDeclarations declarations) "Root" none).withLimit none).ribs =
        loop.tree none [] "Root" 1 := by
  intro declarations
  have allowed : ∀ declaration ∈ declarations, loop.Allows declaration := by
    simp only [declarations, List.forall_mem_cons]
    refine ⟨.interactable "Root" (by decide) rfl rfl ?_, .other (by decide),
      .viewController "Root" (by decide) rfl rfl (by decide),
      .interactable "B" (by decide) rfl rfl ?_, fun _ mem => absurd mem List.not_mem_nil⟩
    · simp only [List.forall_mem_cons]
      exact ⟨fun listens => absurd listens (by decide), fun _ => ⟨"B", by decide, rfl⟩,
        fun _ mem => absurd mem List.not_mem_nil⟩
    · simp only [List.forall_mem_cons]
      exact ⟨fun _ => ⟨"Root", by decide, rfl⟩, fun _ => ⟨"Root", by decide, rfl⟩,
        fun _ mem => absurd mem List.not_mem_nil⟩
  have declared : loop.DeclaredBy declarations := by
    refine ⟨allowed, ?_, ?_⟩
    · intro parent child link
      simp only [loop, Finset.mem_insert, Finset.mem_singleton, Prod.mk.injEq] at link
      rcases link with ⟨rfl, rfl⟩ | ⟨rfl, rfl⟩
      · exact ⟨_, List.mem_cons_self, rfl, rfl, by decide⟩
      · exact ⟨_, List.mem_of_getElem? (show declarations[3]? = some _ from rfl), rfl, rfl,
          by decide⟩
    · intro owner viewed
      obtain rfl := Finset.mem_singleton.mp viewed
      exact ⟨_, List.mem_of_getElem? (show declarations[2]? = some _ from rfl), rfl, rfl, by decide⟩
  exact ⟨declared, ribs_eq_tree loop declarations declared "Root" none⟩

end Plan

end RibMap
