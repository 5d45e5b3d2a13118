import RibMap.Proofs.Walk.Ancestry

/-! # Reports of cycles

A complete walk reports a cycle exactly if a cycle can be reached from its root. A report names a
child that is an ancestor of its own parent. Conversely a walk that reports nothing follows every
link it meets, hence also one that leads back to a name on the path it came by.
-/

namespace RibMap.Walk

variable {hierarchy : Hierarchy} {limit : Option Nat} {root : String}

/-- What is reported at a frame: the open children that are on its path. -/
theorem cycle_mem_cycles {frame : Frame} {path : List String} {child : String} :
    .cycle path child ∈ cycles hierarchy limit frame ↔
      path = frame.path ∧ child ∈ openChildren hierarchy limit frame ∧ child ∈ frame.path := by
  simp only [cycles, List.mem_map, List.mem_reverse, List.mem_filter, decide_eq_true_eq,
    Event.cycle.injEq]
  constructor
  · rintro ⟨_, ⟨opened, met⟩, rfl, rfl⟩
    exact ⟨rfl, opened, met⟩
  · rintro ⟨rfl, opened, met⟩
    exact ⟨child, ⟨opened, met⟩, rfl, rfl⟩

theorem cycle_mem_events {root : String} {path : List String} {child : String} :
    .cycle path child ∈ (start hierarchy root limit).events ↔
      ∃ frame ∈ subtree hierarchy limit ⟨root, 1, []⟩,
        path = frame.path ∧ child ∈ openChildren hierarchy limit frame ∧ child ∈ frame.path := by
  rw [events_eq, List.mem_flatMap, frames_start]
  simp only [start, cycle_mem_cycles]

/-- Nothing is reported below a root: no child of a visited frame is on its path. -/
def Silent (hierarchy : Hierarchy) (root : String) : Prop :=
  ∀ frame ∈ subtree hierarchy none ⟨root, 1, []⟩,
    ∀ child, hierarchy.IsParent frame.name child → child ∉ frame.path

namespace Silent

theorem follows (silent : Silent hierarchy root) {frame : Frame} {child : String}
    (visited : frame ∈ subtree hierarchy none ⟨root, 1, []⟩)
    (link : hierarchy.IsParent frame.name child) :
    ⟨child, frame.depth + 1, frame.path⟩ ∈ subtree hierarchy none ⟨root, 1, []⟩ :=
  mem_subtree_of_mem_pushed visited
    (mem_pushed.mpr ⟨link, silent frame visited child link, rfl⟩)

/-- Where nothing is reported, everything that can be reached is visited. -/
theorem visits (silent : Silent hierarchy root) {name : String}
    (reached : Relation.ReflTransGen hierarchy.IsParent root name) :
    ∃ frame ∈ subtree hierarchy none ⟨root, 1, []⟩, frame.name = name := by
  induction reached with
  | refl => exact ⟨_, mem_subtree.mpr (.inl rfl), rfl⟩
  | tail _ link ih =>
    obtain ⟨frame, visited, rfl⟩ := ih
    exact ⟨_, silent.follows visited link, rfl⟩

/-- Where nothing is reported, the links from a visited frame lead to frames below it. -/
theorem descends (silent : Silent hierarchy root) {frame : Frame} {name : String}
    (visited : frame ∈ subtree hierarchy none ⟨root, 1, []⟩)
    (leads : Relation.TransGen hierarchy.IsParent frame.name name) :
    ∃ other ∈ subtree hierarchy none ⟨root, 1, []⟩,
      other.name = name ∧ frame.name ∈ other.ancestors := by
  induction leads with
  | single link =>
    exact ⟨_, silent.follows visited link, rfl, List.mem_append_right _ List.mem_cons_self⟩
  | tail _ link ih =>
    obtain ⟨other, below, rfl, above⟩ := ih
    exact ⟨_, silent.follows below link, rfl, List.mem_append_left _ above⟩

/-- Where nothing is reported, nothing that can be reached is below itself. -/
theorem acyclic (silent : Silent hierarchy root) {name : String}
    (reached : Relation.ReflTransGen hierarchy.IsParent root name) :
    ¬ Relation.TransGen hierarchy.IsParent name name := by
  intro cycle
  obtain ⟨frame, visited, rfl⟩ := silent.visits reached
  obtain ⟨other, below, same, above⟩ := silent.descends visited cycle
  have distinct := (rooted_of_mem_subtree (Frame.rooted_root hierarchy root) below).distinct
  rw [Frame.path, same, List.nodup_append] at distinct
  exact distinct.2.2 _ above _ List.mem_cons_self rfl

end Silent

/-- A complete walk without a depth limit reports a cycle exactly if a name that is below itself can
be reached from its root. -/
theorem cycle_reported_iff (edges : EdgeSet) (root : String) :
    (∃ path child, .cycle path child ∈ (ofEdges edges root none).events) ↔
      ∃ name, Relation.ReflTransGen edges.IsParent root name ∧
        Relation.TransGen edges.IsParent name name := by
  have links : (Hierarchy.ofEdges edges).IsParent = edges.IsParent := by
    funext parent child
    exact propext Hierarchy.isParent_ofEdges
  rw [← links]
  constructor
  · rintro ⟨path, child, reported⟩
    obtain ⟨frame, visited, -, link, met⟩ := cycle_mem_events.mp reported
    have rooted := rooted_of_mem_subtree (Frame.rooted_root _ root) visited
    obtain ⟨reached, back⟩ := rooted.reaches met
    exact ⟨child, reached, .tail' back link⟩
  · rintro ⟨name, reached, cycle⟩
    by_contra unreported
    refine Silent.acyclic ?_ reached cycle
    intro frame visited child link met
    exact unreported ⟨_, child, cycle_mem_events.mpr ⟨frame, visited, rfl, link, met⟩⟩

end RibMap.Walk
