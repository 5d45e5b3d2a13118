import RibMap.Analysis
import RibMap.Proofs.Extraction

/-! # Batches of declarations

An analysis is fed its declarations in batches. What it holds afterwards is what one extraction from
all of them yields, so how they were ordered, cut into batches or repeated shows nowhere: not in the
edges, not in the map, not in what is reported on the way.
-/

namespace RibMap.Analysis

/-- The analysis after batches of declarations were added, one after the other. -/
def addBatches (analysis : Analysis) (batches : List (List Declaration)) : Analysis :=
  batches.foldl (fun analysis batch => (analysis.addDeclarations batch).2) analysis

theorem settings_addBatches (analysis : Analysis) (batches : List (List Declaration)) :
    (analysis.addBatches batches).settings = analysis.settings := by
  induction batches generalizing analysis with
  | nil => rfl
  | cons batch rest ih => exact ih _

/-- Adding batches one by one is adding all of their declarations at once. -/
theorem edges_addBatches (analysis : Analysis) (batches : List (List Declaration)) :
    (analysis.addBatches batches).edges =
      analysis.edges.union (.ofDeclarations batches.flatten) := by
  induction batches generalizing analysis with
  | nil => rfl
  | cons batch rest ih =>
    calc
      ((analysis.addDeclarations batch).2.addBatches rest).edges
        = (analysis.edges.union (.ofDeclarations batch)).union (.ofDeclarations rest.flatten) :=
          ih _
      _ = analysis.edges.union (.ofDeclarations (batch ++ rest.flatten)) := by
          rw [EdgeSet.union_assoc, ← EdgeSet.ofDeclarations_append]

/-- A set of edges holds what the declarations say, no more and no less. Two analyses with the same
depth limit that were fed declarations which say the same hold the same edges in the same order, and
show, report and write the same for every root. -/
theorem map_of_declared_edges :
    (∀ declarations left right,
      (∃ edge ∈ EdgeSet.ofDeclarations declarations, edge.left = left ∧ edge.right = right) ↔
        Declares declarations left right) ∧
      ∀ (settings settings' : Settings) (batches batches' : List (List Declaration)),
        settings.maxDepth = settings'.maxDepth →
        (∀ left right,
          Declares batches.flatten left right ↔ Declares batches'.flatten left right) →
        let analysis := addBatches ⟨settings, .empty⟩ batches
        let analysis' := addBatches ⟨settings', .empty⟩ batches'
        analysis.edges.toList = analysis'.edges.toList ∧
          ∀ root,
            (analysis.walk root).lines = (analysis'.walk root).lines ∧
            (analysis.walk root).events.map Event.message =
              (analysis'.walk root).events.map Event.message ∧
            utf8 (analysis.mindmap root).text = utf8 (analysis'.mindmap root).text := by
  refine ⟨fun _ _ _ => EdgeSet.exists_mem_ofDeclarations_iff, ?_⟩
  intro settings settings' batches batches' limits same analysis analysis'
  have edges : analysis.edges = analysis'.edges := by
    simp only [analysis, analysis', edges_addBatches, EdgeSet.empty_union]
    exact EdgeSet.ofDeclarations_congr same
  have limit : analysis.settings.maxDepth = analysis'.settings.maxDepth := by
    simp only [analysis, analysis', settings_addBatches]
    exact limits
  refine ⟨congrArg EdgeSet.toList edges, fun root => ?_⟩
  simp only [walk, mindmap, edges, limit, and_self]

/-- A child and its parent, each declared twice over or in the other order, give one map. -/
theorem map_of_declared_edges_reordered :
    let child : Declaration := ⟨.class, some "ChildViewController", ["UIViewController"]⟩
    let parent : Declaration := ⟨.protocol, some "RootInteractable", ["", "ChildListener"]⟩
    let batches := [[child], [parent]]
    let batches' := [[parent, child], [], [parent]]
    (∀ left right,
      Declares batches.flatten left right ↔ Declares batches'.flatten left right) ∧
      Declares batches.flatten "RootInteractable" "ChildListener" ∧
      ((addBatches {} batches).walk "Root").lines =
        ((addBatches {} batches').walk "Root").lines := by
  intro child parent batches batches'
  have same (left right : String) :
      Declares batches.flatten left right ↔ Declares batches'.flatten left right := by
    simp only [batches, batches', Declares, List.flatten_cons, List.flatten_nil, List.cons_append,
      List.nil_append, List.mem_cons, List.not_mem_nil, or_false]
    grind
  obtain ⟨-, shown⟩ := map_of_declared_edges.2 {} {} batches batches' rfl same
  refine ⟨same, ?_, (shown "Root").1⟩
  exact ⟨by decide, by decide, by decide, parent, by simp [batches], .inr rfl, by decide⟩

end RibMap.Analysis
