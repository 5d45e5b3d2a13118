import RibMap.Proofs.CommandLine.Delivery
import RibMap.Proofs.EdgeSet.History
import RibMap.Proofs.Reference.Json.Library

/-! # Edges as JSON

A set of edges is written as JSON in two layouts: compactly, and with an item or member to a line,
which is what a run prints. Each of the texts spells one value, the list of the pairs of names in
the order of the set, whatever characters the names consist of. So a set can be told from either
text.
-/

namespace RibMap

/-- A list of objects with exactly a left and a right name each. -/
def Json.ofPairs (pairs : List (String × String)) : Json :=
  .array (pairs.map fun pair => .object [("left", .string pair.1), ("right", .string pair.2)])

theorem Json.ofPairs_injective : Function.Injective Json.ofPairs := by
  intro pairs pairs' same
  refine List.map_injective_iff.mpr (fun pair pair' same => ?_) (Json.array.inj same)
  simpa [Prod.ext_iff] using same

namespace EdgeSet

/-- What is written of a set spells the pairs of its names. -/
theorem writes_pairs {write : Json.Writer} (rules : Json.WritesByRules write) (set : EdgeSet) :
    Json.Writes write shape (set.toList.map Edge.toFields) (.ofPairs set.pairs) := by
  have edge (edge : Edge) : Json.Writes write Edge.shape edge.toFields
      (.object [("left", .string edge.left), ("right", .string edge.right)]) := by
    apply rules.record
    exact ⟨_, _, rules.text edge.left, ⟨_, _, rules.text edge.right, rfl, rfl⟩, rfl⟩
  have items : ∀ fields ∈ set.toList.map Edge.toFields, Json.Writes write Edge.shape fields
      ((fun (left, right, _) => .object [("left", .string left), ("right", .string right)])
        fields) :=
    List.forall_mem_map.mpr fun one _ => edge one
  have written := rules.list items
  rw [Json.ofPairs, pairs, List.map_map]
  rwa [List.map_map] at written

theorem exists_toJson [Json.Library] (rules : Json.WritesByRules Json.Library.write)
    (set : EdgeSet) : ∃ text, set.toJson = .ok text ∧ (Json.ofPairs set.pairs).IsSpelledBy text :=
  set.writes_pairs rules

open CommandLine.Session in
theorem exists_listing [Json.Library] (rules : Json.WritesByRules Json.Library.writeIndented)
    (set : EdgeSet) :
    ∃ text, listing set true = .ok text ∧ (Json.ofPairs set.pairs).IsSpelledBy text := by
  obtain ⟨text, written, spelled⟩ := set.writes_pairs rules
  have lineFeed : Json.Layout "\n".toList := List.forall_mem_singleton.mpr (by decide)
  have printed : set.toJsonIndented = .ok text := written
  refine ⟨text ++ "\n", ?_, spelled.append lineFeed⟩
  rw [listing, if_pos rfl, printed]
  rfl

/-- A set can be told from a text that spells its pairs. -/
theorem eq_of_isSpelledBy {set other : EdgeSet} {text : String}
    (spelled : (Json.ofPairs set.pairs).IsSpelledBy text)
    (spelled' : (Json.ofPairs other.pairs).IsSpelledBy text) : set = other :=
  pairs_injective (Json.ofPairs_injective (spelled.unique spelled'))

end EdgeSet

theorem Json.IsSpelledBy.iff_eq {value : Json} {text : String} (spelled : value.IsSpelledBy text)
    (other : Json) : other.IsSpelledBy text ↔ other = value :=
  ⟨fun spelled' => spelled'.unique spelled, fun same => same ▸ spelled⟩

namespace CommandLine

open Session

section

variable [Json.Library] [Swift.Grammar] [Logger] [Reporter]
variable {arguments : List String} {paths : List Path} {overrides : Overrides} {json : Bool}
variable {environment : Environment} {files : FileSystem}

/-- Edges are listed if their sources can be acquired and the listing can be made. -/
theorem Session.edges_of_acquired (session : Session) {settings : Settings}
    (acquired : Acquired session.files settings paths) {text : String}
    (listed : listing acquired.edges json = .ok text) :
    session.edges ⟨settings, .empty⟩ paths json =
      ((session.report <| (session.files.collect settings.skipDirs paths).1 ++
          (session.files.load acquired.sources).1 ++
          [.ofExtraction acquired.declarations, .analyzed acquired.sources.length]).say
        text).succeed := by
  rw [Acquired.edges] at listed
  rw [edges, Analysis.collect]
  simp [acquired.collected, Except.mapError, report, Analysis.load_of_ok acquired.loaded, listed]

variable [ArgumentParser]

/-- A run that acquires its sources succeeds and prints the listing of their edges. -/
theorem run_edges_of_acquired (environment : Environment)
    (asked : ArgumentParser.read arguments = .request (.edges paths overrides json))
    (acquired : Acquired files (environment.settings.1.override overrides) paths) {text : String}
    (listed : listing acquired.edges json = .ok text) :
    (run arguments environment files).code = 0 ∧
      (run arguments environment files).output = text := by
  rw [run_of_edges environment files asked, Environment.analysis,
    Session.edges_of_acquired _ acquired listed]
  exact ⟨rfl, String.empty_append⟩

theorem acquired_of_edges (environment : Environment)
    (asked : ArgumentParser.read arguments = .request (.edges paths overrides json))
    (succeeded : (run arguments environment files).code = 0) :
    Nonempty (Acquired files (environment.settings.1.override overrides) paths) := by
  rw [run_of_edges environment files asked] at succeeded
  obtain acquired | ⟨error, failed⟩ | ⟨sources, error, collected, failed⟩ :=
    Acquired.cases files (environment.settings.1.override overrides) paths
  · exact acquired
  · have failed := Session.edges_of_uncollected (.opening environment files)
      (environment.analysis overrides) failed json
    exact absurd (succeeded.symm.trans failed.code) Nat.zero_ne_one
  · have failed := Session.edges_of_unloaded (.opening environment files)
      (environment.analysis overrides) collected failed json
    exact absurd (succeeded.symm.trans failed.code) Nat.zero_ne_one

/-- Edges are written as JSON without loss. Both the compact text of a set and the one that is
printed spell one value, the list of the pairs of names in the order of the set, and so they differ
for different sets. A run that succeeds prints nothing else. -/
theorem json_carries_edges (compact : Json.WritesByRules Json.Library.write)
    (indented : Json.WritesByRules Json.Library.writeIndented) :
    (∀ set : EdgeSet, ∃ text printed, set.toJson = .ok text ∧ listing set true = .ok printed ∧
      ∀ value : Json, (value.IsSpelledBy text ↔ value = .ofPairs set.pairs) ∧
        (value.IsSpelledBy printed ↔ value = .ofPairs set.pairs)) ∧
      (∀ set other : EdgeSet, (set.toJson = other.toJson ↔ set = other) ∧
        (listing set true = listing other true ↔ set = other)) ∧
      ∀ arguments environment files paths overrides,
        ArgumentParser.read arguments = .request (.edges paths overrides true) →
          (run arguments environment files).code = 0 →
            ∃ acquired : Acquired files (environment.settings.1.override overrides) paths,
              listing acquired.edges true = .ok (run arguments environment files).output ∧
              ∀ value : Json, value.IsSpelledBy (run arguments environment files).output ↔
                value = .ofPairs acquired.edges.pairs := by
  refine ⟨fun set => ?_, fun set other => ⟨⟨fun same => ?_, congrArg _⟩, ⟨fun same => ?_, ?_⟩⟩,
    fun arguments environment files paths overrides asked succeeded => ?_⟩
  · obtain ⟨text, written, spelled⟩ := set.exists_toJson compact
    obtain ⟨printed, listed, spelled'⟩ := set.exists_listing indented
    exact ⟨text, printed, written, listed, fun value => ⟨spelled.iff_eq value,
      spelled'.iff_eq value⟩⟩
  · obtain ⟨text, written, spelled⟩ := set.exists_toJson compact
    obtain ⟨text', written', spelled'⟩ := other.exists_toJson compact
    rw [written, written'] at same
    obtain rfl := Except.ok.inj same
    exact EdgeSet.eq_of_isSpelledBy spelled spelled'
  · obtain ⟨text, listed, spelled⟩ := set.exists_listing indented
    obtain ⟨text', listed', spelled'⟩ := other.exists_listing indented
    rw [listed, listed'] at same
    obtain rfl := Except.ok.inj same
    exact EdgeSet.eq_of_isSpelledBy spelled spelled'
  · rintro rfl
    rfl
  · obtain ⟨acquired⟩ := acquired_of_edges environment asked succeeded
    obtain ⟨text, listed, spelled⟩ := acquired.edges.exists_listing indented
    obtain ⟨-, shown⟩ := run_edges_of_acquired environment asked acquired listed
    rw [shown]
    exact ⟨acquired, listed, spelled.iff_eq⟩

end

section Pair

open scoped Reference

/-- The one edge of a Swift file, as it is printed and as it is read. -/
theorem json_carries_edges_pair :
    let printed := (run ["edges", "A.swift", "--json"] {} pair).output
    printed = "[\n  \x7b\n    \"left\": \"RootInteractable\",\n" ++
        "    \"right\": \"AListener\"\n  \x7d\n]\n" ∧
      ∀ value : Json, value.IsSpelledBy printed ↔
        value = .ofPairs [("RootInteractable", "AListener")] := by
  intro printed
  have asked : ArgumentParser.read ["edges", "A.swift", "--json"] =
      .request (.edges [.ofString "A.swift"] {} true) := by rfl
  have listed : listing pairAcquired.edges true = .ok ("[\n  \x7b\n" ++
      "    \"left\": \"RootInteractable\",\n    \"right\": \"AListener\"\n  \x7d\n]\n") := by
    rfl
  obtain ⟨succeeded, shown⟩ := run_edges_of_acquired {} asked pairAcquired listed
  obtain ⟨-, -, runs⟩ := json_carries_edges Reference.writesByRules Reference.indentsByRules
  obtain ⟨acquired, -, spells⟩ := runs _ _ _ _ _ asked succeeded
  obtain rfl := Subsingleton.elim pairAcquired acquired
  have names : pairAcquired.edges.pairs = [("RootInteractable", "AListener")] := by decide +kernel
  refine ⟨shown, ?_⟩
  rw [← names]
  exact spells

/-- Quotes, backslashes and control characters are escaped, and no others. -/
example : (EdgeSet.ofList (Edge.ofPairs [("a\"b\n", "\\😀\x01")])).toJson =
    .ok "[\x7b\"left\":\"a\\\"b\\n\",\"right\":\"\\\\😀\\u0001\"\x7d]" := by
  rfl

end Pair

end CommandLine

end RibMap
