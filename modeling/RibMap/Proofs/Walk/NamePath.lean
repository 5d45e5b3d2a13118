import RibMap.Walk

/-! # The paths that a map shows

The lines of a map carry depths only. Above each of them stand, at every smaller depth, the last
lines before it, and their names lead from the root to it. A node leaves alone what is shown above
its own depth, and continues the path of the node that it stands right below.
-/

namespace RibMap

namespace Rib

/-- The name of the last node at a depth. -/
def lastAt? (earlier : List Rib) (depth : Nat) : Option String :=
  (earlier.reverse.find? fun rib => rib.depth = depth).map Rib.name

/-- The names of the last nodes at every depth from the root's to a given one. -/
def spine? (earlier : List Rib) : Nat → Option (List String)
  | 0 => some []
  | depth + 1 => do
    let above ← spine? earlier depth
    let name ← lastAt? earlier (depth + 1)
    return above ++ [name]

/-- The names from the root to a node, given the nodes before it. -/
def namePath? (earlier : List Rib) (rib : Rib) : Option (List String) :=
  (spine? earlier (rib.depth - 1)).map (· ++ [rib.name])

/-- The names from the root to each of some nodes, given the nodes before them. -/
def namePathsAfter (earlier : List Rib) : List Rib → List (Option (List String))
  | [] => []
  | rib :: later => namePath? earlier rib :: namePathsAfter (earlier ++ [rib]) later

/-- The names from the root to each node of a list. -/
def namePaths (ribs : List Rib) : List (Option (List String)) :=
  namePathsAfter [] ribs

theorem lastAt?_append {earlier more : List Rib} {depth : Nat}
    (deeper : ∀ rib ∈ more, depth < rib.depth) :
    lastAt? (earlier ++ more) depth = lastAt? earlier depth := by
  have none : more.reverse.find? (fun rib => rib.depth = depth) = none := by
    rw [List.find?_eq_none]
    intro rib mem same
    have := deeper rib (List.mem_reverse.mp mem)
    rw [of_decide_eq_true same] at this
    exact Nat.lt_irrefl _ this
  rw [lastAt?, List.reverse_append, List.find?_append, none, Option.none_or, lastAt?]

theorem spine?_append {earlier more : List Rib} {depth : Nat}
    (deeper : ∀ rib ∈ more, depth < rib.depth) :
    spine? (earlier ++ more) depth = spine? earlier depth := by
  induction depth with
  | zero => rfl
  | succ depth ih =>
    rw [spine?, spine?, ih fun rib mem => Nat.lt_of_succ_lt (deeper rib mem),
      lastAt?_append deeper]

/-- A node one deeper than the spine before it continues the spine. -/
theorem spine?_snoc {earlier : List Rib} {names : List String} {rib : Rib}
    (spine : spine? earlier names.length = some names) (deep : rib.depth = names.length + 1) :
    spine? (earlier ++ [rib]) (names ++ [rib.name]).length = some (names ++ [rib.name]) := by
  have kept : spine? (earlier ++ [rib]) names.length = some names := by
    rw [spine?_append, spine]
    intro other mem
    rw [List.mem_singleton.mp mem, deep]
    exact Nat.lt_succ_self _
  have last : lastAt? (earlier ++ [rib]) (names.length + 1) = some rib.name := by
    simp [lastAt?, deep]
  rw [List.length_append, List.length_singleton, spine?, kept, last]
  rfl

end Rib

end RibMap
