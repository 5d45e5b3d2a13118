import RibMap.Naming
import RibMap.Proofs.Text.Occurrence

/-! # Markers in names

Whether a name carries a marker, and what the marker leaves of it, are two notions of their own
here. Reading the base of a name decides the first and returns the second.
-/

namespace RibMap

/-- A word without a certain letter lies on one side of every place where the letter stands. -/
theorem infix_of_infix_append_cons {word before after : List Char} {c : Char} (absent : c ∉ word)
    (found : word <:+: before ++ c :: after) : word <:+: before ∨ word <:+: after := by
  rcases List.infix_append_iff.mp found with left | right | ⟨start, rest, rfl, ends, begins⟩
  · exact .inl left
  · rcases List.infix_cons_iff.mp right with begins | right
    · rcases word with - | ⟨first, word⟩
      · exact .inl List.nil_infix
      · obtain ⟨rfl, -⟩ := List.cons_prefix_cons.mp begins
        exact absurd List.mem_cons_self absent
    · exact .inr right
  · rcases rest with - | ⟨first, rest⟩
    · rw [List.append_nil]
      exact .inl ends.isInfix
    · obtain ⟨rfl, -⟩ := List.cons_prefix_cons.mp begins
      exact absurd (List.mem_append_right _ List.mem_cons_self) absent

namespace Marker

/-- The marker occurs somewhere in a name. -/
def OccursIn (marker : Marker) (name : String) : Prop :=
  marker.text <:+: name.toList

instance (marker : Marker) (name : String) : Decidable (marker.OccursIn name) :=
  inferInstanceAs (Decidable (_ <:+: _))

/-- What is left of a name once every occurrence of the marker is removed. -/
def removedFrom (marker : Marker) (name : String) : String :=
  String.ofList (marker.cutAll name.toList)

theorem cutAll_of_cutOut? {marker : Marker} {text before after : List Char}
    (found : cutOut? marker.text text = some (before, after)) :
    marker.cutAll text = before ++ marker.cutAll after := by
  rw [cutAll]
  split
  · rename_i missing
    rw [missing] at found
    contradiction
  · rename_i before' after' found'
    rw [found'] at found
    cases found
    rfl

/-- The base of a name is what the marker leaves of it, provided the name carries the marker. -/
theorem base?_eq_some_iff {marker : Marker} {name base : String} :
    marker.base? name = some base ↔ marker.OccursIn name ∧ marker.removedFrom name = base := by
  unfold OccursIn removedFrom
  rw [← cutOut?_isSome_iff, base?]
  split
  · rename_i missing
    simp only [missing, Option.isSome_none, reduceCtorEq, Bool.false_eq_true, false_and]
  · rename_i before after found
    simp only [found, cutAll_of_cutOut? found, Option.isSome_some, Option.some.injEq, true_and]

/-- A marker as a name. -/
def word : Marker → String
  | interactable => "Interactable"
  | listener => "Listener"
  | viewController => "ViewController"

theorem toList_word (marker : Marker) : marker.word.toList = marker.text := by
  cases marker <;> rfl

/-- The capital letter of a marker stands nowhere else in it. -/
theorem unbordered (marker : Marker) : Unbordered marker.text := by
  cases marker <;> exact unbordered_of_notMem (by decide)

/-- A marker behind a name without it is cut out there, whatever follows. -/
theorem cutOut?_append_append {marker : Marker} {before : String}
    (absent : ¬ marker.OccursIn before) (after : String) :
    cutOut? marker.text (before ++ marker.word ++ after).toList =
      some (before.toList, after.toList) := by
  rw [String.toList_append, String.toList_append, toList_word, List.append_assoc]
  exact marker.unbordered.cutOut?_append absent after.toList

theorem cutAll_of_not_infix {marker : Marker} {text : List Char}
    (absent : ¬ marker.text <:+: text) :
    marker.cutAll text = text := by
  rw [cutAll]
  split
  · rfl
  · rename_i found
    exact absurd (cutOut?_isSome_iff.mp (found ▸ rfl)) absent

/-- A marker between two names without it is taken out again. -/
theorem base?_append_append {marker : Marker} {before after : String}
    (absent : ¬ marker.OccursIn before) (absent' : ¬ marker.OccursIn after) :
    marker.base? (before ++ marker.word ++ after) = some (before ++ after) := by
  simp only [base?, cutOut?_append_append absent after, cutAll_of_not_infix absent',
    String.ofList_append, String.ofList_toList]

theorem not_occursIn_empty (marker : Marker) : ¬ marker.OccursIn "" :=
  fun found => marker.text_ne_nil (List.infix_nil.mp found)

/-- A marker at the end of a name without it is taken off again. -/
theorem base?_append {marker : Marker} {name : String} (absent : ¬ marker.OccursIn name) :
    marker.base? (name ++ marker.word) = some name := by
  have base := base?_append_append absent marker.not_occursIn_empty
  rwa [String.append_empty, String.append_empty] at base

/-- The marker of views does not arise where the marker of parents is put behind a name. -/
theorem not_viewController_occursIn_append {name : String}
    (absent : ¬ viewController.OccursIn name) :
    ¬ viewController.OccursIn (name ++ interactable.word) := by
  intro found
  have joint : (name ++ interactable.word).toList = name.toList ++ 'I' :: "nteractable".toList :=
    String.toList_append
  rw [OccursIn, joint] at found
  rcases infix_of_infix_append_cons (by decide) found with left | right
  · exact absent left
  · exact absurd right (by decide)

end Marker

end RibMap
