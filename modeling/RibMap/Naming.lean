import RibMap.Text.Cut

/-! # The naming convention

`XInteractable` inheriting `YListener` makes `Y` a child of `X`, and `XViewController` gives `X` a
view. A name carries a marker if the marker occurs anywhere in it; the base of the name is what is
left when every occurrence is cut out, from left to right.
-/

namespace RibMap

/-- A marker of the naming convention. -/
inductive Marker where
  | interactable
  | listener
  | viewController
  deriving DecidableEq, Repr

def Marker.text : Marker → List Char
  | interactable => "Interactable".toList
  | listener => "Listener".toList
  | viewController => "ViewController".toList

theorem Marker.text_ne_nil (marker : Marker) : marker.text ≠ [] := by
  cases marker <;> decide

/-- Cut out every occurrence of a marker. -/
def Marker.cutAll (marker : Marker) (text : List Char) : List Char :=
  match _cut : cutOut? marker.text text with
  | none => text
  | some (before, after) => before ++ marker.cutAll after
termination_by text.length
decreasing_by
  have := eq_of_cutOut?_eq_some _cut
  have := List.length_pos_iff.mpr marker.text_ne_nil
  grind

/-- The base of a name that carries a marker. -/
def Marker.base? (marker : Marker) (name : String) : Option String :=
  match cutOut? marker.text name.toList with
  | none => none
  | some (before, after) => some (String.ofList (before ++ marker.cutAll after))

end RibMap
