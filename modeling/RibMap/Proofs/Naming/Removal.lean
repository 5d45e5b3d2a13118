import RibMap.Proofs.Naming

/-! # Names in pieces

Every name falls in exactly one way into pieces without a marker that are joined by the marker,
because occurrences of a marker cannot overlap. What is left of the name is the pieces one after the
other, whichever end the scan for the marker starts from. The marker may arise anew where two pieces
come together, and is not removed there.
-/

namespace RibMap

namespace Marker

/-- A name falls into pieces: the marker joins them and occurs in none of them. -/
structure Parts (marker : Marker) (name : String) (pieces : List String) : Prop where
  proper : pieces ≠ []
  joined : marker.word.intercalate pieces = name
  plain : ∀ piece ∈ pieces, ¬ marker.OccursIn piece

/-- Cut out every occurrence of a marker, from the last to the first. -/
def cutAllBackward (marker : Marker) (text : List Char) : List Char :=
  match _cut : cutOut? marker.text.reverse text.reverse with
  | none => text
  | some (after, before) => marker.cutAllBackward before.reverse ++ after.reverse
termination_by text.length
decreasing_by
  have split := congrArg List.length (eq_of_cutOut?_eq_some _cut)
  have := List.length_pos_iff.mpr marker.text_ne_nil
  simp only [List.length_reverse, List.length_append] at split ⊢
  omega

/-- What a scan from the end leaves of a name. -/
def removedBackward (marker : Marker) (name : String) : String :=
  String.ofList (marker.cutAllBackward name.toList)

variable {marker : Marker} {name piece : String} {pieces : List String}

theorem intercalate_concat (proper : pieces ≠ []) (piece : String) :
    marker.word.intercalate (pieces ++ [piece]) =
      marker.word.intercalate pieces ++ marker.word ++ piece := by
  rw [String.intercalate_append_of_ne_nil proper (List.cons_ne_nil piece []),
    String.intercalate_singleton]

theorem occursIn_append_append (marker : Marker) (before after : String) :
    marker.OccursIn (before ++ marker.word ++ after) := by
  rw [OccursIn, String.toList_append, String.toList_append, toList_word]
  exact List.infix_append before.toList marker.text after.toList

theorem removedFrom_of_not_occursIn (absent : ¬ marker.OccursIn name) :
    marker.removedFrom name = name := by
  rw [removedFrom, cutAll_of_not_infix absent, String.ofList_toList]

theorem removedFrom_append_append {before : String} (absent : ¬ marker.OccursIn before)
    (after : String) :
    marker.removedFrom (before ++ marker.word ++ after) = before ++ marker.removedFrom after := by
  rw [removedFrom, cutAll_of_cutOut? (cutOut?_append_append absent after), String.ofList_append,
    String.ofList_toList, removedFrom]

theorem removedBackward_of_not_occursIn (absent : ¬ marker.OccursIn name) :
    marker.removedBackward name = name := by
  rw [removedBackward, Marker.cutAllBackward]
  split
  · exact String.ofList_toList
  · rename_i found
    have reversed : marker.text.reverse <:+: name.toList.reverse :=
      cutOut?_isSome_iff.mp (found ▸ rfl)
    exact absurd (List.reverse_infix.mp reversed) absent

theorem removedBackward_append_append {after : String} (before : String)
    (absent : ¬ marker.OccursIn after) :
    marker.removedBackward (before ++ marker.word ++ after) =
      marker.removedBackward before ++ after := by
  have reversed : ¬ marker.text.reverse <:+: after.toList.reverse :=
    fun found => absent (List.reverse_infix.mp found)
  have cut : cutOut? marker.text.reverse (before ++ marker.word ++ after).toList.reverse =
      some (after.toList.reverse, before.toList.reverse) := by
    rw [String.toList_append, String.toList_append, toList_word, List.reverse_append,
      List.reverse_append]
    exact marker.unbordered.reverse.cutOut?_append reversed before.toList.reverse
  rw [removedBackward, Marker.cutAllBackward]
  split
  · rename_i missing
    rw [missing] at cut
    contradiction
  · rename_i found
    rw [found] at cut
    cases cut
    rw [List.reverse_reverse, List.reverse_reverse, String.ofList_append, String.ofList_toList,
      removedBackward]

namespace Parts

theorem singleton (absent : ¬ marker.OccursIn name) : marker.Parts name [name] where
  proper := List.cons_ne_nil name []
  joined := String.intercalate_singleton
  plain _ mem := List.mem_singleton.mp mem ▸ absent

theorem cons (absent : ¬ marker.OccursIn piece) (parts : marker.Parts name pieces) :
    marker.Parts (piece ++ marker.word ++ name) (piece :: pieces) where
  proper := List.cons_ne_nil piece pieces
  joined := by rw [String.intercalate_cons_of_ne_nil parts.proper, parts.joined]
  plain := List.forall_mem_cons.mpr ⟨absent, parts.plain⟩

theorem concat (absent : ¬ marker.OccursIn piece) (parts : marker.Parts name pieces) :
    marker.Parts (name ++ marker.word ++ piece) (pieces ++ [piece]) where
  proper := List.append_ne_nil_of_right_ne_nil pieces (List.cons_ne_nil piece [])
  joined := by rw [intercalate_concat parts.proper, parts.joined]
  plain := List.forall_mem_append.mpr ⟨parts.plain, List.forall_mem_singleton.mpr absent⟩

/-- Induction along the pieces: from what the last of them is to what joining one more in front of
the others makes. -/
theorem induction {motive : ∀ name pieces, marker.Parts name pieces → Prop}
    (last : ∀ piece (absent : ¬ marker.OccursIn piece), motive piece [piece] (.singleton absent))
    (join : ∀ piece rest pieces (absent : ¬ marker.OccursIn piece)
      (parts : marker.Parts rest pieces), motive rest pieces parts →
        motive (piece ++ marker.word ++ rest) (piece :: pieces) (.cons absent parts))
    (name : String) (pieces : List String) (parts : marker.Parts name pieces) :
    motive name pieces parts := by
  induction pieces generalizing name with
  | nil => exact absurd rfl parts.proper
  | cons piece pieces ih =>
    obtain ⟨absent, plain⟩ := List.forall_mem_cons.mp parts.plain
    by_cases single : pieces = []
    · subst single
      obtain rfl : piece = name := String.intercalate_singleton.symm.trans parts.joined
      exact last piece absent
    · have rest : marker.Parts (marker.word.intercalate pieces) pieces := ⟨single, rfl, plain⟩
      obtain rfl : piece ++ marker.word ++ marker.word.intercalate pieces = name :=
        (String.intercalate_cons_of_ne_nil single).symm.trans parts.joined
      exact join piece _ pieces absent rest (ih _ rest)

/-- Induction along the pieces from the end of the name. -/
theorem backwardInduction {motive : ∀ name pieces, marker.Parts name pieces → Prop}
    (first : ∀ piece (absent : ¬ marker.OccursIn piece), motive piece [piece] (.singleton absent))
    (join : ∀ piece rest pieces (absent : ¬ marker.OccursIn piece)
      (parts : marker.Parts rest pieces), motive rest pieces parts →
        motive (rest ++ marker.word ++ piece) (pieces ++ [piece]) (.concat absent parts))
    (name : String) (pieces : List String) (parts : marker.Parts name pieces) :
    motive name pieces parts := by
  induction pieces using List.reverseRecOn generalizing name with
  | nil => exact absurd rfl parts.proper
  | append_singleton pieces piece ih =>
    obtain ⟨plain, absent⟩ := List.forall_mem_append.mp parts.plain
    have absent := List.forall_mem_singleton.mp absent
    by_cases single : pieces = []
    · subst single
      obtain rfl : piece = name := String.intercalate_singleton.symm.trans parts.joined
      exact first piece absent
    · have rest : marker.Parts (marker.word.intercalate pieces) pieces := ⟨single, rfl, plain⟩
      obtain rfl : marker.word.intercalate pieces ++ marker.word ++ piece = name :=
        (intercalate_concat single piece).symm.trans parts.joined
      exact join piece _ pieces absent rest (ih _ rest)

theorem occursIn_iff (parts : marker.Parts name pieces) :
    marker.OccursIn name ↔ 1 < pieces.length := by
  induction name, pieces, parts using Parts.induction with
  | last piece absent => simp [absent]
  | join piece rest pieces absent parts =>
    simp [marker.occursIn_append_append, List.length_pos_iff.mpr parts.proper]

/-- There is one piece, the name itself, or the marker and the other pieces follow the first. -/
theorem cases (parts : marker.Parts name pieces) :
    ¬ marker.OccursIn name ∧ pieces = [name] ∨
      ∃ piece rest others, ¬ marker.OccursIn piece ∧ marker.Parts rest others ∧
        name = piece ++ marker.word ++ rest ∧ pieces = piece :: others := by
  induction name, pieces, parts using Parts.induction with
  | last piece absent => exact .inl ⟨absent, rfl⟩
  | join piece rest pieces absent parts =>
    exact .inr ⟨piece, rest, pieces, absent, parts, rfl, rfl⟩

/-- A name cannot fall into pieces in two ways. -/
theorem unique {others : List String} (parts : marker.Parts name pieces)
    (parts' : marker.Parts name others) : others = pieces := by
  induction name, pieces, parts using Parts.induction generalizing others with
  | last piece absent =>
    rcases parts'.cases with ⟨-, same⟩ | ⟨other, rest, others, -, -, rfl, -⟩
    · exact same
    · exact absurd (marker.occursIn_append_append other rest) absent
  | join piece rest pieces absent parts ih =>
    rcases parts'.cases with ⟨absent', -⟩ | ⟨other, rest', others, absent', later, same, rfl⟩
    · exact absurd (marker.occursIn_append_append piece rest) absent'
    · -- Both ways name what stands around the first occurrence.
      have cut := cutOut?_append_append absent rest
      rw [same, cutOut?_append_append absent' rest', Option.some.injEq, Prod.mk.injEq,
        String.toList_inj, String.toList_inj] at cut
      obtain ⟨rfl, rfl⟩ := cut
      rw [ih later]

theorem removedFrom_eq (parts : marker.Parts name pieces) :
    marker.removedFrom name = String.join pieces := by
  induction name, pieces, parts using Parts.induction with
  | last piece absent =>
    rw [removedFrom_of_not_occursIn absent, String.join_cons, String.join_nil, String.append_empty]
  | join piece rest pieces absent parts ih =>
    rw [removedFrom_append_append absent, ih, String.join_cons]

theorem removedBackward_eq (parts : marker.Parts name pieces) :
    marker.removedBackward name = String.join pieces := by
  induction name, pieces, parts using Parts.backwardInduction with
  | first piece absent =>
    rw [removedBackward_of_not_occursIn absent, String.join_cons, String.join_nil,
      String.append_empty]
  | join piece rest pieces absent parts ih =>
    rw [removedBackward_append_append rest absent, ih, String.join_append, String.join_cons,
      String.join_nil, String.append_empty]

/-- The marker begins once between every two pieces and nowhere else. -/
theorem occurrences_eq (parts : marker.Parts name pieces) :
    occurrences marker.text name.toList + 1 = pieces.length := by
  induction name, pieces, parts using Parts.induction with
  | last piece absent =>
    rw [occurrences_eq_zero absent]
    rfl
  | join piece rest pieces absent parts ih =>
    rw [String.toList_append, String.toList_append, toList_word, List.append_assoc,
      marker.unbordered.occurrences_append absent, ih, List.length_cons]

/-- Whatever is measured, if it adds up then the markers make up the difference. -/
theorem measure_eq {measure : String → Nat}
    (adds : ∀ first second, measure (first ++ second) = measure first + measure second)
    (parts : marker.Parts name pieces) :
    measure name + measure marker.word =
      measure (String.join pieces) + pieces.length * measure marker.word := by
  induction name, pieces, parts using Parts.induction with
  | last piece absent =>
    rw [String.join_cons, String.join_nil, String.append_empty, List.length_singleton, Nat.one_mul]
  | join piece rest pieces absent parts ih =>
    rw [String.join_cons, adds, adds, adds, List.length_cons, Nat.add_mul, Nat.one_mul]
    omega

end Parts

/-- The texts that a scan leaves between the occurrences are the pieces of what it scans. -/
theorem exists_parts_ofList (marker : Marker) (text : List Char) :
    ∃ pieces, marker.Parts (String.ofList text) pieces := by
  fun_induction cutAll marker text with
  | case1 text missing =>
    refine ⟨_, .singleton fun found => ?_⟩
    rw [OccursIn, String.toList_ofList, ← cutOut?_isSome_iff, missing] at found
    contradiction
  | case2 text before after found ih =>
    obtain ⟨pieces, parts⟩ := ih
    have absent : ¬ marker.OccursIn (String.ofList before) := by
      rw [OccursIn, String.toList_ofList]
      exact not_infix_of_cutOut?_eq_some marker.text_ne_nil found
    have split :
        String.ofList text = String.ofList before ++ marker.word ++ String.ofList after := by
      rw [eq_of_cutOut?_eq_some found, ← toList_word, String.ofList_append, String.ofList_append,
        String.ofList_toList]
    rw [split]
    exact ⟨_, .cons absent parts⟩

theorem exists_parts (marker : Marker) (name : String) : ∃ pieces, marker.Parts name pieces := by
  obtain ⟨pieces, parts⟩ := marker.exists_parts_ofList name.toList
  rw [String.ofList_toList] at parts
  exact ⟨pieces, parts⟩

/-- A name with a marker has the pieces put together for its base, at least two of them. -/
theorem base?_eq_some_iff_parts {base : String} :
    marker.base? name = some base ↔
      ∃ pieces, marker.Parts name pieces ∧ 1 < pieces.length ∧ String.join pieces = base := by
  rw [base?_eq_some_iff]
  constructor
  · rintro ⟨occurs, rfl⟩
    obtain ⟨pieces, parts⟩ := marker.exists_parts name
    exact ⟨pieces, parts, parts.occursIn_iff.mp occurs, parts.removedFrom_eq.symm⟩
  · rintro ⟨pieces, parts, several, rfl⟩
    exact ⟨parts.occursIn_iff.mpr several, parts.removedFrom_eq⟩

/-- A name consists of nothing but the marker, one or several times over. -/
def Fills (marker : Marker) (name : String) : Prop :=
  ∃ further, name = String.join (List.replicate (further + 1) marker.word)

theorem parts_replicate (marker : Marker) (count : Nat) :
    marker.Parts (String.join (List.replicate count marker.word))
      (List.replicate (count + 1) "") := by
  induction count with
  | zero => exact .singleton marker.not_occursIn_empty
  | succ count ih =>
    have parts := Parts.cons marker.not_occursIn_empty ih
    rwa [String.empty_append, ← String.join_cons, ← List.replicate_succ,
      ← List.replicate_succ] at parts

theorem join_eq_empty_iff : String.join pieces = "" ↔ ∀ piece ∈ pieces, piece = "" := by
  rw [← String.toList_inj, String.toList_join, String.toList_empty, List.flatMap_eq_nil_iff]
  simp only [String.toList_eq_nil_iff]

/-- Nothing is left of a name exactly if the marker is all there is of it. -/
theorem base?_eq_some_empty_iff : marker.base? name = some "" ↔ marker.Fills name := by
  rw [base?_eq_some_iff_parts]
  constructor
  · rintro ⟨pieces, parts, several, nothing⟩
    obtain ⟨further, length⟩ := Nat.exists_eq_add_of_lt several
    obtain rfl : pieces = List.replicate (further + 2) "" :=
      List.eq_replicate_iff.mpr ⟨by omega, join_eq_empty_iff.mp nothing⟩
    exact ⟨further, parts.joined.symm.trans (marker.parts_replicate (further + 1)).joined⟩
  · rintro ⟨further, rfl⟩
    refine ⟨_, marker.parts_replicate (further + 1), by simp, join_eq_empty_iff.mpr ?_⟩
    exact fun piece => List.eq_of_mem_replicate

/-- A name has a base exactly if the marker occurs in it. Then there is one way only to write the
name as pieces without the marker that the marker joins, and as many places where the marker begins
as there are joints. The base is the pieces one after the other, and so it is for a scan from the
end; in characters as in bytes it is shorter than the name by a marker for every joint. A marker
around a name without it, or between two of them, is taken out again, even if it arises where they
meet. -/
theorem removal_unambiguous (marker : Marker) :
    (∀ name, ((∃ base, marker.base? name = some base) ↔ marker.OccursIn name) ∧
      (marker.OccursIn name → ∃ pieces joints, marker.Parts name pieces ∧
        (∀ others, marker.Parts name others → others = pieces) ∧
        pieces.length = joints + 1 ∧ 1 ≤ joints ∧ occurrences marker.text name.toList = joints ∧
        marker.base? name = some (String.join pieces) ∧
        marker.removedBackward name = String.join pieces ∧
        name.length = (String.join pieces).length + joints * marker.word.length ∧
        name.utf8ByteSize =
          (String.join pieces).utf8ByteSize + joints * marker.word.utf8ByteSize)) ∧
    ∀ before after, ¬ marker.OccursIn before → ¬ marker.OccursIn after →
      marker.base? (before ++ marker.word) = some before ∧
        marker.base? (marker.word ++ before) = some before ∧
        marker.base? (before ++ marker.word ++ after) = some (before ++ after) := by
  refine ⟨fun name => ⟨?_, fun occurs => ?_⟩, fun before after absent absent' => ?_⟩
  · simp only [base?_eq_some_iff, exists_and_left, exists_eq', and_true]
  · obtain ⟨pieces, parts⟩ := marker.exists_parts name
    have several := parts.occursIn_iff.mp occurs
    have counted := parts.occurrences_eq
    have length := parts.measure_eq String.length_append
    have bytes := parts.measure_eq fun first second => String.utf8ByteSize_append
    refine ⟨pieces, occurrences marker.text name.toList, parts, fun others => parts.unique,
      counted.symm, by omega, rfl, base?_eq_some_iff_parts.mpr ⟨pieces, parts, several, rfl⟩,
      parts.removedBackward_eq, ?_, ?_⟩
    · rw [← counted, Nat.add_mul, Nat.one_mul] at length
      omega
    · rw [← counted, Nat.add_mul, Nat.one_mul] at bytes
      omega
  · refine ⟨base?_append absent, ?_, base?_append_append absent absent'⟩
    have front := base?_append_append marker.not_occursIn_empty absent
    rwa [String.empty_append, String.empty_append] at front

/-- A marker cut in two around another one: the other one is removed, and what comes together is
not. -/
theorem removal_unambiguous_nested :
    let name := "List" ++ listener.word ++ "ener"
    listener.OccursIn name ∧ listener.base? name = some "Listener" ∧
      listener.OccursIn "Listener" ∧
      ∀ pieces, listener.Parts name pieces → pieces = ["List", "ener"] := by
  intro name
  have plain : ¬ listener.OccursIn "List" ∧ ¬ listener.OccursIn "ener" := by decide
  have occurs : listener.OccursIn name := listener.occursIn_append_append "List" "ener"
  obtain ⟨names, joints⟩ := removal_unambiguous listener
  obtain ⟨-, -, base⟩ := joints "List" "ener" plain.1 plain.2
  obtain ⟨pieces, -, -, only, -⟩ := (names name).2 occurs
  have nested : listener.Parts name ["List", "ener"] := .cons plain.1 (.singleton plain.2)
  refine ⟨occurs, base, by decide, fun others parts => ?_⟩
  rw [only others parts, only _ nested]

end Marker

end RibMap
