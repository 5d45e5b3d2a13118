import RibMap.Proofs.CommandLine.Lines
import RibMap.Reference.CommandLine.Arguments

/-! # Lines taken apart

Each way to write an item is read as that item, whatever stands behind it. So the items of a line
are found again, and the line is read as what it asks for.
-/

namespace RibMap.CommandLine

namespace Argument

variable {command : Command} {flag : Flag} {letter : Char} {text : String} {rest : List Char}

theorem of?_plain (plain : isPlain text = true) : of? command text = some (.item (.path text)) := by
  rw [isPlain] at plain
  rw [of?]
  split at plain
  · cases plain
  · rename_i other
    split
    · rename_i dashes
      exact absurd dashes (other _ _)
    · rename_i dashes
      exact absurd dashes (other _ _)
    · rename_i dash
      exact absurd dash (other _ _)
    · rfl

theorem of?_name (spelled : text.toList = '-' :: '-' :: rest) (named : rest ≠ []) :
    of? command text = ofName? command rest := by
  rw [of?, spelled]
  cases rest with
  | nil => exact absurd rfl named
  | cons c rest => rfl

theorem of?_letter (spelled : text.toList = '-' :: letter :: rest) (differ : letter ≠ '-') :
    of? command text = ofLetter? command letter rest := by
  rw [of?, spelled]
  split
  · rename_i same
    cases same
    contradiction
  · rename_i same
    cases same
    contradiction
  · rename_i same
    cases same
    rfl
  · rename_i other
    exact absurd rfl (other _ _)

theorem ofName?_name (known : flag ∈ command.flags) :
    ofName? command flag.name.toList =
      some (if flag.takesValue then .waiting flag .apart else .item (.bare flag)) := by
  cases command <;> cases flag <;> first | rfl | contradiction

theorem ofName?_equals (known : flag ∈ command.flags) (takes : flag.takesValue = true)
    (value : List Char) :
    ofName? command (flag.name.toList ++ '=' :: value) =
      some (.item (.value flag .equals (String.ofList value))) := by
  have found : command.flags.find? (fun other => other.name.toList = flag.name.toList) =
      some flag := by
    cases command <;> cases flag <;> first | rfl | contradiction
  have noEquals : ∀ c ∈ flag.name.toList, decide (c ≠ '=') = true := by
    cases flag <;> simp [Flag.name]
  have name : (flag.name.toList ++ '=' :: value).takeWhile (· ≠ '=') = flag.name.toList := by
    rw [List.takeWhile_append_of_pos noEquals, List.takeWhile_cons_of_neg (by decide),
      List.append_nil]
  have noHelp : flag.name.toList ++ '=' :: value ≠ "help".toList := by
    intro same
    have equals : '=' ∈ "help".toList := same ▸ by simp
    exact absurd equals (by decide)
  simp only [ofName?, name, noHelp, found, List.drop_left, takes, ↓reduceIte]

theorem ofLetter?_eq (known : flag ∈ command.flags) (lettered : flag.letter? = some letter)
    (rest : List Char) : ofLetter? command letter rest = some (ofAttached flag letter rest) := by
  cases command <;> cases flag <;> cases lettered <;> first | rfl | contradiction

theorem letter_ne_dash (lettered : flag.letter? = some letter) : letter ≠ '-' := by
  cases flag <;> cases lettered <;> decide

theorem ofAttached_glued (glued : rest.head?.any (· ≠ '=') = true) :
    ofAttached flag letter rest =
      .item (.value flag (.letterGlued letter) (String.ofList rest)) := by
  unfold ofAttached
  split
  · cases glued
  · cases glued
  · rfl

end Argument

section

variable {command : Command} {text value : String} {item : Item} {flag : Flag} {form : Form}

theorem itemsOf_cons_item (read : Argument.of? command text = some (.item item))
    (rest : List String) :
    itemsOf command (text :: rest) = (itemsOf command rest).map (item :: ·) id := by
  rw [itemsOf, read]

theorem itemsOf_cons_waiting (read : Argument.of? command text = some (.waiting flag form))
    (plain : isPlain value = true) (rest : List String) :
    itemsOf command (text :: value :: rest) =
      (itemsOf command rest).map (.value flag form value :: ·) id := by
  rw [itemsOf, read]
  exact if_pos plain

/-- Whatever stands behind a flag with a value, the flag is read first. -/
theorem itemsOf_value_append (known : flag ∈ command.flags) (takes : flag.takesValue = true)
    (fits : form.fits flag value = true) (rest : List String) :
    itemsOf command ((Item.value flag form value).arguments ++ rest) =
      (itemsOf command rest).map (.value flag form value :: ·) id := by
  have named := Argument.ofName?_name known
  rw [takes] at named
  have lettered {letter : Char} (its : flag.letter? = some letter) (text : String)
      (rest : List Char) (spelled : text.toList = '-' :: letter :: rest) :
      Argument.of? command text = some (Argument.ofAttached flag letter rest) :=
    (Argument.of?_letter spelled (Argument.letter_ne_dash its)).trans
      (Argument.ofLetter?_eq known its rest)
  cases form with
  | apart =>
    have spelled : ("--" ++ flag.name).toList = '-' :: '-' :: flag.name.toList := by simp
    have letters : flag.name.toList ≠ [] := by cases flag <;> decide
    exact itemsOf_cons_waiting ((Argument.of?_name spelled letters).trans named) fits rest
  | equals =>
    have spelled : ("--" ++ flag.name ++ "=" ++ value).toList =
        '-' :: '-' :: (flag.name.toList ++ '=' :: value.toList) := by simp
    have read := Argument.ofName?_equals known takes value.toList
    rw [String.ofList_toList] at read
    exact itemsOf_cons_item ((Argument.of?_name spelled (by simp)).trans read) rest
  | letterApart letter =>
    obtain ⟨its, plain⟩ := Bool.and_eq_true_iff.mp fits
    exact itemsOf_cons_waiting (lettered (of_decide_eq_true its) _ [] (by simp)) plain rest
  | letterEquals letter =>
    have read := lettered (of_decide_eq_true fits) ("-" ++ letter.toString ++ "=" ++ value)
      ('=' :: value.toList) (by simp)
    rw [Argument.ofAttached, String.ofList_toList] at read
    exact itemsOf_cons_item read rest
  | letterGlued letter =>
    obtain ⟨its, glued⟩ := Bool.and_eq_true_iff.mp fits
    have read := lettered (of_decide_eq_true its) ("-" ++ letter.toString ++ value) value.toList
      (by simp)
    rw [Argument.ofAttached_glued glued, String.ofList_toList] at read
    exact itemsOf_cons_item read rest

/-- Whatever stands behind an item, the item is read first. -/
theorem itemsOf_arguments_append (fits : item.fits command = true) (rest : List String) :
    itemsOf command (item.arguments ++ rest) = (itemsOf command rest).map (item :: ·) id := by
  cases item with
  | path text => exact itemsOf_cons_item (Argument.of?_plain fits) rest
  | bare flag =>
    obtain ⟨known, bare⟩ := Bool.and_eq_true_iff.mp fits
    have read := Argument.ofName?_name (of_decide_eq_true known)
    rw [(Bool.not_eq_true' _).mp bare] at read
    have spelled : ("--" ++ flag.name).toList = '-' :: '-' :: flag.name.toList := by simp
    have letters : flag.name.toList ≠ [] := by cases flag <;> decide
    exact itemsOf_cons_item ((Argument.of?_name spelled letters).trans read) rest
  | value flag form text =>
    obtain ⟨known, fits⟩ := Bool.and_eq_true_iff.mp fits
    obtain ⟨known, takes⟩ := Bool.and_eq_true_iff.mp known
    exact itemsOf_value_append (of_decide_eq_true known) takes fits rest

/-- The items of a line are found again. -/
theorem itemsOf_line {line : Line} (fits : line.fits command = true) :
    itemsOf command line.arguments = (line.items, .all line.behind) := by
  obtain ⟨items, behind⟩ := line
  have separator : Argument.of? command "--" = some .separator := by cases command <;> rfl
  have items_append (items : List Item) (fits : items.all (·.fits command) = true)
      (rest : List String) :
      itemsOf command (items.flatMap Item.arguments ++ rest) =
        (itemsOf command rest).map (items ++ ·) id := by
    induction items with
    | nil => rfl
    | cons item items ih =>
      obtain ⟨here, others⟩ := Bool.and_eq_true_iff.mp fits
      rw [List.flatMap_cons, List.append_assoc, itemsOf_arguments_append here, ih others]
      rfl
  rw [Line.arguments, items_append items fits]
  cases behind with
  | none => simp [itemsOf]
  | some paths => simp [itemsOf, separator]

end

end RibMap.CommandLine

namespace RibMap.Reference

open CommandLine

/-- The parser reads lines as they are written. -/
theorem readsLines : ReadsLines := by
  have read (command : Command) (line : Line) (fits : line.fits command = true) :
      ArgumentParser.read (command.line line) =
        ((line.request? command).map .request).getD (.refused usage) := by
    have named : Command.ofName? command.name = some command := by cases command <;> rfl
    change (readCommandLine? (command.name :: line.arguments)).getD _ = _
    rw [readCommandLine?, named]
    simp only [readArguments, itemsOf_line fits]
  refine ⟨fun command line request fits asked => ?_, fun command line fits none => ⟨usage, ?_⟩⟩
  · rw [read command line fits, asked]
    rfl
  · rw [read command line fits, none]
    rfl

end RibMap.Reference
