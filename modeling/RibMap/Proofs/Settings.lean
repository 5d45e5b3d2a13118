import Mathlib.Data.List.DropRight
import Mathlib.Data.List.Forall2
import RibMap.Proofs.Text.Numeral
import RibMap.Settings

/-! # Settings from variables

The two variables are read apart from each other. The one for the depth is a numeral that fits into
a word, or it is reported and counts for nothing. The other one is a list: its names are the pieces
between commas, without the blanks at their ends and without those of which nothing is left. Putting
names together again with commas loses none of them.
-/

namespace RibMap

theorem splitAt_eq_splitOn (separator : Char) (text : List Char) :
    splitAt separator text = text.splitOn separator := by
  induction text with
  | nil => rfl
  | cons c rest ih =>
    rw [splitAt, List.splitOn_cons_eq_if_modifyHead, ih]
    split
    · rename_i same
      simp [same]
    · rename_i differ
      obtain ⟨piece, pieces, split⟩ :=
        List.exists_cons_of_ne_nil (List.splitOn_ne_nil separator rest)
      simp [differ, split]

theorem notMem_of_mem_splitAt {separator : Char} {text piece : List Char}
    (mem : piece ∈ splitAt separator text) : separator ∉ piece := by
  induction text generalizing piece with
  | nil => simp [List.mem_singleton.mp mem]
  | cons c rest ih =>
    rw [splitAt] at mem
    split at mem
    · rcases List.mem_cons.mp mem with rfl | later
      · exact List.not_mem_nil
      · exact ih later
    · rename_i differ
      split at mem
      · rw [List.mem_singleton.mp mem, List.mem_singleton]
        exact Ne.symm differ
      · rename_i first pieces split
        rw [split] at ih
        rcases List.mem_cons.mp mem with rfl | later
        · rw [List.mem_cons, not_or]
          exact ⟨Ne.symm differ, ih List.mem_cons_self⟩
        · exact ih (List.mem_cons_of_mem first later)

namespace Settings

theorem maxDepth_ofVariables (depth? skipDirs? : Option String) :
    (ofVariables depth? skipDirs?).1.maxDepth = (depthOf depth?).1 := by
  cases skipDirs? <;> rfl

theorem skipDirs_ofVariables (depth? skipDirs? : Option String) :
    (ofVariables depth? skipDirs?).1.skipDirs =
      (skipDirs?.map namesOf).getD ({} : Settings).skipDirs := by
  cases skipDirs? <;> rfl

theorem events_ofVariables (depth? skipDirs? : Option String) :
    (ofVariables depth? skipDirs?).2 = (depthOf depth?).2 := by
  cases skipDirs? <;> rfl

/-- A piece has no blanks at its ends. -/
def Unpadded (piece : List Char) : Prop :=
  piece.head?.any isBlank = false ∧ piece.getLast?.any isBlank = false

instance (piece : List Char) : Decidable (Unpadded piece) :=
  inferInstanceAs (Decidable (_ ∧ _))

/-- A text is another one with blanks put around it, and that one has none at its ends. -/
structure TrimsTo (text core : List Char) : Prop where
  unpadded : Unpadded core
  padded : ∃ before after, text = before ++ core ++ after ∧
    (∀ c ∈ before, isBlank c = true) ∧ ∀ c ∈ after, isBlank c = true

theorem dropWhile_isBlank {text : List Char} (unpadded : text.head?.any isBlank = false) :
    text.dropWhile isBlank = text := by
  cases text with
  | nil => rfl
  | cons c rest => exact List.dropWhile_cons_of_neg (Bool.eq_false_iff.mp unpadded)

theorem Unpadded.trim_eq {piece : List Char} (unpadded : Unpadded piece) : trim piece = piece := by
  have last : piece.reverse.head?.any isBlank = false := by
    rw [List.head?_reverse]
    exact unpadded.2
  rw [trim, dropWhile_isBlank unpadded.1, dropWhile_isBlank last, List.reverse_reverse]

theorem head?_dropWhile_isBlank (text : List Char) :
    (text.dropWhile isBlank).head?.any isBlank = false := by
  have first := List.head?_dropWhile_not isBlank text
  cases found : (text.dropWhile isBlank).head? with
  | none => rfl
  | some c =>
    rw [found] at first
    exact first

theorem unpadded_trim (text : List Char) : Unpadded (trim text) := by
  constructor
  · have start : trim text <+: text.dropWhile isBlank := List.rdropWhile_prefix isBlank _
    cases trimmed : trim text with
    | nil => rfl
    | cons c rest =>
      obtain ⟨more, same⟩ := trimmed ▸ start
      have first := head?_dropWhile_isBlank text
      rw [← same] at first
      exact first
  · rw [trim, List.getLast?_reverse]
    exact head?_dropWhile_isBlank _

theorem trimsTo_trim (text : List Char) : TrimsTo text (trim text) where
  unpadded := unpadded_trim text
  padded := by
    refine ⟨text.takeWhile isBlank, (text.dropWhile isBlank).rtakeWhile isBlank, ?_,
      fun _ => List.mem_takeWhile_imp, fun _ => List.mem_rtakeWhile_imp⟩
    have tail : trim text ++ (text.dropWhile isBlank).rtakeWhile isBlank = text.dropWhile isBlank :=
      List.rdropWhile_append_rtakeWhile
    rw [List.append_assoc, tail, List.takeWhile_append_dropWhile]

/-- Blanks in front are dropped up to a text that starts with none. -/
theorem dropWhile_append_isBlank {before core : List Char} (blank : ∀ c ∈ before, isBlank c = true)
    (unpadded : core.head?.any isBlank = false) : (before ++ core).dropWhile isBlank = core := by
  rw [List.dropWhile_append_of_pos blank, dropWhile_isBlank unpadded]

/-- Trimming gives the only text without blanks at its ends around which blanks have been put. -/
theorem TrimsTo.trim_eq {text core : List Char} (trims : TrimsTo text core) : trim text = core := by
  obtain ⟨unpadded, before, after, rfl, blank, blank'⟩ := trims
  have blank'' : ∀ c ∈ after.reverse, isBlank c = true := by simpa using blank'
  by_cases empty : core = []
  · subst empty
    have all : ∀ c ∈ before ++ [] ++ after, isBlank c = true := by
      rw [List.append_nil]
      exact List.forall_mem_append.mpr ⟨blank, blank'⟩
    rw [trim, List.dropWhile_eq_nil_iff.mpr all]
    rfl
  · have first : (core ++ after).head?.any isBlank = false := by
      rw [List.head?_append_of_ne_nil core empty]
      exact unpadded.1
    have last : core.reverse.head?.any isBlank = false := by
      rw [List.head?_reverse]
      exact unpadded.2
    rw [trim, List.append_assoc, dropWhile_append_isBlank blank first, List.reverse_append,
      dropWhile_append_isBlank blank'' last, List.reverse_reverse]

/-- A text lists names: it falls into pieces at its commas, and the names are what is left of the
pieces without the blanks at their ends, where anything is left. -/
def Lists (list : String) (names : List String) : Prop :=
  ∃ pieces cores : List String,
    (pieces ≠ [] ∧ (∀ piece ∈ pieces, ',' ∉ piece.toList) ∧ ",".intercalate pieces = list) ∧
      List.Forall₂ (fun piece core => TrimsTo piece.toList core.toList) pieces cores ∧
        names = cores.filter (· ≠ "")

theorem splitAt_intercalate {pieces : List String} (proper : pieces ≠ [])
    (whole : ∀ piece ∈ pieces, ',' ∉ piece.toList) :
    splitAt ',' (",".intercalate pieces).toList = pieces.map String.toList := by
  rw [splitAt_eq_splitOn, String.toList_intercalate]
  apply List.splitOn_intercalate
  · simpa using whole
  · simpa using proper

theorem Lists.namesOf_eq {list : String} {names : List String} (lists : Lists list names) :
    namesOf list = names := by
  obtain ⟨pieces, cores, ⟨proper, whole, rfl⟩, trims, rfl⟩ := lists
  have trimmed : (pieces.map String.toList).map trim = cores.map String.toList := by
    rw [List.map_map, ← List.forall₂_eq_eq_eq, List.forall₂_map_left_iff,
      List.forall₂_map_right_iff]
    exact trims.imp fun _ _ => TrimsTo.trim_eq
  have nothing : ((fun name : List Char => !name.isEmpty) ∘ String.toList) =
      fun name => decide (name ≠ "") := by
    funext name
    rw [Function.comp_apply, Bool.eq_iff_iff]
    simp
  rw [namesOf, splitAt_intercalate proper whole, trimmed, List.filter_map, List.map_map, nothing]
  exact List.map_id'' (fun _ => String.ofList_toList) _

theorem lists_namesOf (list : String) : Lists list (namesOf list) := by
  let pieces := (splitAt ',' list.toList).map String.ofList
  let cores := pieces.map fun piece => String.ofList (trim piece.toList)
  have proper : pieces ≠ [] := by simpa [pieces] using splitAt_ne_nil ',' list.toList
  have whole : ∀ piece ∈ pieces, ',' ∉ piece.toList := by
    simpa [pieces] using fun piece => notMem_of_mem_splitAt
  have joined : ",".intercalate pieces = list := by
    rw [← String.toList_inj, String.toList_intercalate]
    simp [pieces, Function.comp_def, splitAt_eq_splitOn]
  have trims : List.Forall₂ (fun piece core => TrimsTo piece.toList core.toList) pieces cores := by
    rw [List.forall₂_map_right_iff, List.forall₂_same]
    intro piece _
    rw [String.toList_ofList]
    exact trimsTo_trim _
  have lists : Lists list (cores.filter (· ≠ "")) :=
    ⟨pieces, cores, ⟨proper, whole, joined⟩, trims, rfl⟩
  rwa [← lists.namesOf_eq] at lists

/-- A name that can stand in a list as it is. -/
structure Listable (name : String) : Prop where
  proper : name ≠ ""
  whole : ',' ∉ name.toList
  unpadded : Unpadded name.toList

theorem listable_of_mem_namesOf {list name : String} (mem : name ∈ namesOf list) :
    Listable name := by
  simp only [namesOf, List.mem_map, List.mem_filter] at mem
  obtain ⟨_, ⟨⟨piece, mem, rfl⟩, left⟩, rfl⟩ := mem
  refine ⟨?_, ?_, ?_⟩
  · simpa [← String.toList_inj] using left
  · rw [String.toList_ofList]
    intro comma
    obtain ⟨-, before, after, split, -⟩ := trimsTo_trim piece
    refine notMem_of_mem_splitAt mem ?_
    rw [split]
    exact List.mem_append_left after (List.mem_append_right before comma)
  · rw [String.toList_ofList]
    exact unpadded_trim piece

/-- Names that can stand in a list are read from the list that is made of them. -/
theorem namesOf_intercalate {names : List String} (listable : ∀ name ∈ names, Listable name) :
    namesOf (",".intercalate names) = names := by
  by_cases empty : names = []
  · subst empty
    rfl
  · refine Lists.namesOf_eq ⟨names, names, ⟨empty, fun name mem => (listable name mem).whole, rfl⟩,
      ?_, ?_⟩
    · rw [List.forall₂_same]
      exact fun name mem => ⟨(listable name mem).unpadded, [], [], by simp⟩
    · symm
      rw [List.filter_eq_self]
      exact fun name mem => decide_eq_true (listable name mem).proper

theorem depthOf_of_isNumeral {text : String} {depth : Nat} (numeral : IsNumeral text.toList depth)
    (fits : depth < 2 ^ 64) : depthOf (some text) = (depthLimit depth, []) := by
  have read : wordOf? text.toList = some depth := wordOf?_eq_some_iff.mpr ⟨numeral, fits⟩
  simp only [depthOf, read]

theorem depthOf_of_not_fits {text : String}
    (large : ∀ depth, IsNumeral text.toList depth → 2 ^ 64 ≤ depth) :
    depthOf (some text) = (none, [.ignoredDepth text]) := by
  have unread : wordOf? text.toList = none := by
    rw [Option.eq_none_iff_forall_ne_some]
    intro depth read
    obtain ⟨numeral, fits⟩ := wordOf?_eq_some_iff.mp read
    exact Nat.not_lt_of_le (large depth numeral) fits
  simp only [depthOf, unread]

/-- What the variable for the depth can hold. -/
theorem depth_cases (depth? : Option String) :
    depth? = none ∨
      (∃ text depth, depth? = some text ∧ IsNumeral text.toList depth ∧ depth < 2 ^ 64) ∨
      ∃ text, depth? = some text ∧ ∀ depth, IsNumeral text.toList depth → 2 ^ 64 ≤ depth := by
  cases depth? with
  | none => exact .inl rfl
  | some text =>
    by_cases fits : ∃ depth, IsNumeral text.toList depth ∧ depth < 2 ^ 64
    · obtain ⟨depth, numeral, fits⟩ := fits
      exact .inr (.inl ⟨text, depth, rfl, numeral, fits⟩)
    · refine .inr (.inr ⟨text, rfl, fun depth numeral => ?_⟩)
      exact Nat.le_of_not_lt fun less => fits ⟨depth, numeral, less⟩

theorem depthLimit_eq_some_iff {number depth : Nat} :
    depthLimit number = some depth ↔ number = depth ∧ 1 ≤ depth := by
  unfold depthLimit
  split
  · rename_i zero
    simp only [reduceCtorEq, false_iff]
    omega
  · rename_i positive
    simp only [Option.some.injEq]
    omega

theorem depthLimit_eq_none_iff {number : Nat} : depthLimit number = none ↔ number = 0 := by
  simp [depthLimit]

theorem entry_ignoredDepth (text : String) :
    (Event.ignoredDepth text).entry = "WARN Ignoring invalid RIBSTREE_MAX_DEPTH: " ++ text := by
  have worded : (Event.ignoredDepth text).entry =
      "WARN" ++ " " ++ ("Ignoring invalid RIBSTREE_MAX_DEPTH: " ++ text) := rfl
  have start : "WARN Ignoring invalid RIBSTREE_MAX_DEPTH: " =
      "WARN" ++ " " ++ "Ignoring invalid RIBSTREE_MAX_DEPTH: " := by decide +kernel
  rw [worded, start]
  exact String.append_assoc.symm

/-- A depth limit comes from a numeral that is not zero and fits into a word. -/
theorem depthOf_eq_some_iff {depth? : Option String} {depth : Nat} :
    (depthOf depth?).1 = some depth ∧ (depthOf depth?).2 = [] ↔
      (1 ≤ depth ∧ depth ≤ 2 ^ 64 - 1) ∧
        ∃ text, depth? = some text ∧ IsNumeral text.toList depth := by
  constructor
  · rintro ⟨limit, silent⟩
    rcases depth_cases depth? with rfl | ⟨text, number, rfl, numeral, fits⟩ | ⟨text, rfl, large⟩
    · contradiction
    · rw [depthOf_of_isNumeral numeral fits, depthLimit_eq_some_iff] at limit
      obtain ⟨rfl, positive⟩ := limit
      exact ⟨⟨positive, by omega⟩, text, rfl, numeral⟩
    · rw [depthOf_of_not_fits large] at silent
      contradiction
  · rintro ⟨⟨positive, fits⟩, text, rfl, numeral⟩
    rw [depthOf_of_isNumeral numeral (by omega)]
    exact ⟨depthLimit_eq_some_iff.mpr ⟨rfl, positive⟩, rfl⟩

/-- Without a report there is no depth limit exactly if there is no variable, or it holds a zero. -/
theorem depthOf_eq_none_iff {depth? : Option String} :
    (depthOf depth?).1 = none ∧ (depthOf depth?).2 = [] ↔
      depth? = none ∨ ∃ text, depth? = some text ∧ IsNumeral text.toList 0 := by
  constructor
  · rintro ⟨unlimited, silent⟩
    rcases depth_cases depth? with rfl | ⟨text, number, rfl, numeral, fits⟩ | ⟨text, rfl, large⟩
    · exact .inl rfl
    · rw [depthOf_of_isNumeral numeral fits, depthLimit_eq_none_iff] at unlimited
      exact .inr ⟨text, rfl, unlimited ▸ numeral⟩
    · rw [depthOf_of_not_fits large] at silent
      contradiction
  · rintro (rfl | ⟨text, rfl, numeral⟩)
    · exact ⟨rfl, rfl⟩
    · rw [depthOf_of_isNumeral numeral (by decide)]
      exact ⟨rfl, rfl⟩

/-- The variable is reported exactly if it holds no numeral that fits into a word. -/
theorem depthOf_reports_iff {depth? : Option String} {text : String} :
    (depthOf depth?).1 = none ∧ (depthOf depth?).2.map Event.entry =
        ["WARN Ignoring invalid RIBSTREE_MAX_DEPTH: " ++ text] ↔
      depth? = some text ∧ ∀ depth, IsNumeral text.toList depth → 2 ^ 64 ≤ depth := by
  constructor
  · rintro ⟨-, reported⟩
    rcases depth_cases depth? with rfl | ⟨other, number, rfl, numeral, fits⟩ | ⟨other, rfl, large⟩
    · contradiction
    · rw [depthOf_of_isNumeral numeral fits] at reported
      contradiction
    · rw [depthOf_of_not_fits large, List.map_singleton, entry_ignoredDepth,
        List.singleton_inj, String.append_right_inj] at reported
      subst reported
      exact ⟨rfl, large⟩
  · rintro ⟨rfl, large⟩
    rw [depthOf_of_not_fits large, List.map_singleton, entry_ignoredDepth]
    exact ⟨rfl, rfl⟩

/-- Whatever the variables hold, the depth limit is the value of a numeral that is not zero and fits
into a word; there is none without a report if the variable is missing or holds a zero, and none
with one report that quotes the variable in all other cases. The names to leave out are the pieces
of the list between its commas, in order, without the blanks at their ends and without the empty
ones. They are read again from the list that is made of them, and so are any names that can stand in
a list. -/
theorem settings_of_variables (depth? list? : Option String) :
    let read := ofVariables depth? list?
    (∀ depth, read.1.maxDepth = some depth ∧ read.2 = [] ↔
      (1 ≤ depth ∧ depth ≤ 2 ^ 64 - 1) ∧
        ∃ text, depth? = some text ∧ IsNumeral text.toList depth) ∧
    (read.1.maxDepth = none ∧ read.2 = [] ↔
      depth? = none ∨ ∃ text, depth? = some text ∧ IsNumeral text.toList 0) ∧
    (∀ text, read.1.maxDepth = none ∧
        read.2.map Event.entry = ["WARN Ignoring invalid RIBSTREE_MAX_DEPTH: " ++ text] ↔
      depth? = some text ∧ ∀ depth, IsNumeral text.toList depth → 2 ^ 64 ≤ depth) ∧
    (∀ list, list? = some list →
      (∀ names, read.1.skipDirs = names ↔ Lists list names) ∧
        (ofVariables depth? (some (",".intercalate read.1.skipDirs))).1.skipDirs =
          read.1.skipDirs) ∧
    ∀ names, (∀ name ∈ names, Listable name) →
      (ofVariables depth? (some (",".intercalate names))).1.skipDirs = names := by
  intro read
  have maxDepth : read.1.maxDepth = (depthOf depth?).1 := maxDepth_ofVariables depth? list?
  have events : read.2 = (depthOf depth?).2 := events_ofVariables depth? list?
  have skipDirs : read.1.skipDirs = (list?.map namesOf).getD ({} : Settings).skipDirs :=
    skipDirs_ofVariables depth? list?
  rw [maxDepth, events]
  refine ⟨fun depth => depthOf_eq_some_iff, depthOf_eq_none_iff, fun text => depthOf_reports_iff,
    ?_, ?_⟩
  · rintro list rfl
    have skipDirs : read.1.skipDirs = namesOf list := skipDirs
    rw [skipDirs, skipDirs_ofVariables, Option.map_some, Option.getD_some]
    refine ⟨fun names => ⟨?_, Lists.namesOf_eq⟩, ?_⟩
    · rintro rfl
      exact lists_namesOf list
    · exact namesOf_intercalate fun name => listable_of_mem_namesOf
  · intro names listable
    rw [skipDirs_ofVariables, Option.map_some, Option.getD_some]
    exact namesOf_intercalate listable

/-- A depth with a sign and leading zeros, a list with blanks and empty pieces, and a name with a
blank inside it. -/
theorem settings_of_variables_padded :
    let read := ofVariables (some "+007") (some " My Pods ,, .build,")
    (read.1.maxDepth = some 7 ∧ read.2 = []) ∧ Lists " My Pods ,, .build," read.1.skipDirs ∧
      (∀ name ∈ ["My Pods", ".build"], Listable name) ∧
        (ofVariables (some "+007") (some "My Pods,.build")).1.skipDirs = ["My Pods", ".build"] := by
  intro read
  obtain ⟨limits, -, -, lists, names⟩ :=
    settings_of_variables (some "+007") (some " My Pods ,, .build,")
  have spelled : "+007".toList = '+' :: ['0', '0', '7'] := by decide
  have value : decimalValue ['0', '0', '7'] = 7 := by decide
  have numeral : IsNumeral "+007".toList 7 := by
    rw [spelled, ← value]
    exact .signed (List.cons_ne_nil _ _) (by simp)
  have listable : ∀ name ∈ ["My Pods", ".build"], Listable name := by
    simp only [List.forall_mem_cons]
    exact ⟨⟨by decide, by decide, by decide⟩, ⟨by decide, by decide, by decide⟩,
      fun _ mem => absurd mem List.not_mem_nil⟩
  have joined : "My Pods,.build" = ",".intercalate ["My Pods", ".build"] := by decide +kernel
  refine ⟨(limits 7).mpr ⟨by decide, _, rfl, numeral⟩, ((lists _ rfl).1 _).mp rfl, listable, ?_⟩
  rw [joined]
  exact names _ listable

end Settings

end RibMap
