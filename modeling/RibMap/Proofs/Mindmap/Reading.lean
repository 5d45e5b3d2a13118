import Mathlib.Data.List.TakeWhile
import RibMap.Proofs.Mindmap.Writing

/-! # Mindmaps that are read back

Names go into the lines of a mindmap as they are. Nevertheless every line tells its node: the stars
in front end at a blank, whatever the name begins with, and the two marks do not end alike, whatever
the name ends with. Only a line feed in a name breaks its line up. Where no name has one, the lines
of the map, and the map itself, can be read back from the document.
-/

namespace RibMap

/-- Take the mark of a view off the end of a text. -/
def View.takeOff? (text : List Char) : Option (List Char × View) :=
  match viewful.mark.toList.isSuffixOf? text with
  | some rest => some (rest, viewful)
  | none => (viewless.mark.toList.isSuffixOf? text).map fun rest => (rest, viewless)

/-- The node that a line shows: the stars in front say its depth, a blank follows, and what is left
is its name and the mark of its view. -/
def Rib.ofLine? (line : String) : Option Rib :=
  let stars := line.toList.takeWhile (· = '*')
  match line.toList.dropWhile (· = '*') with
  | ' ' :: shown =>
    (View.takeOff? shown).map fun (name, view) => ⟨String.ofList name, stars.length, view⟩
  | _ => none

/-- The pieces of a text between its line feeds. -/
def pieces (text : String) : List String :=
  (text.toList.splitOn '\n').map String.ofList

/-- The lines of a text, each of which a line feed ends. -/
def linesOf (text : String) : List String :=
  (pieces text).dropLast

namespace View

/-- A text that ends in the mark of one view does not end in the mark of the other. -/
theorem append_mark_ne (rest rest' : List Char) :
    rest ++ viewful.mark.toList ≠ rest' ++ viewless.mark.toList := by
  intro same
  have short :
      ("ul>>".toList <:+ viewful.mark.toList) ∧ "ss>>".toList <:+ viewless.mark.toList := by
    decide +kernel
  have ends := short.1.trans (List.suffix_append rest _)
  have ends' := short.2.trans (List.suffix_append rest' _)
  rw [same] at ends
  have equal := List.suffix_of_suffix_length_le ends ends' (Nat.le_refl _)
  revert equal
  decide +kernel

theorem takeOff?_eq_some_iff {text rest : List Char} {view : View} :
    takeOff? text = some (rest, view) ↔ rest ++ view.mark.toList = text := by
  rw [takeOff?]
  cases found : viewful.mark.toList.isSuffixOf? text with
  | some other =>
    obtain rfl := List.isSuffixOf?_eq_some_iff_append_eq.mp found
    rw [Option.some.injEq, Prod.mk.injEq]
    cases view with
    | viewful => simp [eq_comm]
    | viewless => simp [(append_mark_ne other rest).symm]
  | none =>
    cases view with
    | viewful =>
      have other : rest ++ viewful.mark.toList ≠ text := by
        rw [Ne, ← List.isSuffixOf?_eq_some_iff_append_eq, found]
        exact (Option.some_ne_none rest).symm
      simp [other]
    | viewless =>
      rw [← List.isSuffixOf?_eq_some_iff_append_eq]
      simp

end View

namespace Rib

theorem toList_line (rib : Rib) :
    rib.line.toList =
      List.replicate rib.depth '*' ++ ' ' :: (rib.name.toList ++ rib.view.mark.toList) := by
  simp [line]

/-- The stars in front of a line end at the blank. -/
theorem takeWhile_stars (depth : Nat) (shown : List Char) :
    (List.replicate depth '*' ++ ' ' :: shown).takeWhile (· = '*') = List.replicate depth '*' := by
  rw [List.takeWhile_append_of_pos fun c star => decide_eq_true (List.eq_of_mem_replicate star)]
  simp

theorem dropWhile_stars (depth : Nat) (shown : List Char) :
    (List.replicate depth '*' ++ ' ' :: shown).dropWhile (· = '*') = ' ' :: shown := by
  rw [List.dropWhile_append_of_pos fun c star => decide_eq_true (List.eq_of_mem_replicate star)]
  simp

/-- A text is the stars in front of it and what follows them. -/
theorem stars_append_dropWhile (text : List Char) :
    List.replicate (text.takeWhile (· = '*')).length '*' ++ text.dropWhile (· = '*') = text := by
  have stars (c : Char) (mem : c ∈ text.takeWhile (· = '*')) : c = '*' := by
    simpa using List.mem_takeWhile_imp mem
  rw [← List.eq_replicate_of_mem stars, List.takeWhile_append_dropWhile]

/-- A line is read as a node exactly if it is the line that shows the node. -/
theorem ofLine?_eq_some_iff {line : String} {rib : Rib} :
    ofLine? line = some rib ↔ rib.line = line := by
  constructor
  · intro read
    simp only [ofLine?] at read
    split at read
    · rename_i shown behind
      obtain ⟨⟨name, view⟩, taken, rfl⟩ := Option.map_eq_some_iff.mp read
      rw [← String.toList_inj, toList_line, String.toList_ofList,
        View.takeOff?_eq_some_iff.mp taken, ← behind, stars_append_dropWhile]
    · cases read
  · rintro rfl
    have taken := View.takeOff?_eq_some_iff.mpr (Eq.refl (rib.name.toList ++ rib.view.mark.toList))
    simp only [ofLine?, toList_line, dropWhile_stars, takeWhile_stars, taken, Option.map_some,
      String.ofList_toList, List.length_replicate]

theorem line_injective : Function.Injective line := by
  intro rib rib' same
  have read := ofLine?_eq_some_iff.mpr same
  rw [ofLine?_eq_some_iff.mpr rfl] at read
  exact (Option.some.inj read).symm

/-- No view mark has a line feed in it, so a line has one exactly if the name of its node has. -/
theorem newline_mem_line {rib : Rib} : '\n' ∈ rib.line.toList ↔ '\n' ∈ rib.name.toList := by
  have unmarked : '\n' ∉ rib.view.mark.toList := by
    cases rib.view <;> decide +kernel
  simp [toList_line, unmarked]

end Rib

section

variable {line : String}

theorem pieces_ne_nil (text : String) : pieces text ≠ [] := by
  simp [pieces]

theorem pieces_append_newline (first rest : String) :
    pieces (first ++ "\n" ++ rest) = pieces first ++ pieces rest := by
  have joined : (first ++ "\n" ++ rest).toList = first.toList ++ '\n' :: rest.toList := by
    simp
  rw [pieces, joined, List.splitOn_append_cons_self, List.map_append, pieces, pieces]

/-- A text without a line feed is in one piece. -/
theorem pieces_eq_singleton (whole : '\n' ∉ line.toList) : pieces line = [line] := by
  rw [pieces, List.splitOn_eq_singleton whole, List.map_singleton, String.ofList_toList]

/-- A text is in one piece only if it has no line feed. -/
theorem length_pieces_eq_one_iff : (pieces line).length = 1 ↔ '\n' ∉ line.toList := by
  constructor
  · intro one broken
    obtain ⟨before, after, split⟩ := List.append_of_mem broken
    have first := List.length_pos_iff.mpr (List.splitOn_ne_nil '\n' before)
    have second := List.length_pos_iff.mpr (List.splitOn_ne_nil '\n' after)
    rw [pieces, List.length_map, split, List.splitOn_append_cons_self, List.length_append] at one
    omega
  · intro whole
    rw [pieces_eq_singleton whole, List.length_singleton]

end

namespace Mindmap

/-- Lines that are put one after the other are cut at their own line feeds, and otherwise come
apart as they were. -/
theorem linesOf_unlines (lines : List String) : linesOf (unlines lines) = lines.flatMap pieces := by
  induction lines with
  | nil => rfl
  | cons line rest ih =>
    rw [unlines_cons, linesOf, pieces_append_newline,
      List.dropLast_append_of_ne_nil (pieces_ne_nil _), ← linesOf, ih, List.flatMap_cons]

theorem linesOf_unlines_of_forall {lines : List String}
    (whole : ∀ line ∈ lines, '\n' ∉ line.toList) :
    linesOf (unlines lines) = lines := by
  rw [linesOf_unlines, List.flatMap_congr fun line mem => pieces_eq_singleton (whole line mem),
    List.flatMap_singleton']

/-- Lines have at least one piece each, and no more than this exactly if none has a line feed. -/
theorem length_flatMap_pieces (lines : List String) :
    lines.length ≤ (lines.flatMap pieces).length ∧
      ((lines.flatMap pieces).length = lines.length ↔ ∀ line ∈ lines, '\n' ∉ line.toList) := by
  induction lines with
  | nil => simp
  | cons line rest ih =>
    obtain ⟨least, unbroken⟩ := ih
    have present := List.length_pos_iff.mpr (pieces_ne_nil line)
    rw [List.forall_mem_cons, ← unbroken, ← length_pieces_eq_one_iff, List.flatMap_cons,
      List.length_append, List.length_cons]
    omega

/-- What a viewer finds between the end of the style and the end of the map. -/
def mapLines (document : String) : List String :=
  (((linesOf document).dropWhile (· ≠ "</style>")).drop 1).takeWhile (· ≠ "@endmindmap")

variable {mindmap other : Mindmap}

/-- No node of a map has a line feed in its name. -/
def Unbroken (mindmap : Mindmap) : Prop :=
  ∀ rib ∈ mindmap.walk.ribs, '\n' ∉ rib.name.toList

instance (mindmap : Mindmap) : Decidable mindmap.Unbroken :=
  inferInstanceAs (Decidable (∀ rib ∈ mindmap.walk.ribs, '\n' ∉ rib.name.toList))

theorem unbroken_iff :
    mindmap.Unbroken ↔ ∀ line ∈ mindmap.walk.lines, '\n' ∉ line.toList := by
  simp only [Unbroken, Walk.lines, List.forall_mem_map, Rib.newline_mem_line]

/-- A line of a map has a star in front, so it does not end the map. -/
theorem line_ne_of_mem_lines {line : String} (mem : line ∈ mindmap.walk.lines) :
    line ≠ "@endmindmap" := by
  obtain ⟨rib, given, rfl⟩ := List.mem_map.mp mem
  rw [walk, Walk.ofEdges, Walk.ribs_start] at given
  obtain ⟨frame, visited, rfl⟩ := List.mem_map.mp given
  have low : 1 ≤ frame.depth := Walk.depth_le_of_mem_subtree visited
  obtain ⟨above, deep⟩ := Nat.exists_eq_add_of_le' low
  intro same
  have first := congrArg (fun text => text.toList.head?) same
  rw [Rib.toList_line, Walk.shown, deep, List.replicate_succ, List.cons_append,
    List.head?_cons] at first
  revert first
  decide +kernel

theorem text_eq_unlines (mindmap : Mindmap) :
    mindmap.text = unlines (headerLines ++ mindmap.walk.lines ++ footerLines) := by
  rw [text, unlines_append, unlines_append]

theorem linesOf_text (unbroken : mindmap.Unbroken) :
    linesOf mindmap.text = headerLines ++ mindmap.walk.lines ++ footerLines := by
  have before : ∀ line ∈ headerLines, '\n' ∉ line.toList := by decide +kernel
  have behind : ∀ line ∈ footerLines, '\n' ∉ line.toList := by decide +kernel
  rw [text_eq_unlines, linesOf_unlines_of_forall]
  intro line mem
  rcases List.mem_append.mp mem with mem | mem
  · rcases List.mem_append.mp mem with mem | mem
    · exact before line mem
    · exact unbroken_iff.mp unbroken line mem
  · exact behind line mem

/-- The map stands between the end of the style and the end of the map, which no node imitates. -/
theorem mapLines_text (unbroken : mindmap.Unbroken) :
    mapLines mindmap.text = mindmap.walk.lines := by
  have opening : headerLines = headerLines.dropLast ++ ["</style>"] := by decide +kernel
  have before : ∀ line ∈ headerLines.dropLast, decide (line ≠ "</style>") = true := by
    decide +kernel
  have closing : footerLines = "@endmindmap" :: footerLines.tail := rfl
  have within (line : String) (mem : line ∈ mindmap.walk.lines) :
      decide (line ≠ "@endmindmap") = true :=
    decide_eq_true (line_ne_of_mem_lines mem)
  rw [mapLines, linesOf_text unbroken, opening, List.append_assoc, List.append_assoc,
    List.dropWhile_append_of_pos before, List.singleton_append,
    List.dropWhile_cons_of_neg (by simp), List.drop_one, List.tail_cons,
    List.takeWhile_append_of_pos within, closing, List.takeWhile_cons_of_neg (by simp),
    List.append_nil]

theorem map_ofLine?_lines (walk : Walk) : walk.lines.map Rib.ofLine? = walk.ribs.map some := by
  rw [Walk.lines, List.map_map]
  exact List.map_congr_left fun rib _ => Rib.ofLine?_eq_some_iff.mpr rfl

/-- Maps without line feeds in their names that make the same document are the same. -/
theorem ribs_eq_of_text_eq (unbroken : mindmap.Unbroken) (unbroken' : other.Unbroken)
    (same : mindmap.text = other.text) : mindmap.walk.ribs = other.walk.ribs := by
  have lines : mindmap.walk.lines = other.walk.lines := by
    rw [← mapLines_text unbroken, ← mapLines_text unbroken', same]
  exact List.map_injective_iff.mpr Rib.line_injective lines

/-- The document of a map is the header, a section of its own and the footer. A line is read as a
node exactly if it is the line that shows the node, whatever the name of the node is. The section
has one line for every node exactly if no name has a line feed in it. Then the lines of the section
are read as the nodes, in their order, and they are the lines of the whole document between the end
of the style and the end of the map; so documents of such maps are the same exactly if their nodes
are.
-/
theorem text_read_back (mindmap : Mindmap) :
    let ribs := mindmap.walk.ribs
    let treeSection := unlines mindmap.walk.lines
    mindmap.text = unlines headerLines ++ treeSection ++ unlines footerLines ∧
      (mindmap.write (.ofRoom none)).sink.received = utf8 mindmap.text ∧
      (∀ line rib, Rib.ofLine? line = some rib ↔ rib.line = line) ∧
      ((linesOf treeSection).length = ribs.length ↔ mindmap.Unbroken) ∧
      (mindmap.Unbroken →
        (linesOf treeSection).map Rib.ofLine? = ribs.map some ∧
          mapLines mindmap.text = linesOf treeSection ∧
          ∀ other : Mindmap, other.Unbroken →
            (mindmap.text = other.text ↔ ribs = other.walk.ribs)) := by
  intro ribs treeSection
  have counted : ribs.length = mindmap.walk.lines.length := (List.length_map _).symm
  refine ⟨rfl, ?_, fun line rib => Rib.ofLine?_eq_some_iff, ?_, fun unbroken => ⟨?_, ?_, ?_⟩⟩
  · rw [write_unbounded]
  · rw [linesOf_unlines, counted, unbroken_iff]
    exact (length_flatMap_pieces _).2
  · rw [linesOf_unlines_of_forall (unbroken_iff.mp unbroken), map_ofLine?_lines]
  · rw [mapLines_text unbroken, linesOf_unlines_of_forall (unbroken_iff.mp unbroken)]
  · intro other unbroken'
    refine ⟨ribs_eq_of_text_eq unbroken unbroken', fun same => ?_⟩
    rw [text, text, Walk.lines, Walk.lines, ← same]

/-- Names that look like stars, blanks and marks, and one that is empty. -/
def disguised : Mindmap where
  edges :=
    .ofList [⟨"* <<Viewful>>Interactable", "** <<Viewless>>Listener", by decide⟩,
      ⟨"* <<Viewful>>Interactable", "Listener", by decide⟩,
      ⟨"ViewController", "UIViewController", by decide⟩]
  root := "* <<Viewful>>"
  limit := none

/-- The nodes are read back from the document, and under a limit of one the document differs. -/
theorem disguised_text_read_back :
    let ribs : List Rib := [⟨"* <<Viewful>>", 1, .viewless⟩, ⟨"** <<Viewless>>", 2, .viewless⟩,
      ⟨"", 2, .viewful⟩]
    let lines := ["* * <<Viewful>><<Viewless>>", "** ** <<Viewless>><<Viewless>>",
      "** <<Viewful>>"]
    let short : Mindmap := { disguised with limit := some 1 }
    disguised.Unbroken ∧ short.Unbroken ∧
      mapLines disguised.text = lines ∧ lines.map Rib.ofLine? = ribs.map some ∧
      disguised.text ≠ short.text := by
  intro ribs lines short
  have unbroken : disguised.Unbroken := by decide +kernel
  have unbroken' : short.Unbroken := by decide +kernel
  obtain ⟨-, -, -, -, back⟩ := disguised.text_read_back
  obtain ⟨nodes, between, equal⟩ := back unbroken
  have shown : linesOf (unlines disguised.walk.lines) = lines := by decide +kernel
  have given : disguised.walk.ribs = ribs := by decide +kernel
  rw [shown, given] at nodes
  rw [shown] at between
  refine ⟨unbroken, unbroken', between, nodes, ?_⟩
  rw [Ne, equal short unbroken', given]
  decide +kernel

end Mindmap

end RibMap
