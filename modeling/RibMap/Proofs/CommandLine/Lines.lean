import RibMap.CommandLine.Line

/-! # What lines ask for

A parser is expected to read a line of arguments as what it asks for, and to refuse the line if it
asks for nothing. A flag that is put into a line that does not have it yet changes what the line
asks for in the settings that the flag overrides, and in nothing else.
-/

namespace RibMap

/-- Overrides, and those of others where the others have any. -/
def Overrides.adding (overrides more : Overrides) : Overrides where
  maxDepth := more.maxDepth.or overrides.maxDepth
  skipDirs := more.skipDirs.or overrides.skipDirs

namespace CommandLine

/-- Command lines are read as they are written. -/
structure ReadsLines [ArgumentParser] : Prop where
  asked : ∀ (command : Command) (line : Line) (request : Request), line.fits command = true →
    line.request? command = some request →
      ArgumentParser.read (command.line line) = .request request
  refused : ∀ (command : Command) (line : Line), line.fits command = true →
    line.request? command = none → ∃ text, ArgumentParser.read (command.line line) = .refused text

/-- What is asked for, under further overrides. -/
def Request.adding (more : Overrides) : Request → Request
  | mindmap paths root overrides output => .mindmap paths root (overrides.adding more) output
  | edges paths overrides json => .edges paths (overrides.adding more) json

theorem isSome_once?_iff {α : Type} {read : String → Option α} {texts : List String}
    {value? : Option α} (found : once? read texts = some value?) :
    value?.isSome = true ↔ texts ≠ [] := by
  match texts, found with
  | [], found =>
    cases found
    simp
  | [text], found =>
    obtain ⟨value, -, rfl⟩ := Option.map_eq_some_iff.mp found
    simp

namespace Line

variable {line : Line} {request : Request}

theorem skipDirs_eq_some {texts : List String} (given : line.texts .skipDirs = texts)
    (some : texts ≠ []) : line.skipDirs = .some (texts.flatMap Flag.skipDirs.parts) := by
  rw [skipDirs, given]
  cases texts with
  | nil => exact absurd rfl some
  | cons first rest => rfl

theorem isSome_skipDirs_iff : line.skipDirs.isSome = true ↔ line.texts .skipDirs ≠ [] := by
  rw [skipDirs]
  cases line.texts .skipDirs <;> simp

/-- A mindmap is asked for with the settings that the flags of the line override. -/
theorem exists_mindmap (asked : line.request? .mindmap = some request) :
    ∃ paths root overrides output, request = .mindmap paths root overrides output ∧
      (overrides.maxDepth.isSome = true ↔ line.texts .maxDepth ≠ []) ∧
      (overrides.skipDirs.isSome = true ↔ line.texts .skipDirs ≠ []) ∧
      ∀ path ∈ paths, ∃ text, path = .ofString text := by
  rw [request?] at asked
  split at asked
  · cases asked
  simp only [bind, Option.bind_eq_some_iff] at asked
  obtain ⟨root?, -, root, -, depth?, depth, output?, -, same⟩ := asked
  cases same
  refine ⟨_, _, _, _, rfl, isSome_once?_iff depth, isSome_skipDirs_iff, fun path mem => ?_⟩
  obtain ⟨text, -, rfl⟩ := List.mem_map.mp mem
  exact ⟨text, rfl⟩

theorem exists_edges (asked : line.request? .edges = some request) :
    ∃ paths overrides json, request = .edges paths overrides json := by
  rw [request?] at asked
  split at asked
  · cases asked
  · obtain ⟨json, -, same⟩ := Option.bind_eq_some_iff.mp asked
    cases same
    exact ⟨_, _, _, rfl⟩

/-- Where two lines differ in what they say about settings, so do their requests. -/
theorem request?_adding {line line' : Line} {more : Overrides} (paths : line'.paths = line.paths)
    (root : line'.texts .root = line.texts .root)
    (output : line'.texts .output = line.texts .output)
    (depth : line'.maxDepth? = line.maxDepth?.map more.maxDepth.or)
    (skipDirs : line'.skipDirs = more.skipDirs.or line.skipDirs) :
    line'.request? .mindmap = (line.request? .mindmap).map (·.adding more) := by
  rw [request?, request?, paths, root?, root, ← root?, output?, output, ← output?, depth, skipDirs]
  split
  · rfl
  simp only [bind, pure]
  rcases line.root? with _ | _ | root
  · rfl
  · rfl
  cases line.maxDepth? with
  | none => rfl
  | some depth => cases line.output? <;> rfl

section Insertion

variable {before after : List Item} {behind : Option (List String)} {flag : Flag} {form : Form}
  {text : String}

theorem paths_insert_value : paths ⟨before ++ .value flag form text :: after, behind⟩ =
    paths ⟨before ++ after, behind⟩ := by
  rw [paths, paths, List.filterMap_append, List.filterMap_cons_none rfl, List.filterMap_append]

/-- A flag that is put in says nothing of the other flags. -/
theorem texts_insert_value_of_ne {other : Flag} (differ : flag ≠ other) :
    texts ⟨before ++ .value flag form text :: after, behind⟩ other =
      texts ⟨before ++ after, behind⟩ other := by
  have nothing : Item.text? other (.value flag form text) = none := if_neg differ
  rw [texts, texts, List.filterMap_append, List.filterMap_cons_none nothing,
    List.filterMap_append]

theorem texts_insert_value (fresh : texts ⟨before ++ after, behind⟩ flag = []) :
    texts ⟨before ++ .value flag form text :: after, behind⟩ flag = [text] := by
  have said : Item.text? flag (.value flag form text) = some text := if_pos rfl
  rw [texts, List.filterMap_append, List.append_eq_nil_iff] at fresh
  rw [texts, List.filterMap_append, List.filterMap_cons_some said, fresh.1, fresh.2]
  rfl

theorem fits_insert {command : Command} {item : Item} (itself : item.fits command = true)
    (fits : Line.fits command ⟨before ++ after, behind⟩ = true) :
    Line.fits command ⟨before ++ item :: after, behind⟩ = true := by
  rw [Line.fits, List.all_append, Bool.and_eq_true] at fits
  rw [Line.fits, List.all_append, List.all_cons, itself, fits.1, fits.2]
  rfl

/-- A depth limit that is put into a line is asked for, and nothing else changes. -/
theorem request?_insert_maxDepth {depth : Nat}
    (fresh : texts ⟨before ++ after, behind⟩ .maxDepth = [])
    (read : wordOf? text.toList = some depth) :
    request? ⟨before ++ .value .maxDepth form text :: after, behind⟩ .mindmap =
      (request? ⟨before ++ after, behind⟩ .mindmap).map (·.adding ⟨some depth, none⟩) := by
  refine request?_adding paths_insert_value (texts_insert_value_of_ne nofun)
    (texts_insert_value_of_ne nofun) ?_ ?_
  · rw [maxDepth?, maxDepth?, texts_insert_value fresh, fresh]
    exact congrArg (Option.map some) read
  · have differ : Flag.maxDepth ≠ .skipDirs := nofun
    rw [skipDirs, skipDirs, texts_insert_value_of_ne differ, Option.none_or]

/-- Names of directories that are put into a line are asked for, and nothing else changes. -/
theorem request?_insert_skipDirs
    (fresh : texts ⟨before ++ after, behind⟩ .skipDirs = []) :
    request? ⟨before ++ .value .skipDirs form text :: after, behind⟩ .mindmap =
      (request? ⟨before ++ after, behind⟩ .mindmap).map
        (·.adding ⟨none, some (Flag.skipDirs.parts text)⟩) := by
  refine request?_adding paths_insert_value (texts_insert_value_of_ne nofun)
    (texts_insert_value_of_ne nofun) ?_ ?_
  · have differ : Flag.skipDirs ≠ .maxDepth := nofun
    rw [maxDepth?, maxDepth?, texts_insert_value_of_ne differ]
    exact (Option.map_id_apply).symm
  · rw [skipDirs_eq_some (texts_insert_value fresh) nofun, Option.some_or, List.flatMap_singleton]

end Insertion

end Line

end CommandLine

end RibMap
