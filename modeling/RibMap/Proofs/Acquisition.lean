import RibMap.Analysis
import RibMap.Proofs.Dump.Rearrangement
import RibMap.Proofs.Reference.Swift.Outlining

/-! # Two ways to the same declarations

The declarations of a source file are read from its syntax tree or from a structure dump of it.
Declarations that are printed in both forms are read as the same records either way.
-/

namespace RibMap.Swift

/-- An entry of a dump. -/
def dumpEntry (keyword : String) (name : TypeName) (inherited : List TypeName)
    (nested : List Json) : Json :=
  .object [
    ("key.kind", .string (Kind.dumpNamespace ++ keyword)),
    ("key.name", .string name.text),
    ("key.inheritedtypes",
      .array (inherited.map fun name => .object [("key.name", .string name.text)])),
    ("key.substructure", .array nested)]

mutual

/-- A declaration as an entry of a dump, with what is nested in it. -/
def Tree.dump : Tree → Json
  | .type keyword name inherited nested =>
    dumpEntry keyword.text name inherited (dumpEntries nested)
  | .protocol name inherited => dumpEntry "protocol" name inherited []

/-- Declarations as entries of a dump. -/
def dumpEntries : List Tree → List Json
  | [] => []
  | tree :: trees => tree.dump :: dumpEntries trees

end

/-- The dump of a source file of declarations. -/
def sourceDump (trees : List Tree) : Json :=
  .object [("key.substructure", .array (dumpEntries trees))]

/-- What the map needs of the entry of a declaration. -/
def Tree.entry (tree : Tree) : Dump.Entry :=
  ⟨some (Kind.dumpNamespace ++ tree.keyword), some tree.name.text,
    tree.inherited.map fun name => ⟨some name.text⟩⟩

/-- An entry is a declaration with the entries nested in it. -/
theorem Tree.dump_eq (tree : Tree) :
    tree.dump = dumpEntry tree.keyword tree.name tree.inherited (dumpEntries tree.nested) := by
  cases tree <;> rfl

theorem inheritedTypes_names (names : List TypeName) :
    Dump.Entry.inheritedTypes
        (.array (names.map fun name => .object [("key.name", .string name.text)])) =
      some (names.map fun name => ⟨some name.text⟩) := by
  change List.mapM Dump.InheritedType.decode _ = _
  induction names with
  | nil => rfl
  | cons name names ih =>
    have here : Dump.InheritedType.decode (.object [("key.name", .string name.text)]) =
        some ⟨some name.text⟩ := rfl
    rw [List.map_cons, List.mapM_cons, ih, here]
    rfl

/-- What is nested in an entry does not matter. -/
theorem decode_dumpEntry (keyword : String) (name : TypeName) (inherited : List TypeName)
    (nested : List Json) :
    Dump.Entry.decode (dumpEntry keyword name inherited nested) =
      some ⟨some (Kind.dumpNamespace ++ keyword), some name.text,
        inherited.map fun name => ⟨some name.text⟩⟩ := by
  have types := inheritedTypes_names inherited
  simp [Dump.Entry.decode, dumpEntry, Json.Decoder.record, Dump.Entry.ofMembers,
    Json.Decoder.field, types, Json.optionalText, Json.Decoder.optional, Json.decodeText]

theorem entries_dumpEntries (trees : List Tree) :
    Dump.entries (.array (dumpEntries trees)) = some (trees.map Tree.entry) := by
  change List.mapM Dump.Entry.decode _ = _
  induction trees with
  | nil => rfl
  | cons tree trees ih =>
    rw [dumpEntries, List.mapM_cons, ih, Tree.dump_eq, decode_dumpEntry]
    rfl

theorem decode_sourceDump (trees : List Tree) :
    Dump.decode (sourceDump trees) = some (trees.map Tree.entry) := by
  have entries := entries_dumpEntries trees
  simp [Dump.decode, sourceDump, Json.Decoder.record, Dump.ofMembers, Json.Decoder.field, entries]

/-- A dump names the kinds of declarations by their keywords. -/
theorem Tree.ofDump_keyword (tree : Tree) :
    Kind.ofDump (Kind.dumpNamespace ++ tree.keyword) = .ofKeyword tree.keyword := by
  have short : afterWord? Kind.dumpNamespace.toList (Kind.dumpNamespace ++ tree.keyword).toList =
      some tree.keyword.toList :=
    afterWord?_eq_some_iff.mpr String.toList_append
  have extension : ∀ keyword ∈ keywords,
      (if (afterWord? "extension".toList keyword.toList).isSome then Kind.extension
        else .ofKeyword keyword) = .ofKeyword keyword := by decide
  simp only [Kind.ofDump, short, String.ofList_toList]
  exact extension _ tree.keyword_mem

theorem Tree.declaration?_entry (tree : Tree) :
    tree.entry.declaration? = some tree.declaration := by
  have names : (tree.inherited.map fun name => Dump.InheritedType.mk (some name.text)).filterMap
      (·.name) = tree.inherited.map (·.text) := by
    rw [List.filterMap_map, ← List.filterMap_eq_map]
    rfl
  rw [declaration, ← tree.ofDump_keyword, ← names]
  rfl

/-- However it is rearranged and spelled, the dump of declarations is read as their records. -/
theorem declarations_sourceDump [Json.Library] (rules : Json.ReadsByRules) {trees : List Tree}
    {value : Json} {text : String}
    (rearranged : Dump.Rearranged .dump (sourceDump trees) value)
    (spelled : value.IsSpelledBy text) :
    Dump.declarations text = .ok (trees.map Tree.declaration) := by
  have decoded : Dump.decode value = some (trees.map Tree.entry) :=
    rearranged.decode_eq.symm.trans (decode_sourceDump trees)
  have records : (trees.map Tree.entry).filterMap Dump.Entry.declaration? =
      trees.map Tree.declaration := by
    rw [List.filterMap_map, ← List.filterMap_eq_map]
    exact congrArg (List.filterMap · trees) (funext Tree.declaration?_entry)
  rw [← Json.toOption_eq_some_iff, Dump.toOption_declarations rules spelled, decoded,
    Option.map_some, records]

theorem proper_dumpEntry (keyword : String) (name : TypeName) (inherited : List TypeName)
    {nested : List Json} (proper : ∀ item ∈ nested, item.Proper) :
    (dumpEntry keyword name inherited nested).Proper := by
  refine .object fun key value mem => ?_
  simp only [List.mem_cons, List.not_mem_nil, or_false] at mem
  rcases mem with same | same | same | same <;> cases same
  · exact .string
  · exact .string
  · refine .array fun item mem => ?_
    obtain ⟨name, -, rfl⟩ := List.mem_map.mp mem
    refine .object fun key value mem => ?_
    cases List.mem_singleton.mp mem
    exact .string
  · exact .array proper

mutual

/-- The entry of a declaration can be written. -/
theorem Tree.proper_dump : ∀ tree : Tree, tree.dump.Proper
  | .type keyword name inherited nested =>
    proper_dumpEntry keyword.text name inherited (proper_dumpEntries nested)
  | .protocol name inherited => proper_dumpEntry "protocol" name inherited (by simp)

theorem proper_dumpEntries : ∀ trees : List Tree, ∀ item ∈ dumpEntries trees, item.Proper
  | [], item, mem => by cases mem
  | tree :: trees, item, mem => by
    rcases List.mem_cons.mp mem with rfl | mem
    · exact tree.proper_dump
    · exact proper_dumpEntries trees item mem

end

theorem proper_sourceDump (trees : List Tree) : (sourceDump trees).Proper := by
  refine .object fun key value mem => ?_
  cases List.mem_singleton.mp mem
  exact .array (proper_dumpEntries trees)

/-- Declarations are read from their syntax tree as they are read from a dump: one record for each
of those at the top, in order, and nothing of those that are nested in them. So it makes no
difference to edges or to any map which of the two is read. The dump can be written, may hold fields
besides and may be spelled in any way. -/
theorem declarations_agree [Json.Library] [Grammar] (rules : Json.ReadsByRules)
    {parser : Grammar.Parser} {indent : Nat} {trees : List Tree}
    (parsed : ParsedAs parser indent trees) :
    (declarations parser (String.ofList (sourceText indent trees))).1 =
        some (trees.map Tree.declaration) ∧
      (∃ text, (sourceDump trees).IsSpelledBy text) ∧
      ∀ value text, Dump.Rearranged .dump (sourceDump trees) value → value.IsSpelledBy text →
        Dump.declarations text = .ok (trees.map Tree.declaration) ∧
        ∀ ofDump ofSource, Dump.declarations text = .ok ofDump →
          (declarations parser (String.ofList (sourceText indent trees))).1 = some ofSource →
          ofDump = ofSource ∧
          ∀ (analysis : Analysis) (root : String),
            (analysis.addDeclarations ofDump).2.edges =
                (analysis.addDeclarations ofSource).2.edges ∧
              ((analysis.addDeclarations ofDump).2.mindmap root).text =
                ((analysis.addDeclarations ofSource).2.mindmap root).text := by
  have source := parsed.declarations_eq
  have written := Json.isSpelledBy_render (proper_sourceDump trees)
  refine ⟨source, ⟨_, written⟩, fun value text rearranged spelled => ?_⟩
  have dump := declarations_sourceDump rules rearranged spelled
  refine ⟨dump, fun ofDump ofSource read parsed => ?_⟩
  obtain rfl : trees.map Tree.declaration = ofDump := Except.ok.inj (dump.symm.trans read)
  obtain rfl : trees.map Tree.declaration = ofSource := Option.some.inj (source.symm.trans parsed)
  exact ⟨rfl, fun _ _ => ⟨rfl, rfl⟩⟩

section Nested

open scoped Reference

/-- A class with a protocol nested in it, as source text and as a dump. -/
theorem declarations_agree_nested :
    ∃ trees : List Tree,
      sourceText 2 trees = "class A: B \x7b\n  protocol C \x7b\n  \x7d\n\x7d\n".toList ∧
        (declarations () (String.ofList (sourceText 2 trees))).1 =
          some [⟨.class, some "A", ["B"]⟩] ∧
        Dump.declarations (sourceDump trees).render = .ok [⟨.class, some "A", ["B"]⟩] := by
  refine ⟨[.type .class ⟨"A", List.all_eq_true.mp rfl, by decide, by decide⟩
    [⟨"B", List.all_eq_true.mp rfl, by decide, by decide⟩]
    [.protocol ⟨"C", List.all_eq_true.mp rfl, by decide, by decide⟩ []]], rfl, ?_⟩
  obtain ⟨source, -, agree⟩ := declarations_agree Reference.readsByRules (Reference.parsedAs 2 _)
  obtain ⟨dump, -⟩ := agree _ _ .refl (Json.isSpelledBy_render (proper_sourceDump _))
  exact ⟨source, dump⟩

end Nested

end RibMap.Swift
