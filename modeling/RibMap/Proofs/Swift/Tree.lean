import RibMap.Proofs.Settings
import RibMap.Swift.Syntax

/-! # Trees of declarations

A tree is a declaration with the declarations nested in it, printed as Swift source with one
declaration to a line. What is documented of the grammar is which node of the syntax tree such a
declaration has: the keyword, the name and the inherited types are children of its own.
-/

namespace RibMap.Swift

/-- The name of a type: letters and digits, the first of which is a capital letter, and none of the
names that the language keeps for itself. -/
structure TypeName where
  text : String
  plain : ∀ c ∈ text.toList, c.isAlphanum = true
  capital : text.toList.head?.any Char.isUpper = true
  free : text ∉ ["Any", "Self", "Type", "Protocol"]

/-- The keywords of types whose bodies may hold declarations. -/
inductive TypeKeyword where
  | «class»
  | «struct»
  | «enum»
  | «extension»
  | «actor»

/-- The spelling of a keyword. -/
def TypeKeyword.text : TypeKeyword → String
  | «class» => "class"
  | «struct» => "struct"
  | «enum» => "enum"
  | «extension» => "extension"
  | «actor» => "actor"

/-- A declaration with the declarations nested in it; nothing is nested in a protocol. -/
inductive Tree where
  | type (keyword : TypeKeyword) (name : TypeName) (inherited : List TypeName) (nested : List Tree)
  | protocol (name : TypeName) (inherited : List TypeName)

namespace Tree

/-- The keyword of a declaration. -/
def keyword : Tree → String
  | type keyword _ _ _ => keyword.text
  | protocol _ _ => "protocol"

/-- The keywords that declarations have. -/
def keywords : List String :=
  ["class", "struct", "enum", "extension", "actor", "protocol"]

theorem keyword_mem (tree : Tree) : tree.keyword ∈ keywords := by
  cases tree with
  | type word => cases word <;> simp [keyword, TypeKeyword.text, keywords]
  | protocol => simp [keyword, keywords]

/-- The name of a declaration. -/
def name : Tree → TypeName
  | type _ name _ _ => name
  | protocol name _ => name

/-- The inherited types of a declaration. -/
def inherited : Tree → List TypeName
  | type _ _ inherited _ => inherited
  | protocol _ inherited => inherited

/-- The declarations nested in a declaration. -/
def nested : Tree → List Tree
  | type _ _ _ nested => nested
  | protocol _ _ => []

/-- The kind of the node of a declaration; all types are of one kind. -/
def nodeKind : Tree → String
  | type .. => "class_declaration"
  | protocol .. => "protocol_declaration"

/-- The record of a declaration, whatever is nested in it. -/
def declaration (tree : Tree) : Declaration :=
  ⟨.ofKeyword tree.keyword, some tree.name.text, tree.inherited.map (·.text)⟩

end Tree

/-- The list of inherited types behind a name. -/
def inheritanceText : List TypeName → List Char
  | [] => []
  | name :: names =>
    ':' :: ' ' :: (name.text.toList ++ names.flatMap fun name => ',' :: ' ' :: name.text.toList)

/-- The line with which a declaration starts. -/
def headingText (keyword : String) (name : TypeName) (inherited : List TypeName) : List Char :=
  keyword.toList ++ ' ' :: (name.text.toList ++ (inheritanceText inherited ++ [' ', '\x7b']))

/-- A line feed and the indentation at a nesting depth. -/
def lineBreak (indent depth : Nat) : List Char :=
  '\n' :: List.replicate (indent * depth) ' '

mutual

/-- A declaration as Swift source, from its keyword to its closing brace. -/
def Tree.swift (indent depth : Nat) : Tree → List Char
  | .type keyword name inherited nested =>
    headingText keyword.text name inherited ++
      (swiftLines indent (depth + 1) nested ++ (lineBreak indent depth ++ ['\x7d']))
  | .protocol name inherited =>
    headingText "protocol" name inherited ++ (lineBreak indent depth ++ ['\x7d'])

/-- Declarations as Swift source, each on lines of its own. -/
def swiftLines (indent depth : Nat) : List Tree → List Char
  | [] => []
  | tree :: trees =>
    lineBreak indent depth ++ (tree.swift indent depth ++ swiftLines indent depth trees)

end

/-- A source file of declarations. -/
def sourceText (indent : Nat) : List Tree → List Char
  | [] => []
  | tree :: trees => tree.swift indent 0 ++ '\n' :: sourceText indent trees

section Parsed

/-- Some nodes are, among others of any kind, those of inherited types in order. -/
inductive Specifies : List SyntaxNode → List TypeName → Prop
  | nil : Specifies [] []
  | specifier {node : SyntaxNode} {nodes : List SyntaxNode} {name : TypeName}
      {names : List TypeName} :
    node.kind = "inheritance_specifier" → node.text = name.text → Specifies nodes names →
    Specifies (node :: nodes) (name :: names)
  | other {node : SyntaxNode} {nodes : List SyntaxNode} {names : List TypeName} :
    node.kind ≠ "inheritance_specifier" → Specifies nodes names → Specifies (node :: nodes) names

/-- The node of a declaration: behind its keyword and its name there are the nodes of its inherited
types, the marks between them, and a body, of which nothing is said. -/
structure SyntaxNode.Declares (node : SyntaxNode) (tree : Tree) : Prop where
  kind : node.kind = tree.nodeKind
  children : ∃ keyword name others, node.children = keyword :: name :: others ∧
    (keyword.named = false ∧ keyword.kind = tree.keyword ∧ keyword.field? ≠ some "name") ∧
    (name.field? = some "name" ∧ name.kind ≠ "inheritance_specifier" ∧
      name.text = tree.name.text) ∧
    Specifies others tree.inherited

/-- A parser makes of printed declarations a syntax tree whose root has a child for each of those at
the top, in order, and no other child. -/
def ParsedAs [Grammar] (parser : Grammar.Parser) (indent : Nat) (trees : List Tree) : Prop :=
  ∃ root, (Grammar.parse parser (String.ofList (sourceText indent trees))).1 = some root ∧
    List.Forall₂ SyntaxNode.Declares root.children trees

theorem toNat_of_isAlphanum {c : Char} (proper : c.isAlphanum = true) :
    48 ≤ c.toNat ∧ c.toNat ≤ 122 := by
  -- All that is known of the character is in which of the three ranges it lies.
  change ((decide ('A'.val ≤ c.val ∧ c.val ≤ 'Z'.val) ||
    decide ('a'.val ≤ c.val) && decide (c.val ≤ 'z'.val)) ||
    decide ('0'.val ≤ c.val) && decide (c.val ≤ '9'.val)) = true at proper
  simp only [Bool.or_eq_true, Bool.and_eq_true, decide_eq_true_eq, UInt32.le_iff_toNat_le] at proper
  have ends : 'A'.val.toNat = 65 ∧ 'Z'.val.toNat = 90 ∧ 'a'.val.toNat = 97 ∧
      'z'.val.toNat = 122 ∧ '0'.val.toNat = 48 ∧ '9'.val.toNat = 57 := by decide
  change 48 ≤ c.val.toNat ∧ c.val.toNat ≤ 122
  omega

theorem isBlank_of_isAlphanum {c : Char} (proper : c.isAlphanum = true) : isBlank c = false := by
  have range := toNat_of_isAlphanum proper
  simp only [isBlank, Bool.or_eq_false_iff, Bool.and_eq_false_iff, beq_eq_false_iff_ne,
    decide_eq_false_iff_not]
  omega

theorem TypeName.toList_ne_nil (name : TypeName) : name.text.toList ≠ [] := by
  intro empty
  have capital := name.capital
  rw [empty] at capital
  cases capital

/-- There are no blanks around a name that could be cut off. -/
theorem SyntaxNode.trimmed?_of_name {node : SyntaxNode} {name : TypeName}
    (same : node.text = name.text) : node.trimmed? = some name.text := by
  have proper : name.text ≠ "" := fun empty => name.toList_ne_nil (empty ▸ rfl)
  have blankFree (c : Char) (mem : c ∈ name.text.toList) : isBlank c = false :=
    isBlank_of_isAlphanum (name.plain c mem)
  have unpadded : Settings.Unpadded name.text.toList :=
    ⟨(Option.any_eq_false _ _).mpr fun c first => blankFree c (List.mem_of_mem_head? first),
      (Option.any_eq_false _ _).mpr fun c last => blankFree c (List.mem_of_mem_getLast? last)⟩
  rw [trimmed?, same, unpadded.trim_eq, String.ofList_toList, if_neg proper]

theorem Specifies.inherited_eq {nodes : List SyntaxNode} {names : List TypeName}
    (specifies : Specifies nodes names) :
    (nodes.filter (·.kind = "inheritance_specifier")).filterMap SyntaxNode.trimmed? =
      names.map (·.text) := by
  induction specifies with
  | nil => rfl
  | specifier kind text _ ih =>
    rw [List.filter_cons_of_pos (by simpa using kind),
      List.filterMap_cons_some (SyntaxNode.trimmed?_of_name text), ih]
    rfl
  | other kind _ ih => rw [List.filter_cons_of_neg (by simpa using kind), ih]

/-- The record of the node of a declaration is that of the declaration. -/
theorem SyntaxNode.Declares.declaration?_eq {node : SyntaxNode} {tree : Tree}
    (declares : node.Declares tree) : node.declaration? = some tree.declaration := by
  obtain ⟨kind, keyword, name, others, children, ⟨unnamed, word, noName⟩,
    ⟨field, noType, text⟩, specifies⟩ := declares
  have kinds : node.declarationKind? = some (.ofKeyword tree.keyword) := by
    rw [declarationKind?, kind, children]
    cases tree with
    | protocol => rfl
    | type keyword' =>
      have known : (!false && classKeywords.contains keyword'.text) = true := by
        cases keyword' <;> rfl
      have first : (keyword :: name :: others).find?
          (fun child => !child.named && classKeywords.contains child.kind) = some keyword := by
        apply List.find?_cons_of_pos
        rw [unnamed, word]
        exact known
      rw [first]
      exact congrArg (fun word => some (Kind.ofKeyword word)) word
  have named : node.childNamed? "name" = some name := by
    rw [childNamed?, children, List.find?_cons_of_neg (by simpa using noName),
      List.find?_cons_of_pos (by simpa using field)]
  have types : (node.children.filter (·.kind = "inheritance_specifier")).filterMap trimmed? =
      tree.inherited.map (·.text) := by
    have noKeyword : keyword.kind ≠ "inheritance_specifier" := by
      have other : ∀ word ∈ Tree.keywords, word ≠ "inheritance_specifier" := by decide
      rw [word]
      exact other _ tree.keyword_mem
    rw [children, List.filter_cons_of_neg (by simpa using noKeyword),
      List.filter_cons_of_neg (by simpa using noType), specifies.inherited_eq]
  rw [declaration?, kinds, named, types]
  simp only [Option.map_some, Option.some_or, Option.bind_some, trimmed?_of_name text]
  rfl

theorem filterMap_declaration? {nodes : List SyntaxNode} {trees : List Tree}
    (declares : List.Forall₂ SyntaxNode.Declares nodes trees) :
    nodes.filterMap SyntaxNode.declaration? = trees.map Tree.declaration := by
  induction declares with
  | nil => rfl
  | cons here _ ih => rw [List.filterMap_cons_some here.declaration?_eq, ih, List.map_cons]

/-- What is read of printed declarations are the records of those at the top. -/
theorem ParsedAs.declarations_eq [Grammar] {parser : Grammar.Parser} {indent : Nat}
    {trees : List Tree} (parsed : ParsedAs parser indent trees) :
    (declarations parser (String.ofList (sourceText indent trees))).1 =
      some (trees.map Tree.declaration) := by
  obtain ⟨root, found, declares⟩ := parsed
  change Option.map _ (Grammar.parse parser _).1 = _
  rw [found, ← filterMap_declaration? declares]
  rfl

end Parsed

end RibMap.Swift
