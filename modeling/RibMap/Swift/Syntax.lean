import RibMap.Declaration
import RibMap.Text.Blank

/-! # Declarations in the syntax trees of Swift source

A source file is parsed by a grammar that is not part of this development. The declarations of a
file are read off the children of the root of its syntax tree; what stands deeper in the tree is
nested in one of them and does not count.
-/

namespace RibMap.Swift

structure SyntaxNode where
  kind : String
  /-- A node is named if it has a rule of the grammar for itself; keywords and marks have none. -/
  named : Bool
  /-- What the node is to its parent, where the grammar has a name for that. -/
  field? : Option String
  /-- The part of the source that the node covers. -/
  text : String
  children : List SyntaxNode

/-- A grammar of Swift with its parsers. -/
class Grammar where
  /-- A parser with everything that it keeps from one text to the next. -/
  Parser : Type
  /-- A new parser into which the grammar is loaded. -/
  load : Except String Parser
  /-- Parse a text from its beginning. There is no tree if parsing is given up. -/
  parse : Parser → String → Option SyntaxNode × Parser

/-- The keywords of the declarations that are of one kind for the grammar. -/
def classKeywords : List String := ["class", "struct", "enum", "extension", "actor"]

namespace SyntaxNode

/-- The kind of the declaration that a node is, if it is one. -/
def declarationKind? (node : SyntaxNode) : Option Kind :=
  if node.kind = "protocol_declaration" then some .protocol
  else if node.kind = "class_declaration" then
    match node.children.find? fun child => !child.named && classKeywords.contains child.kind with
    | some keyword => some (.ofKeyword keyword.kind)
    | none => some .class
  else none

/-- The text of a node without blanks around it, if anything is left. -/
def trimmed? (node : SyntaxNode) : Option String :=
  let text := String.ofList (trim node.text.toList)
  if text = "" then none else some text

/-- The first child with a name for what it is to its parent. -/
def childNamed? (node : SyntaxNode) (name : String) : Option SyntaxNode :=
  node.children.find? (·.field? = some name)

def childOfKind? (node : SyntaxNode) (kind : String) : Option SyntaxNode :=
  node.children.find? (·.kind = kind)

/-- The record of the declaration that a node is, if it is one. -/
def declaration? (node : SyntaxNode) : Option Declaration :=
  node.declarationKind?.map fun kind =>
    { kind
      name := ((node.childNamed? "name").or (node.childOfKind? "type_identifier")).bind trimmed?
      inherited := (node.children.filter (·.kind = "inheritance_specifier")).filterMap trimmed? }

end SyntaxNode

/-- The declarations of a source text, in order, and the parser after it. -/
def declarations [Grammar] (parser : Grammar.Parser) (text : String) :
    Option (List Declaration) × Grammar.Parser :=
  let (root?, parser) := Grammar.parse parser text
  (root?.map fun root => root.children.filterMap SyntaxNode.declaration?, parser)

end RibMap.Swift
