import RibMap.Reference.Swift.Token
import RibMap.Swift.Syntax

/-! # A grammar of Swift

The outline of a source text are the types, extensions and protocols declared outside of all
brackets. Each has a header, from its keyword to the brace of its body: a name, perhaps generic
parameters, perhaps a list of inherited types, and perhaps a `where` clause.

The program is run and tested with the grammar that makes syntax trees of outlines. Its trees have
what the program reads off them and nothing else, and none of the definitions of the program refers
to it.
-/

namespace RibMap.Swift

namespace Token

def isBlank (token : Token) : Bool :=
  token.kind = .blank

def isWord (token : Token) (word : String) : Bool :=
  token.kind = .word && token.text = word.toList

def isMark (token : Token) (c : Char) : Bool :=
  token.text = [c] && token.kind ≠ .word

/-- Whether a token opens brackets, angle brackets included. -/
def opens (token : Token) : Bool :=
  token.kind = .opening || token.isMark '<'

/-- Whether a token closes brackets, angle brackets included. -/
def closes (token : Token) : Bool :=
  token.kind = .closing || token.isMark '>'

end Token

/-- Drop the blank tokens in front. -/
def dropBlanks (tokens : List Token) : List Token :=
  tokens.dropWhile Token.isBlank

/-- Drop the blank tokens at both ends. -/
def trimBlanks (tokens : List Token) : List Token :=
  (dropBlanks (dropBlanks tokens).reverse).reverse

/-- The text of tokens, without blanks around it. -/
def textOf (tokens : List Token) : String :=
  String.ofList ((trimBlanks tokens).flatMap Token.text)

/-- The tokens before and from the first one outside of brackets at which to stop. -/
def breakAt (stop : Token → Bool) (depth : Nat) : List Token → List Token × List Token
  | [] => ([], [])
  | token :: rest =>
    if depth = 0 ∧ stop token then ([], token :: rest)
    else
      let depth :=
        if token.opens then depth + 1 else if token.closes then depth - 1 else depth
      let (before, after) := breakAt stop depth rest
      (token :: before, after)

/-- The tokens behind the bracket that closes the innermost of `depth + 1` open ones. -/
def dropGroup (depth : Nat) : List Token → List Token
  | [] => []
  | token :: rest =>
    if token.opens then dropGroup (depth + 1) rest
    else if token.closes then
      match depth with
      | 0 => rest
      | outer + 1 => dropGroup outer rest
    else dropGroup depth rest

/-- Drop a group of brackets that follows without a blank. -/
def dropGroupIf (opening : Char) : List Token → List Token
  | token :: rest => if token.isMark opening then dropGroup 0 rest else token :: rest
  | [] => []

/-- Drop the rest of a dotted name behind its first word. -/
def dropQualifiers : List Token → List Token
  | dot :: word :: rest =>
    if dot.isMark '.' && word.kind = .word then dropQualifiers rest else dot :: word :: rest
  | tokens => tokens

/-- Drop an attribute behind its `@`: a name, generic arguments and arguments. -/
def dropAttribute (tokens : List Token) : List Token :=
  match dropBlanks tokens with
  | [] => []
  | _ :: rest => dropGroupIf '(' (dropGroupIf '<' (dropQualifiers rest))

theorem length_dropBlanks (tokens : List Token) : (dropBlanks tokens).length ≤ tokens.length :=
  (List.dropWhile_sublist _).length_le

theorem length_dropGroup (depth : Nat) (tokens : List Token) :
    (dropGroup depth tokens).length ≤ tokens.length := by
  fun_induction dropGroup depth tokens with
  | case1 => exact Nat.le_refl _
  | case2 => simp only [List.length_cons]; omega
  | case3 => simp
  | case4 => simp only [List.length_cons]; omega
  | case5 => simp only [List.length_cons]; omega

theorem length_dropGroupIf (opening : Char) (tokens : List Token) :
    (dropGroupIf opening tokens).length ≤ tokens.length := by
  unfold dropGroupIf
  split
  · rename_i token rest
    split
    · have := length_dropGroup 0 rest
      simp only [List.length_cons]
      omega
    · exact Nat.le_refl _
  · exact Nat.le_refl _

theorem length_dropQualifiers (tokens : List Token) :
    (dropQualifiers tokens).length ≤ tokens.length := by
  fun_induction dropQualifiers tokens with
  | case1 => simp only [List.length_cons]; omega
  | case2 => exact Nat.le_refl _
  | case3 => exact Nat.le_refl _

theorem length_dropAttribute (tokens : List Token) :
    (dropAttribute tokens).length ≤ tokens.length := by
  unfold dropAttribute
  have blanks := length_dropBlanks tokens
  split
  · exact Nat.zero_le _
  · rename_i first rest shape
    simp only [shape, List.length_cons] at blanks
    have := length_dropQualifiers rest
    have := length_dropGroupIf '<' (dropQualifiers rest)
    have := length_dropGroupIf '(' (dropGroupIf '<' (dropQualifiers rest))
    omega

/-- Drop the attributes in front of a type. -/
def dropAttributes (tokens : List Token) : List Token :=
  match _shape : dropBlanks tokens with
  | [] => []
  | token :: rest => if token.isMark '@' then dropAttributes (dropAttribute rest) else token :: rest
termination_by tokens.length
decreasing_by
  have blanks := length_dropBlanks tokens
  simp only [_shape, List.length_cons] at blanks
  have := length_dropAttribute rest
  omega

/-- Cut a list of types at the commas and ampersands outside of brackets. -/
def splitTypes (depth : Nat) : List Token → List (List Token)
  | [] => [[]]
  | token :: rest =>
    if depth = 0 ∧ (token.isMark ',' || token.isMark '&') then [] :: splitTypes depth rest
    else
      let depth :=
        if token.opens then depth + 1 else if token.closes then depth - 1 else depth
      match splitTypes depth rest with
      | [] => [[token]]
      | piece :: pieces => (token :: piece) :: pieces

/-- The texts of the types of a list, without attributes; empty places count for nothing. -/
def typeNames (tokens : List Token) : List String :=
  ((splitTypes 0 tokens).map fun piece => textOf (dropAttributes piece)).filter (· ≠ "")

/-- Whether a token ends a list of inherited types. -/
def endsInheritance (token : Token) : Bool :=
  token.isWord "where" || token.isMark '\x7b'

/-- Whether a token ends the type that an extension extends. -/
def endsExtended (token : Token) : Bool :=
  token.isMark ':' || endsInheritance token

/-- The inherited types of a header, and what follows them. -/
def inheritance (tokens : List Token) : List String × List Token :=
  match dropBlanks tokens with
  | token :: rest =>
    if token.isMark ':' then
      let (types, after) := breakAt endsInheritance 0 rest
      (typeNames types, after)
    else ([], token :: rest)
  | [] => ([], [])

/-- The tokens behind the brace that opens a body, past a `where` clause if there is one. -/
def body? (tokens : List Token) : Option (List Token) :=
  match dropBlanks tokens with
  | [] => none
  | token :: rest =>
    if token.isMark '\x7b' then some rest
    else if token.isWord "where" then
      match (breakAt (·.isMark '\x7b') 0 rest).2 with
      | [] => none
      | _ :: inside => some inside
    else none

/-- Whether a token can follow a name. -/
def followsName (token : Token) : Bool :=
  token.isMark ':' || token.isMark '<' || token.isMark '\x7b'

/-- A declared name; no name if what follows a name comes at once. -/
def simpleName? (tokens : List Token) : Option (Option String × List Token) :=
  match dropBlanks tokens with
  | [] => none
  | token :: rest =>
    if token.kind = .word then some (some (String.ofList token.text), rest)
    else if followsName token then some (none, token :: rest)
    else none

def dropParameters (tokens : List Token) : List Token :=
  dropGroupIf '<' (dropBlanks tokens)

/-- The name of a header, and what follows it. -/
def headerName? (keyword : String) (tokens : List Token) :
    Option (Option String × List Token) :=
  if keyword = "extension" then
    let (extended, rest) := breakAt endsExtended 0 tokens
    let name := textOf extended
    some (if name = "" then none else some name, rest)
  else (simpleName? tokens).map fun (name, rest) => (name, dropParameters rest)

structure Header where
  keyword : String
  name : Option String
  inherited : List String

/-- Read the header behind a keyword; the tokens of the body are left over. -/
def header? (keyword : String) (tokens : List Token) : Option (Header × List Token) := do
  let (name, afterName) ← headerName? keyword tokens
  let (inherited, afterTypes) := inheritance afterName
  let body ← body? afterTypes
  return (⟨keyword, name, inherited⟩, body)

theorem length_breakAt (stop : Token → Bool) (depth : Nat) (tokens : List Token) :
    (breakAt stop depth tokens).2.length ≤ tokens.length := by
  induction tokens generalizing depth with
  | nil => simp [breakAt]
  | cons token rest ih =>
    unfold breakAt
    split
    · exact Nat.le_refl _
    · exact Nat.le_succ_of_le (ih _)

theorem length_inheritance (tokens : List Token) :
    (inheritance tokens).2.length ≤ tokens.length := by
  unfold inheritance
  have blanks := length_dropBlanks tokens
  split
  · rename_i token rest shape
    simp only [shape, List.length_cons] at blanks
    split
    · have := length_breakAt endsInheritance 0 rest
      exact Nat.le_trans this (Nat.le_of_succ_le blanks)
    · simpa using blanks
  · exact Nat.zero_le _

theorem length_body? {tokens inside : List Token} (body : body? tokens = some inside) :
    inside.length < tokens.length := by
  unfold body? at body
  have blanks := length_dropBlanks tokens
  split at body
  · cases body
  · rename_i token rest shape
    simp only [shape, List.length_cons] at blanks
    split at body
    · cases body
      omega
    split at body
    · have := length_breakAt (·.isMark '\x7b') 0 rest
      split at body
      · cases body
      · rename_i found
        simp only [found, List.length_cons] at this
        cases body
        omega
    · cases body

theorem length_headerName? {keyword : String} {tokens rest : List Token} {name : Option String}
    (header : headerName? keyword tokens = some (name, rest)) : rest.length ≤ tokens.length := by
  unfold headerName? at header
  split at header
  · have := length_breakAt endsExtended 0 tokens
    cases header
    exact this
  · simp only [Option.map_eq_some_iff, Prod.mk.injEq, Prod.exists] at header
    obtain ⟨name', left, found, rfl, rfl⟩ := header
    have parameters : (dropParameters left).length ≤ left.length :=
      Nat.le_trans (length_dropGroupIf '<' _) (length_dropBlanks left)
    unfold simpleName? at found
    have blanks := length_dropBlanks tokens
    split at found
    · cases found
    · rename_i token more shape
      simp only [shape, List.length_cons] at blanks
      split at found
      · cases found
        omega
      split at found
      · cases found
        simp only [List.length_cons] at parameters
        omega
      · cases found

theorem length_header? {keyword : String} {tokens inside : List Token} {found : Header}
    (header : header? keyword tokens = some (found, inside)) :
    inside.length < tokens.length := by
  simp only [header?, bind, pure, Option.bind_eq_some_iff, Option.some.injEq, Prod.mk.injEq,
    Prod.exists] at header
  obtain ⟨name, afterName, named, body, opened, _, rfl⟩ := header
  have := length_headerName? named
  have := length_inheritance afterName
  have := length_body? opened
  omega

/-- The keywords that always declare something. -/
def declaringWords : List String :=
  ["class", "struct", "enum", "extension", "protocol"]

/-- Whether the tokens behind the word `actor` declare an actor: a name follows. -/
def namesActor (tokens : List Token) : Bool :=
  match dropBlanks tokens with
  | [] => false
  | token :: _ =>
    token.kind = .word &&
      !(["in", "is", "as", "else", "where"].any fun word => token.isWord word)

/-- The keyword of a declaration that a token starts, unless it names something in an import or
behind a dot. -/
def keyword? (previous token : Token) (rest : List Token) : Option String :=
  let word := String.ofList token.text
  if token.kind ≠ .word ∨ previous.isMark '.' ∨ previous.isWord "import" then none
  else if declaringWords.contains word then some word
  else if word = "actor" ∧ namesActor rest then some word
  else none

/-- The header that a token starts, with the tokens of the body behind it. -/
def headerAt? (previous token : Token) (rest : List Token) : Option (Header × List Token) :=
  (keyword? previous token rest).bind fun keyword => header? keyword rest

theorem length_headerAt? {previous token : Token} {rest inside : List Token} {header : Header}
    (found : headerAt? previous token rest = some (header, inside)) :
    inside.length < rest.length := by
  obtain ⟨keyword, _, header⟩ := Option.bind_eq_some_iff.mp found
  exact length_header? header

/-- The headers outside of all brackets, `depth` of which are open. -/
def outline (depth : Nat) (previous : Token) : List Token → List Header
  | [] => []
  | token :: rest =>
    if token.isBlank then outline depth previous rest
    else if token.kind = .opening then outline (depth + 1) token rest
    else if token.kind = .closing then outline (depth - 1) token rest
    else if depth ≠ 0 then outline depth token rest
    else
      match _found : headerAt? previous token rest with
      | none => outline depth token rest
      | some (header, inside) => header :: outline 1 token inside
termination_by tokens => tokens.length
decreasing_by
  · exact Nat.lt_succ_self _
  · exact Nat.lt_succ_self _
  · exact Nat.lt_succ_self _
  · exact Nat.lt_succ_self _
  · exact Nat.lt_succ_self _
  · exact Nat.lt_succ_of_lt (length_headerAt? _found)

namespace SyntaxNode

def ofKeyword (keyword : String) : SyntaxNode :=
  ⟨keyword, false, none, keyword, []⟩

def ofName (name : String) : SyntaxNode :=
  ⟨"type_identifier", true, some "name", name, []⟩

def ofInherited (name : String) : SyntaxNode :=
  ⟨"inheritance_specifier", true, none, name, []⟩

/-- The node of a declaration with a header. -/
def ofHeader (header : Header) : SyntaxNode where
  kind := if header.keyword = "protocol" then "protocol_declaration" else "class_declaration"
  named := true
  field? := none
  text := ""
  children :=
    .ofKeyword header.keyword :: (header.name.toList.map ofName ++ header.inherited.map ofInherited)

/-- The tree of a source text. -/
def ofSource (text : String) : SyntaxNode where
  kind := "source_file"
  named := true
  field? := none
  text := text
  children := (outline 0 ⟨.blank, []⟩ (tokens text.toList)).map ofHeader

end SyntaxNode

end RibMap.Swift

namespace RibMap.Reference

/-- The grammar of outlines, whose parser keeps nothing. -/
scoped instance swiftGrammar : Swift.Grammar where
  Parser := Unit
  load := .ok ()
  parse parser text := (some (.ofSource text), parser)

end RibMap.Reference
