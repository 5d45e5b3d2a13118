import RibMap.Proofs.Reference.Swift.Printed
import RibMap.Reference.Swift.Outline

/-! # The outline of printed declarations

The outline of printed declarations is one header for each of them, whatever is nested in it: its
keyword, its name and its inherited types are read off its first line, and the braces of all that is
nested keep it inside the body. So the tree that is made of the outline has the nodes that are
documented of declarations.
-/

namespace RibMap.Swift

/-- The header of a declaration, whatever is nested in it. -/
def Tree.header (tree : Tree) : Header :=
  ⟨tree.keyword, some tree.name.text, tree.inherited.map (·.text)⟩

/-- A word is told from every word that starts in lower case by its capital letter. -/
theorem TypeName.isWord_eq_false (name : TypeName) (word : String)
    (lower : word.toList.head?.any Char.isUpper = false) :
    (wordToken name.text).isWord word = false := by
  have differ : name.text.toList ≠ word.toList := by
    intro same
    rw [← same, name.capital] at lower
    cases lower
  simp [Token.isWord, wordToken, differ]

/-- A name is neither a bracket nor a mark, and nothing that ends a part of a heading. -/
theorem TypeName.endsExtended_eq_false (name : TypeName) :
    endsExtended (wordToken name.text) = false := by
  have noWhere := name.isWord_eq_false "where" rfl
  simp only [endsExtended, endsInheritance, noWhere]
  simp [Token.isMark, wordToken]

theorem opens_wordToken (word : String) : (wordToken word).opens = false := by
  simp [Token.opens, Token.isMark, wordToken]

theorem closes_wordToken (word : String) : (wordToken word).closes = false := by
  simp [Token.closes, Token.isMark, wordToken]

theorem isMark_wordToken (word : String) (c : Char) : (wordToken word).isMark c = false := by
  simp [Token.isMark, wordToken]

/-- What comes up to a token at which to stop is broken off there. -/
theorem breakAt_append {stop : Token → Bool} {front : List Token}
    (inner : ∀ token ∈ front, stop token = false ∧ token.opens = false ∧ token.closes = false)
    (last : Token) (stops : stop last = true) (rest : List Token) :
    breakAt stop 0 (front ++ last :: rest) = (front, last :: rest) := by
  induction front with
  | nil => simp [breakAt, stops]
  | cons token front ih =>
    obtain ⟨goesOn, noOpening, noClosing⟩ := inner token List.mem_cons_self
    have others := ih fun other mem => inner other (List.mem_cons_of_mem _ mem)
    simp [breakAt, goesOn, noOpening, noClosing, others]

/-- The first type of a list is all that is in front of the first comma. -/
theorem splitTypes_comma (name : TypeName) (rest : List Token) :
    splitTypes 0 (spaceToken :: wordToken name.text :: ⟨.symbol, [',']⟩ :: rest) =
      [spaceToken, wordToken name.text] :: splitTypes 0 rest := by
  simp [splitTypes, spaceToken, wordToken, Token.isMark, Token.opens, Token.closes]

theorem splitTypes_last (name : TypeName) :
    splitTypes 0 [spaceToken, wordToken name.text, spaceToken] =
      [[spaceToken, wordToken name.text, spaceToken]] := by
  simp [splitTypes, spaceToken, wordToken, Token.isMark, Token.opens, Token.closes]

theorem dropBlanks_word {blanks : List Token} (blank : ∀ token ∈ blanks, token.isBlank = true)
    (word : String) (rest : List Token) :
    dropBlanks (blanks ++ wordToken word :: rest) = wordToken word :: rest :=
  (List.dropWhile_append_of_pos blank).trans rfl

/-- Blanks around a word are no part of its text. -/
theorem textOf_word {before after : List Token} (blank : ∀ token ∈ before, token.isBlank = true)
    (blank' : ∀ token ∈ after, token.isBlank = true) (word : String) :
    textOf (before ++ wordToken word :: after) = word := by
  have reversed : ∀ token ∈ after.reverse, token.isBlank = true :=
    fun token mem => blank' token (List.mem_reverse.mp mem)
  have trimmed : trimBlanks (before ++ wordToken word :: after) = [wordToken word] := by
    rw [trimBlanks, dropBlanks_word blank, List.reverse_cons, dropBlanks_word reversed]
    rfl
  rw [textOf, trimmed]
  simp [wordToken]

/-- Attributes are dropped together with the blanks in front; a word is not one. -/
theorem dropAttributes_word (word : String) (rest : List Token) :
    dropAttributes (spaceToken :: wordToken word :: rest) = wordToken word :: rest := by
  rw [dropAttributes]
  split
  · rename_i found
    cases found
  · rename_i found
    cases found
    simp [isMark_wordToken]

theorem typeNames_types (first : TypeName) (names : List TypeName) :
    typeNames (spaceToken :: wordToken first.text :: (furtherTokens names ++ [spaceToken])) =
      (first :: names).map (·.text) := by
  have proper (name : TypeName) : name.text ≠ "" :=
    fun empty => name.toList_ne_nil (empty ▸ rfl)
  have blank : ∀ token ∈ [spaceToken], token.isBlank = true := by decide
  have read (name : TypeName) (after : List Token) (blank : ∀ token ∈ after, token.isBlank = true) :
      textOf (dropAttributes (spaceToken :: wordToken name.text :: after)) = name.text := by
    rw [dropAttributes_word]
    exact textOf_word (List.forall_mem_nil _) blank name.text
  induction names generalizing first with
  | nil =>
    change typeNames [spaceToken, wordToken first.text, spaceToken] = [first.text]
    rw [typeNames, splitTypes_last, List.map_singleton, read first _ blank,
      List.filter_cons_of_pos (by simpa using proper first)]
    rfl
  | cons name names ih =>
    have others := ih name
    rw [typeNames] at others
    change typeNames (spaceToken :: wordToken first.text :: ⟨.symbol, [',']⟩ ::
      (spaceToken :: wordToken name.text :: (furtherTokens names ++ [spaceToken]))) = _
    rw [typeNames, splitTypes_comma, List.map_cons, read first _ (by simp),
      List.filter_cons_of_pos (by simpa using proper first), others]
    rfl

/-- Nothing in a list of inherited types ends the list. -/
theorem inner_types (first : TypeName) (names : List TypeName) :
    ∀ token ∈ spaceToken :: wordToken first.text :: (furtherTokens names ++ [spaceToken]),
      endsInheritance token = false ∧ token.opens = false ∧ token.closes = false := by
  have space : endsInheritance spaceToken = false ∧ spaceToken.opens = false ∧
      spaceToken.closes = false := by decide
  have word (name : TypeName) : endsInheritance (wordToken name.text) = false ∧
      (wordToken name.text).opens = false ∧ (wordToken name.text).closes = false := by
    have noWhere := name.isWord_eq_false "where" rfl
    exact ⟨by simp [endsInheritance, noWhere, isMark_wordToken], opens_wordToken _,
      closes_wordToken _⟩
  intro token mem
  simp only [furtherTokens, List.mem_cons, List.mem_append, List.mem_flatMap, List.not_mem_nil,
    or_false] at mem
  rcases mem with rfl | rfl | ⟨name, -, rfl | rfl | rfl⟩ | rfl
  · exact space
  · exact word first
  · decide
  · exact space
  · exact word name
  · exact space

/-- The inherited types of a heading are all read, and its brace is left over. -/
theorem inheritance_types (inherited : List TypeName) (rest : List Token) :
    inheritance (inheritanceTokens inherited ++ spaceToken :: openingBrace :: rest) =
      (inherited.map (·.text), openingBrace :: rest) := by
  cases inherited with
  | nil => rfl
  | cons first names =>
    have colon (tokens : List Token) : inheritance (⟨.symbol, [':']⟩ :: tokens) =
        (typeNames (breakAt endsInheritance 0 tokens).1, (breakAt endsInheritance 0 tokens).2) :=
      rfl
    have broken := breakAt_append (inner_types first names) openingBrace rfl rest
    simp only [List.cons_append, List.append_assoc, List.nil_append] at broken
    simp only [inheritanceTokens, List.cons_append]
    rw [colon, broken, typeNames_types]

/-- The type that an extension extends is a single name. -/
theorem extended_name (name : TypeName) (inherited : List TypeName) (rest : List Token) :
    ∃ front, breakAt endsExtended 0 (headingTokens name inherited ++ rest) =
        (front, dropBlanks (inheritanceTokens inherited ++ spaceToken :: openingBrace :: rest)) ∧
      textOf front = name.text := by
  have space : endsExtended spaceToken = false ∧ spaceToken.opens = false ∧
      spaceToken.closes = false := by decide
  have word : endsExtended (wordToken name.text) = false ∧ (wordToken name.text).opens = false ∧
      (wordToken name.text).closes = false :=
    ⟨name.endsExtended_eq_false, opens_wordToken _, closes_wordToken _⟩
  have blank : ∀ token ∈ [spaceToken], token.isBlank = true := by decide
  cases inherited with
  | nil =>
    have front : ∀ token ∈ [spaceToken, wordToken name.text, spaceToken],
        endsExtended token = false ∧ token.opens = false ∧ token.closes = false := by
      intro token mem
      simp only [List.mem_cons, List.not_mem_nil, or_false] at mem
      rcases mem with rfl | rfl | rfl
      · exact space
      · exact word
      · exact space
    have broken := breakAt_append front openingBrace rfl rest
    exact ⟨_, broken, textOf_word blank blank _⟩
  | cons first names =>
    refine ⟨[spaceToken, wordToken name.text], ?_, textOf_word blank (by simp) _⟩
    have front : ∀ token ∈ [spaceToken, wordToken name.text],
        endsExtended token = false ∧ token.opens = false ∧ token.closes = false := by
      intro token mem
      rcases List.mem_cons.mp mem with rfl | mem
      · exact space
      · exact List.mem_singleton.mp mem ▸ word
    have broken := breakAt_append front ⟨.symbol, [':']⟩ rfl
    simp only [headingTokens, inheritanceTokens, List.cons_append, List.nil_append,
      List.append_assoc] at broken ⊢
    rw [broken]
    rfl

/-- The name of a heading is read, and its list of inherited types is left over. -/
theorem headerName?_heading (keyword : String) (name : TypeName) (inherited : List TypeName)
    (rest : List Token) :
    headerName? keyword (headingTokens name inherited ++ rest) =
      some (some name.text,
        dropBlanks (inheritanceTokens inherited ++ spaceToken :: openingBrace :: rest)) := by
  unfold headerName?
  split
  · obtain ⟨front, broken, named⟩ := extended_name name inherited rest
    have proper : name.text ≠ "" := fun empty => name.toList_ne_nil (empty ▸ rfl)
    simp only [broken, named, proper, ↓reduceIte]
  · have simple : simpleName? (headingTokens name inherited ++ rest) =
        some (some name.text,
          inheritanceTokens inherited ++ spaceToken :: openingBrace :: rest) := by
      have word : simpleName? (headingTokens name inherited ++ rest) =
          some (some (String.ofList name.text.toList),
            inheritanceTokens inherited ++ [spaceToken, openingBrace] ++ rest) := rfl
      rw [word, String.ofList_toList, List.append_assoc]
      rfl
    rw [simple]
    cases inherited <;> rfl

theorem header?_heading (keyword : String) (name : TypeName) (inherited : List TypeName)
    (rest : List Token) :
    header? keyword (headingTokens name inherited ++ rest) =
      some (⟨keyword, some name.text, inherited.map (·.text)⟩, rest) := by
  have types : inheritance
      (dropBlanks (inheritanceTokens inherited ++ spaceToken :: openingBrace :: rest)) =
        (inherited.map (·.text), openingBrace :: rest) := by
    rw [← inheritance_types]
    cases inherited <;> rfl
  rw [header?, headerName?_heading]
  simp only [bind, Option.bind, types]
  rfl

/-- A declaration is its heading and its body, which ends with a closing brace. -/
theorem Tree.tokens_eq (indent depth : Nat) (tree : Tree) :
    tree.tokens indent depth =
      wordToken tree.keyword :: (headingTokens tree.name tree.inherited ++
        (tokensOfLines indent (depth + 1) tree.nested ++
          [breakToken indent depth, closingBrace])) := by
  cases tree <;> rfl

/-- A token behind which a keyword starts a declaration. -/
def Token.Fresh (token : Token) : Prop :=
  token.isMark '.' = false ∧ token.isWord "import" = false

instance (token : Token) : Decidable token.Fresh :=
  inferInstanceAs (Decidable (_ ∧ _))

/-- A name behind the word `actor` makes it a keyword. -/
theorem namesActor_heading (name : TypeName) (inherited : List TypeName) (rest : List Token) :
    namesActor (headingTokens name inherited ++ rest) = true := by
  have other : ∀ word ∈ ["in", "is", "as", "else", "where"],
      (wordToken name.text).isWord word = false := by
    intro word mem
    simp only [List.mem_cons, List.not_mem_nil, or_false] at mem
    rcases mem with rfl | rfl | rfl | rfl | rfl <;> exact name.isWord_eq_false _ rfl
  have none : (["in", "is", "as", "else", "where"].any fun word =>
      (wordToken name.text).isWord word) = false :=
    List.any_eq_false.mpr fun word mem => Bool.eq_false_iff.mp (other word mem)
  change (true && !(["in", "is", "as", "else", "where"].any fun word =>
      (wordToken name.text).isWord word)) = true
  rw [none]
  rfl

theorem keyword?_tree {previous : Token} (fresh : previous.Fresh) (tree : Tree)
    (rest : List Token) :
    keyword? previous (wordToken tree.keyword) (headingTokens tree.name tree.inherited ++ rest) =
      some tree.keyword := by
  obtain ⟨noDot, noImport⟩ := fresh
  have isWord : (wordToken tree.keyword).kind = .word := rfl
  have word : String.ofList (wordToken tree.keyword).text = tree.keyword := String.ofList_toList
  have actor := namesActor_heading tree.name tree.inherited rest
  simp only [keyword?, isWord, noDot, noImport, word, actor]
  cases tree with
  | protocol => rfl
  | type keyword => cases keyword <;> rfl

/-- A heading behind its keyword gives the header of the declaration, and the body is left over. -/
theorem headerAt?_tree {previous : Token} (fresh : previous.Fresh) (tree : Tree)
    (rest : List Token) :
    headerAt? previous (wordToken tree.keyword)
        (headingTokens tree.name tree.inherited ++ rest) =
      some (tree.header, rest) := by
  rw [headerAt?, keyword?_tree fresh, Option.bind_some, header?_heading]
  rfl

/-- Inside of brackets, tokens that are no brackets lead to no header. -/
theorem outline_inside {front : List Token}
    (inside : ∀ token ∈ front, token.kind ≠ .opening ∧ token.kind ≠ .closing) (depth : Nat)
    (previous : Token) (rest : List Token) :
    ∃ previous', outline (depth + 1) previous (front ++ rest) =
      outline (depth + 1) previous' rest := by
  induction front generalizing previous with
  | nil => exact ⟨previous, rfl⟩
  | cons token front ih =>
    obtain ⟨noOpening, noClosing⟩ := inside token List.mem_cons_self
    have others := ih fun other mem => inside other (List.mem_cons_of_mem _ mem)
    rw [List.cons_append, outline]
    simp only [noOpening, noClosing, Nat.succ_ne_zero, ne_eq, not_false_eq_true, ↓reduceIte]
    split
    · exact others previous
    · exact others token

theorem outline_openingBrace (depth : Nat) (previous : Token) (rest : List Token) :
    outline depth previous (openingBrace :: rest) = outline (depth + 1) openingBrace rest := by
  rw [outline]
  rfl

theorem outline_closingBrace (depth : Nat) (previous : Token) (rest : List Token) :
    outline (depth + 1) previous (closingBrace :: rest) = outline depth closingBrace rest := by
  rw [outline]
  rfl

theorem outline_breakToken (indent indentDepth depth : Nat) (previous : Token)
    (rest : List Token) :
    outline depth previous (breakToken indent indentDepth :: rest) =
      outline depth previous rest := by
  rw [outline]
  rfl

/-- Inside of brackets, a heading leads inside of its brace. -/
theorem outline_heading (keyword : String) (name : TypeName) (inherited : List TypeName)
    (depth : Nat) (previous : Token) (rest : List Token) :
    outline (depth + 1) previous (wordToken keyword :: (headingTokens name inherited ++ rest)) =
      outline (depth + 2) openingBrace rest := by
  have word (word : String) :
      (wordToken word).kind ≠ .opening ∧ (wordToken word).kind ≠ .closing := by
    simp [wordToken]
  have inside : ∀ token ∈ wordToken keyword :: spaceToken :: wordToken name.text ::
      (inheritanceTokens inherited ++ [spaceToken]),
      token.kind ≠ .opening ∧ token.kind ≠ .closing := by
    intro token mem
    simp only [List.mem_cons, List.mem_append, List.not_mem_nil, or_false] at mem
    rcases mem with rfl | rfl | rfl | mem | rfl
    · exact word keyword
    · decide
    · exact word name.text
    · cases inherited with
      | nil => cases mem
      | cons first names =>
        simp only [inheritanceTokens, furtherTokens, List.mem_cons, List.mem_flatMap,
          List.not_mem_nil, or_false] at mem
        rcases mem with rfl | rfl | rfl | ⟨other, -, rfl | rfl | rfl⟩
        · decide
        · decide
        · exact word first.text
        · decide
        · decide
        · exact word other.text
    · decide
  obtain ⟨previous', passed⟩ := outline_inside inside depth previous (openingBrace :: rest)
  rw [outline_openingBrace] at passed
  simpa [headingTokens] using passed

/-- The end of a body closes its brace. -/
theorem outline_bodyEnd (indent indentDepth depth : Nat) (previous : Token) (rest : List Token) :
    outline (depth + 1) previous ([breakToken indent indentDepth, closingBrace] ++ rest) =
      outline depth closingBrace rest := by
  change outline (depth + 1) previous (breakToken indent indentDepth :: closingBrace :: rest) = _
  rw [outline_breakToken, outline_closingBrace]

mutual

/-- Inside of brackets, a declaration is passed over with all that is nested in it. -/
theorem outline_nested (indent indentDepth : Nat) :
    ∀ (tree : Tree) (depth : Nat) (previous : Token) (rest : List Token),
      outline (depth + 1) previous (tree.tokens indent indentDepth ++ rest) =
        outline (depth + 1) closingBrace rest
  | .type keyword name inherited nested, depth, previous, rest => by
    -- The heading leads one brace deeper, and the end of the body leads out again.
    rw [Tree.tokens_eq, List.cons_append, List.append_assoc, outline_heading, List.append_assoc]
    exact outline_body indent (indentDepth + 1) nested _ _ _ _
  | .protocol name inherited, depth, previous, rest => by
    rw [Tree.tokens_eq, List.cons_append, List.append_assoc, outline_heading]
    exact outline_bodyEnd indent indentDepth _ _ _

/-- Inside of brackets, nested declarations are passed over up to the brace behind them. -/
theorem outline_body (indent indentDepth : Nat) :
    ∀ (trees : List Tree) (endDepth depth : Nat) (previous : Token) (rest : List Token),
      outline (depth + 1) previous (tokensOfLines indent indentDepth trees ++
          ([breakToken indent endDepth, closingBrace] ++ rest)) =
        outline depth closingBrace rest
  | [], endDepth, depth, previous, rest => outline_bodyEnd indent endDepth depth previous rest
  | tree :: trees, endDepth, depth, previous, rest => by
    rw [tokensOfLines, List.cons_append, List.append_assoc, outline_breakToken, outline_nested]
    exact outline_body indent indentDepth trees endDepth depth _ rest

end

/-- Outside of brackets, a declaration gives its header and nothing else. -/
theorem outline_tree (indent : Nat) {previous : Token} (fresh : previous.Fresh) (tree : Tree)
    (rest : List Token) :
    outline 0 previous (tree.tokens indent 0 ++ rest) =
      tree.header :: outline 0 closingBrace rest := by
  have found := headerAt?_tree fresh tree
    (tokensOfLines indent 1 tree.nested ++ ([breakToken indent 0, closingBrace] ++ rest))
  rw [Tree.tokens_eq, List.cons_append, List.append_assoc, List.append_assoc, outline]
  have blank : (wordToken tree.keyword).isBlank = false := rfl
  have kind : (wordToken tree.keyword).kind = .word := rfl
  simp only [blank, kind, reduceCtorEq, Bool.false_eq_true, ne_eq, not_true_eq_false, ↓reduceIte]
  split
  · rename_i none
    rw [found] at none
    cases none
  · rename_i header inside other
    rw [found] at other
    cases other
    exact congrArg (_ :: ·) (outline_body indent 1 tree.nested 0 0 _ rest)

theorem outline_source (indent : Nat) {previous : Token} (fresh : previous.Fresh)
    (trees : List Tree) :
    outline 0 previous (tokensOfSource indent trees) = trees.map Tree.header := by
  induction trees generalizing previous with
  | nil =>
    rw [tokensOfSource, outline]
    rfl
  | cons tree trees ih =>
    have brace : closingBrace.Fresh := by decide
    rw [tokensOfSource, outline_tree indent fresh, outline]
    exact congrArg (_ :: ·) (ih brace)

theorem specifies_ofInherited (names : List TypeName) :
    Specifies ((names.map (·.text)).map SyntaxNode.ofInherited) names := by
  induction names with
  | nil => exact .nil
  | cons name names ih => exact .specifier rfl rfl ih

theorem declares_ofHeader (tree : Tree) : (SyntaxNode.ofHeader tree.header).Declares tree where
  kind := by
    cases tree with
    | type keyword => cases keyword <;> rfl
    | protocol => rfl
  children := by
    have noType : "type_identifier" ≠ "inheritance_specifier" := by decide
    exact ⟨_, _, _, rfl, ⟨rfl, rfl, nofun⟩, ⟨rfl, noType, rfl⟩,
      specifies_ofInherited tree.inherited⟩

end RibMap.Swift

namespace RibMap.Reference

open Swift

/-- The root of the tree of printed declarations has a node for each of those at the top. -/
theorem parsedAs (indent : Nat) (trees : List Tree) : ParsedAs () indent trees := by
  refine ⟨_, rfl, ?_⟩
  have headers : outline 0 ⟨.blank, []⟩ (tokens (sourceText indent trees)) =
      trees.map Tree.header := by
    rw [tokens_sourceText]
    exact outline_source indent (by decide) trees
  rw [SyntaxNode.ofSource, String.toList_ofList, headers]
  clear headers
  induction trees with
  | nil => exact .nil
  | cons tree trees ih => exact .cons (declares_ofHeader tree) ih

end RibMap.Reference
