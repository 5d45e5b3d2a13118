import RibMap.Proofs.Reference.Swift.Cutting

/-! # The tokens of printed declarations

The tokens of what is printed of declarations are those it was put together from.
-/

namespace RibMap.Swift

/-- The token of a word. -/
def wordToken (word : String) : Token :=
  ⟨.word, word.toList⟩

/-- The token of a single blank. -/
def spaceToken : Token :=
  ⟨.blank, [' ']⟩

/-- The token of an opening brace. -/
def openingBrace : Token :=
  ⟨.opening, ['\x7b']⟩

/-- The token of a closing brace. -/
def closingBrace : Token :=
  ⟨.closing, ['\x7d']⟩

/-- The tokens of the inherited types behind the first one. -/
def furtherTokens (names : List TypeName) : List Token :=
  names.flatMap fun name => [⟨.symbol, [',']⟩, spaceToken, wordToken name.text]

/-- The tokens of the list of inherited types behind a name. -/
def inheritanceTokens : List TypeName → List Token
  | [] => []
  | name :: names => ⟨.symbol, [':']⟩ :: spaceToken :: wordToken name.text :: furtherTokens names

/-- The tokens of the line with which a declaration starts, behind the keyword. -/
def headingTokens (name : TypeName) (inherited : List TypeName) : List Token :=
  spaceToken :: wordToken name.text :: (inheritanceTokens inherited ++ [spaceToken, openingBrace])

/-- The token of a line feed and the indentation at a nesting depth. -/
def breakToken (indent depth : Nat) : Token :=
  ⟨.blank, lineBreak indent depth⟩

mutual

/-- The tokens of a declaration. -/
def Tree.tokens (indent depth : Nat) : Tree → List Token
  | .type keyword name inherited nested =>
    wordToken keyword.text :: (headingTokens name inherited ++
      (tokensOfLines indent (depth + 1) nested ++ [breakToken indent depth, closingBrace]))
  | .protocol name inherited =>
    wordToken "protocol" ::
      (headingTokens name inherited ++ [breakToken indent depth, closingBrace])

/-- The tokens of declarations on lines of their own. -/
def tokensOfLines (indent depth : Nat) : List Tree → List Token
  | [] => []
  | tree :: trees =>
    breakToken indent depth :: (tree.tokens indent depth ++ tokensOfLines indent depth trees)

end

/-- The tokens of a source file of declarations. -/
def tokensOfSource (indent : Nat) : List Tree → List Token
  | [] => []
  | tree :: trees =>
    tree.tokens indent 0 ++ ⟨.blank, ['\n']⟩ :: tokensOfSource indent trees

theorem cuts_space {text : List Char} {tokens : List Token} (ends : Ends isSpace text)
    (cuts : Cuts text tokens) : Cuts (' ' :: text) (spaceToken :: tokens) := by
  have blank : Cuts ([' '] ++ text) (spaceToken :: tokens) :=
    .blank (by decide) (List.all_eq_true.mp rfl) ends cuts
  exact blank

theorem TypeName.cuts (name : TypeName) {text : List Char} {tokens : List Token}
    (ends : Ends isWordChar text) (cuts : Cuts text tokens) :
    Cuts (name.text.toList ++ text) (wordToken name.text :: tokens) :=
  .word name.toList_ne_nil name.plain ends cuts

/-- No name starts with white space. -/
theorem TypeName.ends_isSpace (name : TypeName) (text : List Char) :
    Ends isSpace (name.text.toList ++ text) := by
  obtain ⟨c, rest, found⟩ := List.exists_cons_of_ne_nil name.toList_ne_nil
  have plain := name.plain c (found ▸ List.mem_cons_self)
  simp [Ends, found, (isWordChar_of_isAlphanum plain).2.1]

/-- What ends the heading of a declaration. -/
theorem cuts_headingEnd : Cuts [' ', '\x7b'] [spaceToken, openingBrace] :=
  cuts_space rfl (.mark (by decide) .nil)

theorem cuts_further (names : List TypeName) :
    Cuts ((names.flatMap fun name => ',' :: ' ' :: name.text.toList) ++ [' ', '\x7b'])
      (furtherTokens names ++ [spaceToken, openingBrace]) := by
  induction names with
  | nil => exact cuts_headingEnd
  | cons name names ih =>
    have ends : Ends isWordChar
        ((names.flatMap fun name => ',' :: ' ' :: name.text.toList) ++ [' ', '\x7b']) := by
      cases names <;> rfl
    simp only [furtherTokens, List.flatMap_cons, List.append_assoc, List.cons_append,
      List.nil_append] at ih ⊢
    exact .mark (by decide) (cuts_space (name.ends_isSpace _) (name.cuts ends ih))

theorem cuts_heading {keyword : String} (proper : keyword.toList ≠ [])
    (plain : ∀ c ∈ keyword.toList, c.isAlphanum = true) (name : TypeName)
    (inherited : List TypeName) :
    Cuts (headingText keyword name inherited)
      (wordToken keyword :: headingTokens name inherited) := by
  refine .word proper plain rfl (cuts_space (name.ends_isSpace _) ?_)
  cases inherited with
  | nil => exact name.cuts rfl cuts_headingEnd
  | cons first names =>
    have ends : Ends isWordChar
        ((names.flatMap fun name => ',' :: ' ' :: name.text.toList) ++ [' ', '\x7b']) := by
      cases names <;> rfl
    have further := first.cuts ends (cuts_further names)
    simp only [inheritanceText, inheritanceTokens, List.cons_append, List.append_assoc]
    exact name.cuts rfl (.mark (by decide) (cuts_space (first.ends_isSpace _) further))

theorem cuts_break (indent depth : Nat) {text : List Char} {tokens : List Token}
    (ends : Ends isSpace text) (cuts : Cuts text tokens) :
    Cuts (lineBreak indent depth ++ text) (breakToken indent depth :: tokens) := by
  refine .blank (List.cons_ne_nil _ _) (fun c mem => ?_) ends cuts
  rcases List.mem_cons.mp mem with rfl | mem
  · rfl
  · rw [List.eq_of_mem_replicate mem]
    rfl

theorem cuts_closing (indent depth : Nat) :
    Cuts (lineBreak indent depth ++ ['\x7d']) [breakToken indent depth, closingBrace] :=
  cuts_break indent depth rfl (.mark (by decide) .nil)

/-- A printed declaration starts with its keyword. -/
theorem Tree.ends_isSpace (indent depth : Nat) (tree : Tree) (text : List Char) :
    Ends isSpace (tree.swift indent depth ++ text) := by
  cases tree with
  | type keyword => cases keyword <;> rfl
  | protocol => rfl

mutual

/-- A printed declaration is cut into its tokens. -/
theorem Tree.cuts (indent depth : Nat) :
    ∀ tree : Tree, Cuts (tree.swift indent depth) (tree.tokens indent depth)
  | .type keyword name inherited nested => by
    have plain : keyword.text.toList.all Char.isAlphanum = true := by cases keyword <;> rfl
    have heading : Cuts (headingText keyword.text name inherited) _ :=
      cuts_heading (by cases keyword <;> decide) (List.all_eq_true.mp plain) name inherited
    exact heading.append ((cuts_lines indent (depth + 1) nested).append (cuts_closing indent depth))
  | .protocol name inherited =>
    (cuts_heading (by decide) (List.all_eq_true.mp rfl) name inherited).append
      (cuts_closing indent depth)

theorem cuts_lines (indent depth : Nat) :
    ∀ trees : List Tree, Cuts (swiftLines indent depth trees) (tokensOfLines indent depth trees)
  | [] => .nil
  | tree :: trees =>
    cuts_break indent depth (tree.ends_isSpace indent depth _)
      ((tree.cuts indent depth).append (cuts_lines indent depth trees))

end

theorem tokensAfter_sourceText (indent : Nat) (before : Before) (trees : List Tree) :
    tokensAfter before (sourceText indent trees) = tokensOfSource indent trees := by
  induction trees generalizing before with
  | nil =>
    rw [sourceText, tokensAfter]
    rfl
  | cons tree trees ih =>
    -- The line feed is a blank of its own because the next declaration starts with its keyword.
    have ends : ∀ c ∈ (sourceText indent trees).head?, isSpace c = false := by
      cases trees with
      | nil => simp [sourceText]
      | cons next trees =>
        have ends := (next.ends_isSpace indent 0 ('\n' :: sourceText indent trees)).append []
        rwa [List.append_nil] at ends
    have blank (before : Before) : tokensAfter before (['\n'] ++ sourceText indent trees) = _ :=
      tokensAfter_blank (by decide) (List.all_eq_true.mp rfl) ends before
    rw [sourceText, tree.cuts]
    change _ ++ tokensAfter _ (['\n'] ++ sourceText indent trees) = _
    rw [blank, ih]
    rfl

/-- A source file of declarations is cut into the tokens of the declarations. -/
theorem tokens_sourceText (indent : Nat) (trees : List Tree) :
    tokens (sourceText indent trees) = tokensOfSource indent trees := by
  have noScript : tokens (sourceText indent trees) =
      tokensAfter .start (sourceText indent trees) := by
    cases trees with
    | nil => rfl
    | cons tree trees =>
      cases tree with
      | type keyword => cases keyword <;> rfl
      | protocol => rfl
  rw [noScript, tokensAfter_sourceText]

end RibMap.Swift
