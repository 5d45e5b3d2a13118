import RibMap.Text.Blank

/-! # Tokens of Swift source

Source text is cut into tokens without losing a character: the tokens of a text, put together, are
the text. Comments are blank tokens, and a text literal is one token with all its interpolations.
A slash starts a regular expression only where an operand may start and only if the expression ends
on its line; elsewhere it is an operator.
-/

namespace RibMap.Swift

inductive TokenKind where
  | blank
  | word
  | literal
  | opening
  | closing
  | symbol
  deriving DecidableEq, Repr

structure Token where
  kind : TokenKind
  text : List Char
  deriving DecidableEq, Repr

def isSpace (c : Char) : Bool :=
  isBlank c || c.toNat == 0xfeff

/-- The characters of words and numbers; all characters outside ASCII are among them. -/
def isWordChar (c : Char) : Bool :=
  c.isAlphanum || c == '_' || c == '$' || (0x80 ≤ c.toNat && !isSpace c)

def isOperatorChar (c : Char) : Bool :=
  ['/', '=', '-', '+', '!', '*', '%', '<', '>', '&', '|', '^', '~', '?', '.'].contains c

/-- The number of characters in front that satisfy a condition. -/
def run (p : Char → Bool) (text : List Char) : Nat :=
  (text.takeWhile p).length

/-- The length of the rest of a block comment, inside of `depth` further ones. -/
def commentLength (depth : Nat) : List Char → Nat
  | [] => 0
  | '*' :: '/' :: rest =>
    match depth with
    | 0 => 2
    | outer + 1 => 2 + commentLength outer rest
  | '/' :: '*' :: rest => 2 + commentLength (depth + 1) rest
  | _ :: rest => 1 + commentLength depth rest

def startsBlock : List Char → Bool
  | '"' :: '"' :: '"' :: _ => true
  | _ => false

/-- What a character of a text literal is part of, innermost first: the text itself, or the code of
an interpolation with a number of open brackets. -/
inductive Layer where
  | text (pounds : Nat) (block : Bool)
  | code (depth : Nat)
  deriving DecidableEq, Repr

/-- The layer and length of the opening delimiter of a text literal in front, if there is one. -/
def openingQuote? (text : List Char) : Option (Layer × Nat) :=
  let pounds := run (· == '#') text
  let rest := text.drop pounds
  if startsBlock rest then some (.text pounds true, pounds + 3)
  else if rest.head? = some '"' then some (.text pounds false, pounds + 1)
  else none

/-- One step inside of the text of a literal: its length, and the layers after it. -/
def textStep (pounds : Nat) (block : Bool) (around : List Layer) (text : List Char) :
    Nat × List Layer :=
  let here := Layer.text pounds block :: around
  let pounded (rest : List Char) : Bool := pounds ≤ run (· == '#') rest
  match text with
  | '\\' :: rest =>
    if pounded rest then
      if (rest.drop pounds).head? = some '(' then (pounds + 2, .code 0 :: here)
      else (pounds + 2, here)
    else (1, here)
  | '"' :: rest =>
    if block then
      if startsBlock text && pounded (rest.drop 2) then (pounds + 3, around) else (1, here)
    else if pounded rest then (pounds + 1, around)
    else (1, here)
  | _ => (1, here)

/-- One step inside of the code of an interpolation. -/
def codeStep (depth : Nat) (around : List Layer) (text : List Char) : Nat × List Layer :=
  match openingQuote? text with
  | some (layer, length) => (length, layer :: .code depth :: around)
  | none =>
    match text with
    | '/' :: '/' :: rest => (2 + run (· ≠ '\n') rest, .code depth :: around)
    | '/' :: '*' :: rest => (2 + commentLength 0 rest, .code depth :: around)
    | c :: _ =>
      if c = ')' ∧ depth = 0 then (1, around)
      else if ['(', '[', '\x7b'].contains c then (1, .code (depth + 1) :: around)
      else if [')', ']', '\x7d'].contains c then (1, .code (depth - 1) :: around)
      else (1, .code depth :: around)
    | [] => (1, around)

/-- The length of the rest of a text literal in the given layers. -/
def literalLength (layers : List Layer) (text : List Char) : Nat :=
  match layers, text with
  | [], _ => 0
  | _, [] => 0
  | layer :: around, c :: rest =>
    let (length, layers) := match layer with
      | .text pounds block => textStep pounds block around (c :: rest)
      | .code depth => codeStep depth around (c :: rest)
    length + literalLength layers (rest.drop (length - 1))
termination_by text.length
decreasing_by
  simp only [List.length_drop, List.length_cons]
  omega

/-- The length of the rest of a regular expression on one line, behind its first slash. -/
def lineRegexLength? (afterSpace : Bool) : List Char → Option Nat
  | '\\' :: c :: rest =>
    if c = '\n' then none else (lineRegexLength? false rest).map (· + 2)
  | '/' :: _ => if afterSpace then none else some 1
  | c :: rest =>
    if c = '\n' then none else (lineRegexLength? (c = ' ' || c = '\t') rest).map (· + 1)
  | [] => none

/-- The length of the rest of a regular expression between slashes with pounds. -/
def poundRegexLength (pounds : Nat) : List Char → Nat
  | [] => 0
  | '/' :: rest =>
    if pounds ≤ run (· == '#') rest then pounds + 1 else 1 + poundRegexLength pounds rest
  | _ :: rest => 1 + poundRegexLength pounds rest

inductive Before where
  /-- Nothing, or something after which an operand may start. -/
  | start
  /-- An operand, or a word that an operator follows. -/
  | operand
  /-- An operator, with nothing between. -/
  | operator
  deriving DecidableEq, Repr

/-- Words after which an operand may start. -/
def isLeadWord (text : List Char) : Bool :=
  ["return", "in", "case", "if", "else", "while", "where", "try", "await", "throw", "guard",
    "switch", "is", "as", "let", "var", "for", "do", "repeat"].contains (String.ofList text)

/-- What the token behind a token follows. -/
def Before.after (before : Before) (token : Token) : Before :=
  match token.kind with
  | .blank => if before = .operator then .start else before
  | .word => if isLeadWord token.text then .start else .operand
  | .literal | .closing => .operand
  | .opening => .start
  | .symbol =>
    match token.text with
    | ['!'] | ['?'] => before
    | [c] => if isOperatorChar c then .operator else .start
    | _ => .operator

def extent (before : Before) (text : List Char) : TokenKind × Nat :=
  match text with
  | [] => (.blank, 0)
  | '/' :: '/' :: rest => (.blank, 2 + run (· ≠ '\n') rest)
  | '/' :: '*' :: rest => (.blank, 2 + commentLength 0 rest)
  | '-' :: '>' :: _ => (.symbol, 2)
  | c :: rest =>
    if isSpace c then (.blank, 1 + run isSpace rest)
    else if isWordChar c then (.word, 1 + run isWordChar rest)
    else if c = '\x60' then (.word, 2 + run (· ≠ '\x60') rest)
    else if ['(', '[', '\x7b'].contains c then (.opening, 1)
    else if [')', ']', '\x7d'].contains c then (.closing, 1)
    else
      match openingQuote? text with
      | some (layer, length) => (.literal, length + literalLength [layer] (text.drop length))
      | none =>
        let pounds := run (· == '#') text
        if 0 < pounds ∧ (text.drop pounds).head? = some '/' then
          (.literal, pounds + 1 + poundRegexLength pounds (text.drop (pounds + 1)))
        else if c = '/' ∧ before = .start then
          match lineRegexLength? true rest with
          | some length => if rest.head?.any isSpace then (.symbol, 1) else (.literal, 1 + length)
          | none => (.symbol, 1)
        else (.symbol, 1)

/-- The tokens of a text that follows something. -/
def tokensAfter (before : Before) : List Char → List Token
  | [] => []
  | c :: rest =>
    let (kind, length) := extent before (c :: rest)
    let token : Token := ⟨kind, c :: rest.take (length - 1)⟩
    token :: tokensAfter (before.after token) (rest.drop (length - 1))
termination_by text => text.length
decreasing_by
  simp only [List.length_drop, List.length_cons]
  omega

/-- The tokens of a source text; a first line that names an interpreter is blank. -/
def tokens (text : List Char) : List Token :=
  match text with
  | '#' :: '!' :: _ =>
    let line := run (· ≠ '\n') text
    ⟨.blank, text.take line⟩ :: tokensAfter .start (text.drop line)
  | _ => tokensAfter .start text

end RibMap.Swift
